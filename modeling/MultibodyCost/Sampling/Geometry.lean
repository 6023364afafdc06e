import MultibodyCost.Geometry.Placement
import MultibodyCost.Sampling.Uniform

/-!
# Random rotations, placements and motions

A rotation is drawn uniformly by rejection: a point of the four-dimensional cube is accepted if it
lies in the unit ball and not too near its centre, and then normalized. Translations and motions
have their components in `[-1, 1]`.
-/

namespace MultibodyCost.Sampler

variable {α : Type} [Sampled α]

def cubePoint : Sampler (Quaternion α) := do
  let x ← halfOpen (-1) 1
  let y ← halfOpen (-1) 1
  let z ← halfOpen (-1) 1
  let w ← halfOpen (-1) 1
  return ⟨x, y, z, w⟩

/-- A point by which a rotation may be drawn. -/
def accepts (q : Quaternion α) : Bool := (1e-3 : α) < q.norm && q.norm ≤ 1

/-- Draws points until one is accepted. Every attempt takes words, so there are no more `attempts`
than words. -/
def acceptedPoint : (attempts : Nat) → Sampler (Quaternion α)
  | 0 => throw .exhausted
  | attempts + 1 => do
    let q ← cubePoint
    if accepts q then return q else acceptedPoint attempts

def rotation : Sampler (Quaternion α) := do
  let words ← get
  let q ← acceptedPoint (words.length + 1)
  return q.normalized

def vec3 : Sampler (Vec3 α) := do
  let x ← closed (-1) 1
  let y ← closed (-1) 1
  let z ← closed (-1) 1
  return ⟨x, y, z⟩

def placement : Sampler (Placement α) := do
  let t ← vec3
  let q ← rotation
  return ⟨t, q⟩

def motion : Sampler (Motion α) := do
  let linear ← vec3
  let angular ← vec3
  return ⟨linear, angular⟩

/-- A matrix with entries in `[-1, 1]`, drawn column after column. -/
def mat (rows cols : Nat) : Sampler (Mat α) := do
  let xs ← replicate (rows * cols) (closed (-1 : α) 1)
  let v : Vec α := xs.toArray
  return Mat.ofFn rows cols fun i j => v.entry (j * rows + i)

end MultibodyCost.Sampler
