import MultibodyCost.Model.Basic
import MultibodyCost.Sampling.Geometry
import MultibodyCost.State.Jacobians

/-!
# States of a multibody model

A state is a configuration followed by a velocity. The configuration manifold is the product of the
joints' own manifolds, the velocity is Euclidean, and a tangent vector is a tangent of the
configuration followed by a change of velocity. Rotations are stored as quaternions and tangents of
free-flying joints are local motions, linear part first.

The operations of one joint act on its own slice; the operations of a model visit the joints and
place each result at the joint's offset.
-/

namespace MultibodyCost

namespace JointKind

variable {α : Type}

def neutral [Scalar α] (k : JointKind) : Vec α :=
  match k.realPart? with
  | some i => (Vec.zeros k.nq).put i 1
  | none => Vec.zeros k.nq

variable [Elementary α]

def diff (k : JointKind) (q0 q1 : Vec α) : Vec α :=
  match k with
  | revolute => #[q1.entry 0 - q0.entry 0]
  | prismatic => #[q1.entry 0 - q0.entry 0]
  | spherical =>
    (Rotation.log ((Quaternion.ofVec q0 0).inverse * Quaternion.ofVec q1 0)).toVec
  | freeFlyer =>
    (Placement.log ((Placement.ofVec q0 0).inverse * Placement.ofVec q1 0)).toVec

def integrate (k : JointKind) (q d : Vec α) : Vec α :=
  match k with
  | revolute => #[q.entry 0 + d.entry 0]
  | prismatic => #[q.entry 0 + d.entry 0]
  | spherical => (Quaternion.ofVec q 0 * Rotation.exp (Vec3.ofVec d 0)).toVec
  | freeFlyer => (Placement.ofVec q 0 * Placement.exp (Motion.ofVec d 0)).toVec

@[simp] theorem size_diff (k : JointKind) (q0 q1 : Vec α) : (k.diff q0 q1).size = k.nv := by
  cases k <;> rfl

@[simp] theorem size_integrate (k : JointKind) (q d : Vec α) : (k.integrate q d).size = k.nq := by
  cases k <;> rfl

/-- A block of a Jacobian that depends on the tangent of a joint: one for joints that rotate
freely, one for free-flying joints. Joints with a single coordinate have none. -/
structure Blocks (α : Type) where
  rotation : Vec3 α → Mat3 α
  placement : Motion α → Mat6 α

def block? (b : Blocks α) (k : JointKind) (d : Vec α) : Option (Mat α) :=
  match k with
  | spherical => some (b.rotation (Vec3.ofVec d 0)).toMat
  | freeFlyer => some (b.placement (Motion.ofVec d 0)).toMat
  | _ => none

end JointKind

structure Multibody (α : Type) where
  model : Model α

namespace Multibody

variable {α : Type}

def nq (s : Multibody α) : Nat := s.model.nq

def nv (s : Multibody α) : Nat := s.model.nv

def nx (s : Multibody α) : Nat := s.nq + s.nv

def ndx (s : Multibody α) : Nat := 2 * s.nv

/-- Refuses a vector that is not a state. -/
def checkState (s : Multibody α) (x : Vec α) : Except (ModelError α) Unit :=
  ModelError.check [⟨.state, s.nx, x.size⟩]

section Scalar

variable [Scalar α]

def neutral (m : Model α) : Vec α :=
  m.joints.foldl (fun q j => q.place j.idxQ j.kind.neutral) (Vec.zeros m.nq)

def zero (s : Multibody α) : Vec α := (Vec.zeros s.nx).place 0 (neutral s.model)

def configuration (s : Multibody α) (x : Vec α) : Vec α := x.slice 0 s.nq

def velocity (s : Multibody α) (x : Vec α) : Vec α := x.slice s.nq s.nv

def split (s : Multibody α) (x : Vec α) : Except (ModelError α) (Vec α × Vec α) := do
  s.checkState x
  return (s.configuration x, s.velocity x)

end Scalar

section Elementary

variable [Elementary α]

/-- The tangents of all joints, written over `out` at their offsets. -/
def placeDiffs (s : Multibody α) (x0 x1 out : Vec α) : Vec α :=
  s.model.joints.foldl (fun dx j => dx.place j.idxV
    (j.kind.diff (x0.slice j.idxQ j.kind.nq) (x1.slice j.idxQ j.kind.nq))) out

/-- The increments of all joints, written over `out` at their offsets. -/
def placeIncrements (s : Multibody α) (x dx out : Vec α) : Vec α :=
  s.model.joints.foldl (fun y j => y.place j.idxQ
    (j.kind.integrate (x.slice j.idxQ j.kind.nq) (dx.slice j.idxV j.kind.nv))) out

/-- The tangent vector from `x0` to `x1`. -/
def diff (s : Multibody α) (x0 x1 : Vec α) : Except (ModelError α) (Vec α) := do
  s.checkState x0
  s.checkState x1
  let dv := (s.velocity x1).sub (s.velocity x0)
  return (s.placeDiffs x0 x1 (Vec.zeros s.ndx)).place s.nv dv

def checkStep (s : Multibody α) (x dx : Vec α) : Except (ModelError α) Unit :=
  ModelError.check [⟨.state, s.nx, x.size⟩, ⟨.tangent, s.ndx, dx.size⟩]

/-- The state reached from `x` along `dx`. -/
def integrate (s : Multibody α) (x dx : Vec α) : Except (ModelError α) (Vec α) := do
  s.checkStep x dx
  let v := (s.velocity x).add (dx.slice s.nv s.nv)
  return (s.placeIncrements x dx (Vec.zeros s.nx)).place s.nq v

/-- The identity times `sign`, with the blocks of the joints that have one on its diagonal. -/
def blockJacobian (s : Multibody α) (sign : α) (blocks : JointKind.Blocks α) (d : Vec α) : Mat α :=
  s.model.joints.foldl (fun jac j =>
    match j.kind.block? blocks (d.slice j.idxV j.kind.nv) with
    | some b => jac.place j.idxV j.idxV b
    | none => jac) ((Mat.identity s.ndx).scale sign)

def diffFirst : JointKind.Blocks α where
  rotation d := -Rotation.inverseJacobian d * (Rotation.exp d).toMat3.transpose
  placement d := -Placement.inverseJacobian d * (Placement.exp d).inverse.adjoint

def diffSecond : JointKind.Blocks α where
  rotation := Rotation.inverseJacobian
  placement := Placement.inverseJacobian

def integrateFirst : JointKind.Blocks α where
  rotation d := (Rotation.exp d).toMat3.transpose
  placement d := (Placement.exp d).inverse.adjoint

def integrateSecond : JointKind.Blocks α where
  rotation := Rotation.jacobian
  placement := Placement.jacobian

/-- The derivatives of `diff`; they depend on the difference only. -/
def jdiff (s : Multibody α) (x0 x1 : Vec α) (wanted : Wanted) :
    Except (ModelError α) (Jacobians α) := do
  let dx ← s.diff x0 x1
  return .select wanted (s.blockJacobian (-1) diffFirst dx) (s.blockJacobian 1 diffSecond dx)

def jintegrate (s : Multibody α) (x dx : Vec α) (wanted : Wanted) :
    Except (ModelError α) (Jacobians α) := do
  s.checkStep x dx
  return .select wanted (s.blockJacobian 1 integrateFirst dx)
    (s.blockJacobian 1 integrateSecond dx)

end Elementary

section Sampled

variable [Sampled α]

/-- A random configuration of a joint, its Euclidean coordinates within the joint's limits. -/
def randomJoint (j : Joint α) : Sampler (Vec α) := do
  match j.kind with
  | .revolute => return #[← Sampler.closed j.lower j.upper]
  | .prismatic => return #[← Sampler.closed j.lower j.upper]
  | .spherical => return (← Sampler.rotation).toVec
  | .freeFlyer =>
    let x ← Sampler.closed j.lower j.upper
    let y ← Sampler.closed j.lower j.upper
    let z ← Sampler.closed j.lower j.upper
    let q ← Sampler.rotation
    return (⟨⟨x, y, z⟩, q⟩ : Placement α).toVec

def placeRandom : List (Joint α) → Vec α → Sampler (Vec α)
  | [], x => return x
  | j :: js, x => do placeRandom js (x.place j.idxQ (← randomJoint j))

/-- A random state: joints within their limits, then velocities in `[-1, 1]`. -/
def random (s : Multibody α) : Sampler (Vec α) := do
  let x ← placeRandom s.model.joints (Vec.zeros s.nx)
  let v ← Sampler.replicate s.nv (Sampler.closed (-1) 1)
  return x.place s.nq v.toArray

end Sampled

end Multibody

end MultibodyCost
