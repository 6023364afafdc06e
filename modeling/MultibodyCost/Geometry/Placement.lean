import MultibodyCost.Geometry.Motion
import MultibodyCost.Geometry.Rotation

/-!
# Rigid placements

A placement is a rotation followed by a translation. This module gives the group operations, the
exponential and logarithm between motions and placements, their right Jacobians, and the adjoint,
the action of a placement on motions: `m * exp δ * m.inverse` is `exp (adjoint m δ)`.

Both Jacobians are block upper triangular: the two diagonal blocks are those of the rotation group,
and the upper right block couples the translation to the rotation.
-/

namespace MultibodyCost

@[ext] structure Placement (α : Type) where
  translation : Vec3 α
  rotation : Quaternion α

namespace Placement

variable {α : Type}

section Scalar

variable [Scalar α]

def one : Placement α := ⟨.zero, .one⟩

instance : Mul (Placement α) := ⟨fun a b =>
  ⟨a.translation + a.rotation.rotate b.translation, a.rotation * b.rotation⟩⟩

theorem mul_eq (a b : Placement α) : a * b =
    ⟨a.translation + a.rotation.rotate b.translation, a.rotation * b.rotation⟩ := rfl

def inverse (m : Placement α) : Placement α :=
  ⟨m.rotation.inverse.rotate (-m.translation), m.rotation.inverse⟩

def adjoint (m : Placement α) : Mat6 α :=
  let r := m.rotation.toMat3
  ⟨r, Mat3.skew m.translation * r, .zero, r⟩

end Scalar

/-- The layout of a free-flying joint: translation, then quaternion. -/
def toVec (m : Placement α) : Vec α :=
  #[m.translation.x, m.translation.y, m.translation.z,
    m.rotation.x, m.rotation.y, m.rotation.z, m.rotation.w]

@[simp] theorem size_toVec (m : Placement α) : m.toVec.size = 7 := rfl

section Elementary

variable [Elementary α]

def ofVec (v : Vec α) (i : Nat) : Placement α := ⟨Vec3.ofVec v i, Quaternion.ofVec v (i + 3)⟩

/-- The placement reached along the motion `ν` in unit time. -/
def exp (ν : Motion α) : Placement α :=
  ⟨(Rotation.leftJacobian ν.angular).apply ν.linear, Rotation.exp ν.angular⟩

def log (m : Placement α) : Motion α :=
  let φ := Rotation.log m.rotation
  ⟨(Rotation.inverseLeftJacobian φ).apply m.translation, φ⟩

/-- The block of the right Jacobian that couples the translation `ρ` to the rotation `φ`. -/
def coupling (ρ φ : Vec3 α) : Mat3 α :=
  let (c1, c2, c3) := Coefficient.coupling φ.norm
  let p := Mat3.skew φ
  let r := Mat3.skew ρ
  let pr := p * r
  let rp := r * p
  let prp := pr * p
  r.scale (-0.5) + (pr + rp - prp).scale c1 - (p * pr + rp * p - prp.scale 3.0).scale c2
    + (prp * p + p * prp).scale c3

def jacobian (ν : Motion α) : Mat6 α :=
  let j := Rotation.jacobian ν.angular
  ⟨j, coupling ν.linear ν.angular, .zero, j⟩

/-- The inverse of `jacobian`: the right Jacobian of the logarithm at the motion `ν`. -/
def inverseJacobian (ν : Motion α) : Mat6 α :=
  let j := Rotation.inverseJacobian ν.angular
  ⟨j, -j * coupling ν.linear ν.angular * j, .zero, j⟩

end Elementary

end Placement

end MultibodyCost
