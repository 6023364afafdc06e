import MultibodyCost.Geometry.Coefficient
import MultibodyCost.Geometry.Quaternion

/-!
# The rotation group

Exponential and logarithm between rotation vectors and unit quaternions, and the Jacobians of
both. Perturbations act on the right: `exp (w + δ)` is `exp w * exp (jacobian w δ)` to first order,
and `log (q * exp δ)` is `log q + inverseJacobian (log q) δ`.

The logarithm is the shortest rotation vector and does not depend on the sign of the quaternion,
the half turn apart. The exponential has a cut-off: a vector of length at most `2 ^ (-51)` is no
rotation at all.
-/

namespace MultibodyCost.Rotation

variable {α : Type} [Elementary α]

open Elementary Mat3

/-- The square of `2 ^ (-52)`: half vectors whose squared length is no more exponentiate to the
identity. -/
def cutoffSq : α :=
  let unit : α := 1 / 4503599627370496.0
  unit * unit

def exp (w : Vec3 α) : Quaternion α :=
  let h := w.unscale 2.0
  if h.normSq ≤ cutoffSq then .one
  else
    let n := sqrt h.normSq
    let v := h.scale (sin n / n)
    ⟨v.x, v.y, v.z, cos n⟩

def log (q : Quaternion α) : Vec3 α :=
  let v := if 0 ≤ q.w then q.vector else -q.vector
  if 0 < v.normSq then
    (v.unscale (sqrt v.normSq)).scale (atan2 q.vector.norm (Scalar.abs q.w) * 2.0)
  else .zero

def jacobian (w : Vec3 α) : Mat3 α :=
  let (a, b) := Coefficient.exp w.norm
  identity - (skew w).scale a + (skew w * skew w).scale b

/-- The inverse of `jacobian`: the right Jacobian of the logarithm at rotation vector `w`. -/
def inverseJacobian (w : Vec3 α) : Mat3 α :=
  let (a, b) := Coefficient.log w.norm
  identity.scale a + (skew w).scale 0.5 + (outer w w).scale b

def leftJacobian (w : Vec3 α) : Mat3 α :=
  let (a, b) := Coefficient.exp w.norm
  identity + (skew w).scale a + (skew w * skew w).scale b

def inverseLeftJacobian (w : Vec3 α) : Mat3 α :=
  identity - (skew w).scale 0.5 + (skew w * skew w).scale (Coefficient.inverseLeft w.norm)

end MultibodyCost.Rotation
