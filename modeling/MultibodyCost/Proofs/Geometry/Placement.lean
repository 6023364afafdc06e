import MultibodyCost.Geometry.Placement
import MultibodyCost.Proofs.Geometry.Matrix
import MultibodyCost.Proofs.Geometry.Rotation

/-! # Exponential and logarithm of placements

Placements whose rotation has norm one form a group, with `inverse` as its inverse. Exponential and
logarithm undo each other where they do for the rotation and where the operators between the linear
part of a motion and the translation are inverse to each other. On motions a placement acts by its
adjoint.
-/

namespace MultibodyCost.Placement

theorem inverse_mul_cancel {m : Placement ℝ} (h : m.rotation.normSq = 1) (n : Placement ℝ) :
    m.inverse * (m * n) = n := by
  apply Placement.ext
  · simp only [mul_eq, inverse]
    rw [← Quaternion.rotate_add, neg_add_cancel_left, Quaternion.inverse_rotate_cancel h]
  · exact Quaternion.inverse_mul_cancel h n.rotation

theorem mul_inverse_cancel {m : Placement ℝ} (h : m.rotation.normSq = 1) (n : Placement ℝ) :
    m * (m.inverse * n) = n := by
  apply Placement.ext
  · simp only [mul_eq, inverse]
    rw [Quaternion.rotate_add, Quaternion.rotate_inverse_cancel h,
      Quaternion.rotate_inverse_cancel h, add_neg_cancel_left]
  · exact Quaternion.mul_inverse_cancel h n.rotation

protected theorem mul_assoc {l m : Placement ℝ} (hl : l.rotation.normSq = 1)
    (hm : m.rotation.normSq = 1) (n : Placement ℝ) : l * m * n = l * (m * n) := by
  apply Placement.ext
  · simp only [mul_eq]
    rw [Quaternion.rotate_add, Quaternion.rotate_mul hl hm, add_assoc]
  · exact mul_assoc l.rotation m.rotation n.rotation

protected theorem mul_one (m : Placement ℝ) : m * one = m := by
  apply Placement.ext
  · change m.translation + m.rotation.rotate .zero = m.translation
    rw [Quaternion.rotate_zero, Vec3.zero_eq, add_zero]
  · exact mul_one m.rotation

theorem inverse_mul_self {m : Placement ℝ} (h : m.rotation.normSq = 1) : m.inverse * m = one := by
  have hCancel := inverse_mul_cancel h one
  rwa [Placement.mul_one] at hCancel

theorem log_exp {ν : Motion ℝ} (h : ν.angular.norm = 0 ∨ 1e-4 ≤ ν.angular.norm)
    (hPi : ν.angular.norm ≤ Real.pi) : log (exp ν) = ν := by
  have hAngular : Rotation.log (Rotation.exp ν.angular) = ν.angular :=
    Rotation.log_exp (Rotation.above_cutoff h) hPi
  apply Motion.ext
  · simp only [log, exp, hAngular]
    exact (Rotation.leftJacobian_cancel h hPi ν.linear).1
  · exact hAngular

theorem translation_exp_log {m : Placement ℝ} (hUnit : m.rotation.normSq = 1)
    (h : (Rotation.log m.rotation).norm = 0 ∨ 1e-4 ≤ (Rotation.log m.rotation).norm) :
    (exp (log m)).translation = m.translation :=
  (Rotation.leftJacobian_cancel h (Rotation.norm_log_le_pi hUnit) m.translation).2

/-- Going from `m` along the motion to `n` ends at `n`, up to the sign of the quaternion. -/
theorem mul_exp_log {m n : Placement ℝ} (hm : m.rotation.normSq = 1) (hn : n.rotation.normSq = 1)
    (h : (Rotation.log (m.inverse * n).rotation).norm = 0 ∨
      1e-4 ≤ (Rotation.log (m.inverse * n).rotation).norm) :
    (m * exp (log (m.inverse * n))).translation = n.translation ∧
      ((m * exp (log (m.inverse * n))).rotation = n.rotation ∨
        (m * exp (log (m.inverse * n))).rotation = -n.rotation) := by
  constructor
  · have hRelative : (m.inverse * n).rotation.normSq = 1 := Quaternion.normSq_relative hm hn
    calc (m * exp (log (m.inverse * n))).translation
        = m.translation + m.rotation.rotate (exp (log (m.inverse * n))).translation := rfl
      _ = m.translation + m.rotation.rotate (m.inverse * n).translation := by
          rw [translation_exp_log hRelative h]
      _ = n.translation := congrArg translation (mul_inverse_cancel hm n)
  · exact Rotation.mul_exp_log hm hn (Rotation.above_cutoff h)

theorem adjoint_apply {m : Placement ℝ} (h : m.rotation.normSq = 1) (ν : Motion ℝ) :
    m.adjoint.apply ν =
      ⟨m.rotation.rotate ν.linear + m.translation.cross (m.rotation.rotate ν.angular),
        m.rotation.rotate ν.angular⟩ := by
  simp only [adjoint, Mat6.apply, Mat3.apply_mul, Mat3.apply_skew, Quaternion.toMat3_apply h,
    Mat3.zero_apply, zero_add]

end MultibodyCost.Placement
