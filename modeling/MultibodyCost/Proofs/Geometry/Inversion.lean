import MultibodyCost.Proofs.Geometry.Flow

/-! # Exponentials and logarithms of inverses

The way back along a motion is the way along its opposite. So the logarithm of an inverse is the
opposite of the logarithm: for rotations always, because the conjugate of a quaternion has its scalar
part and so the same choice of the shorter way; for placements where the exponential is in closed
form, up to and including half a turn, where the logarithm depends on the sign of the quaternion.
-/

namespace MultibodyCost

namespace Motion

theorem scale_zero (ν : Motion ℝ) : ν.scale 0 = zero :=
  Motion.ext (zero_smul ℝ ν.linear) (zero_smul ℝ ν.angular)

theorem scale_one (ν : Motion ℝ) : ν.scale 1 = ν :=
  Motion.ext (one_smul ℝ ν.linear) (one_smul ℝ ν.angular)

theorem scale_neg_one (ν : Motion ℝ) : ν.scale (-1) = -ν :=
  Motion.ext (neg_one_smul ℝ ν.linear) (neg_one_smul ℝ ν.angular)

end Motion

namespace Quaternion

theorem inverse_relative (p q : Quaternion ℝ) : (p.inverse * q).inverse = q.inverse * p := by
  rw [inverse_mul, inverse_inverse]

theorem neg_inverse_rotate (q : Quaternion ℝ) (v : Vec3 ℝ) :
    (-q).inverse.rotate v = q.inverse.rotate v := by
  have hVector : (-q).vector = -q.vector := rfl
  have hScalar : (-q).w = -q.w := rfl
  rw [inverse_rotate, inverse_rotate, hVector, hScalar, Vec3.turn_neg_axis, mul_neg, neg_neg]

end Quaternion

theorem Rotation.log_inverse (q : Quaternion ℝ) : log q.inverse = -log q := by
  have hVector : q.inverse.vector = -q.vector := rfl
  have hScalar : q.inverse.w = q.w := rfl
  have hOpposite : (if 0 ≤ q.w then -q.vector else - -q.vector) =
      -(if 0 ≤ q.w then q.vector else -q.vector) := by
    split
    · rfl
    · rfl
  unfold log
  dsimp only
  rw [hVector, hScalar, hOpposite, Vec3.norm_neg]
  generalize (if 0 ≤ q.w then q.vector else -q.vector) = v
  rw [Vec3.normSq_neg]
  split
  · simp only [Vec3.unscale_eq_scale, Vec3.scale_eq_smul, smul_neg]
  · exact neg_zero.symm

namespace Placement

open Rotation

theorem inverse_relative {m n : Placement ℝ} (hm : m.rotation.normSq = 1)
    (hn : n.rotation.normSq = 1) : (m.inverse * n).inverse = n.inverse * m := by
  have hInverse : m.inverse.rotation.normSq = 1 := (Quaternion.normSq_inverse _).trans hm
  have hRelative : (m.inverse * n).rotation.normSq = 1 := Quaternion.normSq_relative hm hn
  -- The right side undoes what the left side does.
  have hOne : m.inverse * n * (n.inverse * m) = one := by
    rw [Placement.mul_assoc hInverse hn, mul_inverse_cancel hn, inverse_mul_self hm]
  have hCancel := inverse_mul_cancel hRelative (n.inverse * m)
  rwa [hOne, Placement.mul_one] at hCancel

theorem exp_zero : exp (.zero : Motion ℝ) = one := by
  apply Placement.ext
  · exact Mat3.apply_zero _
  · exact Rotation.exp_zero

theorem exp_neg {ν : Motion ℝ} (h : ν.angular.norm = 0 ∨ 1e-4 ≤ ν.angular.norm) :
    exp (-ν) = (exp ν).inverse := by
  have hForth : Discerned ν.angular 1 := by
    rwa [Discerned, Vec3.scale_eq_smul, one_smul]
  have hBack : Discerned ν.angular (-1) := by
    rwa [Discerned, Vec3.scale_eq_smul, neg_one_smul, Vec3.norm_neg]
  have hStay : Discerned ν.angular (1 + -1) := by
    rw [Discerned, add_neg_cancel, Vec3.scale_eq_smul, zero_smul]
    exact .inl (Vec3.norm_eq_zero_iff.mpr rfl)
  have hOne : exp ν * exp (-ν) = one := by
    have hProduct := exp_scale_mul hForth hBack hStay
    rwa [add_neg_cancel, Motion.scale_one, Motion.scale_neg_one, Motion.scale_zero, exp_zero]
      at hProduct
  have hCancel := inverse_mul_cancel (m := exp ν) (Rotation.normSq_exp ν.angular) (exp (-ν))
  rw [← hCancel, hOne, Placement.mul_one]

theorem log_inverse {m : Placement ℝ} (hm : m.rotation.normSq = 1)
    (h : (Rotation.log m.rotation).norm = 0 ∨ 1e-4 ≤ (Rotation.log m.rotation).norm) :
    log m.inverse = -log m := by
  have hPi : (Rotation.log m.rotation).norm ≤ Real.pi := norm_log_le_pi hm
  have hNorm : (-Rotation.log m.rotation).norm = (Rotation.log m.rotation).norm := Vec3.norm_neg _
  -- The way back ends at the translation of the inverse, whatever the sign of the quaternion.
  have hEnd : (exp (-log m)).translation = m.inverse.translation := by
    rw [exp_neg h]
    change (Rotation.exp (Rotation.log m.rotation)).inverse.rotate (-(exp (log m)).translation) =
      m.rotation.inverse.rotate (-m.translation)
    rw [translation_exp_log hm h]
    rcases exp_log hm (above_cutoff h) with hSame | hOpposite
    · rw [hSame]
    · rw [hOpposite, Quaternion.neg_inverse_rotate]
  have hAngular : Rotation.log m.inverse.rotation = -Rotation.log m.rotation :=
    Rotation.log_inverse m.rotation
  apply Motion.ext
  · change (inverseLeftJacobian (Rotation.log m.inverse.rotation)).apply m.inverse.translation = _
    rw [hAngular, ← hEnd]
    exact (leftJacobian_cancel (by rwa [hNorm]) (by rwa [hNorm]) _).1
  · exact hAngular

end Placement

end MultibodyCost
