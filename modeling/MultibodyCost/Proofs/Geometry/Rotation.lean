import MultibodyCost.Geometry.Rotation
import MultibodyCost.Proofs.Geometry.Quaternion

/-! # Exponential and logarithm of rotations

A quaternion of norm one with a vector part that is not zero is, up to its sign, `polar a t`: the
rotation about a unit axis `a` by twice the angle `t`, with `t` at most a quarter turn. On this form
exponential and logarithm are plain: one makes it of the rotation vector `a * 2t`, the other gives
that vector back. So they undo each other up to half a turn, beyond the cut-off of the exponential,
and up to the sign of the quaternion.

The Jacobians from the left are polynomials in the cross product with the rotation vector; with
coefficients in closed form, or at the zero vector, they are inverse to each other.
-/

namespace MultibodyCost

open Elementary

namespace Rotation

/-- The rotation about the unit axis `a` by twice the angle `t`. -/
def polar {α : Type} [Elementary α] (a : Vec3 α) (t : α) : Quaternion α :=
  ⟨a.x * sin t, a.y * sin t, a.z * sin t, cos t⟩

theorem vector_polar (a : Vec3 ℝ) (t : ℝ) : (polar a t).vector = a.scale (Real.sin t) := rfl

theorem normSq_polar {a : Vec3 ℝ} (ha : a.normSq = 1) (t : ℝ) : (polar a t).normSq = 1 := by
  rw [Quaternion.normSq_eq, vector_polar, Vec3.normSq_scale, ha, mul_one]
  change Real.sin t * Real.sin t + Real.cos t * Real.cos t = 1
  rw [← sq, ← sq]
  exact Real.sin_sq_add_cos_sq t

theorem polar_rotate (a : Vec3 ℝ) (t : ℝ) (v : Vec3 ℝ) :
    (polar a t).rotate v = Vec3.turn (Real.sin (2 * t)) (1 - Real.cos (2 * t)) a v := by
  have hCos : 1 - Real.cos (2 * t) = 2 * (Real.sin t * Real.sin t) := by
    rw [Real.cos_two_mul']
    linear_combination -Real.sin_sq_add_cos_sq t
  rw [Quaternion.rotate_eq_turn, vector_polar, Vec3.turn_scale_axis, hCos, Real.sin_two_mul]
  congr 1
  change 2 * Real.cos t * Real.sin t = _
  ring

theorem exists_axis {w : Vec3 ℝ} (h : w ≠ .zero) :
    ∃ a : Vec3 ℝ, a.normSq = 1 ∧ w = a.scale w.norm := by
  have hNorm : w.norm ≠ 0 := fun hZero => h (Vec3.norm_eq_zero_iff.mp hZero)
  refine ⟨w.scale w.norm⁻¹, ?_, ?_⟩
  · rw [Vec3.normSq_scale, ← Vec3.norm_mul_norm]
    field_simp
  · rw [Vec3.scale_scale, inv_mul_cancel₀ hNorm, Vec3.scale_eq_smul, one_smul]

theorem norm_scale_axis {a : Vec3 ℝ} (ha : a.normSq = 1) {t : ℝ} (ht : 0 ≤ t) :
    (a.scale t).norm = t := by
  rw [Vec3.norm_scale_unit ha, abs_of_nonneg ht]

/-- Half the angle of a rotation, read off its scalar part. -/
noncomputable def halfAngle (q : Quaternion ℝ) : ℝ := Real.arccos |q.w|

theorem cos_halfAngle {q : Quaternion ℝ} (h : q.normSq = 1) : Real.cos (halfAngle q) = |q.w| := by
  rw [Quaternion.normSq_eq] at h
  have hSq : |q.w| * |q.w| ≤ 1 := by
    rw [abs_mul_abs_self]
    linarith [q.vector.normSq_nonneg]
  have hLe : |q.w| ≤ 1 := abs_le_one_iff_mul_self_le_one.mpr (by rwa [abs_mul_abs_self] at hSq)
  exact Real.cos_arccos (by linarith [abs_nonneg q.w]) hLe

theorem sin_halfAngle {q : Quaternion ℝ} (h : q.normSq = 1) :
    Real.sin (halfAngle q) = q.vector.norm := by
  have hCos := cos_halfAngle h
  have hNonneg : 0 ≤ Real.sin (halfAngle q) :=
    Real.sin_nonneg_of_nonneg_of_le_pi (Real.arccos_nonneg _) (Real.arccos_le_pi _)
  apply (Vec3.norm_eq_of_normSq hNonneg ?_).symm
  have hSum := Real.sin_sq_add_cos_sq (halfAngle q)
  rw [hCos, sq_abs] at hSum
  rw [Quaternion.normSq_eq] at h
  linarith

theorem halfAngle_le (q : Quaternion ℝ) : halfAngle q ≤ Real.pi / 2 :=
  Real.arccos_le_pi_div_two.mpr (abs_nonneg q.w)

/-- A rotation that is not the identity has an axis; its angle is less than half a turn where the
quaternion has the other sign. -/
theorem exists_polar {q : Quaternion ℝ} (h : q.normSq = 1) (hVector : q.vector ≠ .zero) :
    ∃ a : Vec3 ℝ, a.normSq = 1 ∧ 0 < halfAngle q ∧
      (q = polar a (halfAngle q) ∨ halfAngle q < Real.pi / 2 ∧ q = -polar a (halfAngle q)) := by
  have hCos := cos_halfAngle h
  have hSin := sin_halfAngle h
  have hPos : 0 < halfAngle q := by
    refine lt_of_le_of_ne (Real.arccos_nonneg _) fun hZero => hVector ?_
    rw [← hZero, Real.sin_zero] at hSin
    exact Vec3.norm_eq_zero_iff.mp hSin.symm
  obtain ⟨a, ha, hAxis⟩ := exists_axis hVector
  rw [← hSin] at hAxis
  -- A negative scalar part makes `-q` the polar form, about the opposite axis.
  by_cases hw : 0 ≤ q.w
  · refine ⟨a, ha, hPos, .inl ?_⟩
    rw [abs_of_nonneg hw] at hCos
    obtain ⟨hx, hy, hz⟩ := Vec3.mk.inj hAxis
    exact Quaternion.ext hx hy hz hCos.symm
  · refine ⟨a.scale (-1), ?_, hPos, .inr ⟨?_, ?_⟩⟩
    · rw [Vec3.normSq_scale, ha]
      norm_num
    · refine lt_of_le_of_ne (halfAngle_le q) fun hHalf => hw ?_
      rw [hHalf, Real.cos_pi_div_two] at hCos
      rw [abs_eq_zero.mp hCos.symm]
    · rw [abs_of_neg (not_le.mp hw)] at hCos
      obtain ⟨hx, hy, hz⟩ := Vec3.mk.inj hAxis
      apply Quaternion.ext
      · change q.x = -(a.x * -1 * Real.sin (halfAngle q))
        linarith
      · change q.y = -(a.y * -1 * Real.sin (halfAngle q))
        linarith
      · change q.z = -(a.z * -1 * Real.sin (halfAngle q))
        linarith
      · change q.w = -Real.cos (halfAngle q)
        linarith

theorem cutoffSq_real : (cutoffSq : ℝ) = 0.5 ^ 52 * 0.5 ^ 52 := by
  unfold cutoffSq
  norm_num

theorem unscale_two (a : Vec3 ℝ) (t : ℝ) : (a.scale (2 * t)).unscale 2.0 = a.scale t := by
  have hTwo : (2.0 : ℝ) = 2 := by norm_num
  rw [Vec3.unscale_eq_scale, Vec3.scale_scale, hTwo]
  congr 1
  ring

theorem exp_zero : exp (.zero : Vec3 ℝ) = .one := by
  unfold exp
  rw [if_pos]
  rw [cutoffSq_real]
  simp only [Vec3.unscale, Vec3.zero, Vec3.normSq, Vec3.dot]
  norm_num

theorem exp_axis {a : Vec3 ℝ} (ha : a.normSq = 1) {t : ℝ} (ht : 0.5 ^ 52 < t) :
    exp (a.scale (2 * t)) = polar a t := by
  have hPos : 0 < t := lt_trans (by norm_num) ht
  have hSq : (a.scale t).normSq = t * t := by
    rw [Vec3.normSq_scale, ha, mul_one]
  have hAbove : ¬ t * t ≤ (cutoffSq : ℝ) := by
    rw [cutoffSq_real, not_le]
    exact mul_lt_mul'' ht ht (by norm_num) (by norm_num)
  have hRoot : Elementary.sqrt (t * t) = t := Real.sqrt_mul_self hPos.le
  unfold exp
  dsimp only
  rw [unscale_two, hSq, if_neg hAbove, hRoot, Vec3.scale_scale, mul_div_cancel₀ _ hPos.ne']
  rfl

theorem exp_of_short {w : Vec3 ℝ} (h : w.norm / 2 ≤ 0.5 ^ 52) : exp w = .one := by
  have hTwo : (2.0 : ℝ) = 2 := by norm_num
  have hSq : (w.unscale 2.0).normSq = w.norm / 2 * (w.norm / 2) := by
    rw [Vec3.unscale_eq_scale, Vec3.normSq_scale, ← Vec3.norm_mul_norm, hTwo]
    ring
  have hHalf : 0 ≤ w.norm / 2 := div_nonneg w.norm_nonneg zero_le_two
  unfold exp
  rw [if_pos]
  rw [hSq, cutoffSq_real]
  exact mul_le_mul h h hHalf (by norm_num)

/-- A rotation vector is short enough to be cut off, or it is taken about an axis. -/
theorem exp_cases (w : Vec3 ℝ) :
    exp w = .one ∨ ∃ a : Vec3 ℝ, a.normSq = 1 ∧ exp w = polar a (w.norm / 2) := by
  by_cases hNorm : 0.5 ^ 52 < w.norm / 2
  · have hZero : w ≠ .zero := by
      rintro rfl
      rw [Vec3.norm_eq_zero_iff.mpr rfl] at hNorm
      norm_num at hNorm
    obtain ⟨a, ha, hAxis⟩ := exists_axis hZero
    refine .inr ⟨a, ha, ?_⟩
    rw [← exp_axis ha hNorm, mul_div_cancel₀ _ two_ne_zero, ← hAxis]
  · exact .inl (exp_of_short (not_lt.mp hNorm))

theorem normSq_exp (w : Vec3 ℝ) : (exp w).normSq = 1 := by
  rcases exp_cases w with hOne | ⟨a, ha, hPolar⟩
  · rw [hOne]
    simp [Quaternion.one, Quaternion.normSq]
  · rw [hPolar]
    exact normSq_polar ha _

theorem log_of_vector {q : Quaternion ℝ} {a : Vec3 ℝ} (ha : a.normSq = 1) {t : ℝ} (ht : 0 < t)
    (hHalf : t ≤ Real.pi / 2) (hAbs : |q.w| = Real.cos t) (hNorm : q.vector.norm = Real.sin t)
    (hVector : (if 0 ≤ q.w then q.vector else -q.vector) = a.scale (Real.sin t)) :
    log q = a.scale (2 * t) := by
  have hSin : 0 < Real.sin t := Real.sin_pos_of_pos_of_lt_pi ht (by linarith [Real.pi_pos])
  have hSq : (a.scale (Real.sin t)).normSq = Real.sin t * Real.sin t := by
    rw [Vec3.normSq_scale, ha, mul_one]
  have hRoot : Elementary.sqrt (Real.sin t * Real.sin t) = Real.sin t :=
    Real.sqrt_mul_self hSin.le
  have hAngle : Elementary.atan2 (Real.sin t) (Real.cos t) = t :=
    atan2_sin_cos ⟨by linarith [Real.pi_pos], by linarith [Real.pi_pos]⟩
  have hTwo : (2.0 : ℝ) = 2 := by norm_num
  unfold log
  dsimp only
  rw [hVector, hSq, if_pos (mul_pos hSin hSin), hRoot, hNorm, Scalar.abs_real, hAbs, hAngle, hTwo,
    Vec3.unscale_eq_scale, Vec3.scale_scale, Vec3.scale_scale, mul_inv_cancel_left₀ hSin.ne',
    mul_comm]

theorem norm_vector_polar {a : Vec3 ℝ} (ha : a.normSq = 1) {t : ℝ} (ht : 0 < t)
    (hHalf : t ≤ Real.pi / 2) : (polar a t).vector.norm = Real.sin t :=
  norm_scale_axis ha (Real.sin_nonneg_of_nonneg_of_le_pi ht.le (by linarith [Real.pi_pos]))

theorem log_polar {a : Vec3 ℝ} (ha : a.normSq = 1) {t : ℝ} (ht : 0 < t) (hHalf : t ≤ Real.pi / 2) :
    log (polar a t) = a.scale (2 * t) := by
  have hCos : 0 ≤ (polar a t).w := Real.cos_nonneg_of_mem_Icc ⟨by linarith, hHalf⟩
  apply log_of_vector ha ht hHalf (abs_of_nonneg hCos) (norm_vector_polar ha ht hHalf)
  rw [if_pos hCos, vector_polar]

theorem log_neg_polar {a : Vec3 ℝ} (ha : a.normSq = 1) {t : ℝ} (ht : 0 < t)
    (hHalf : t < Real.pi / 2) : log (-polar a t) = a.scale (2 * t) := by
  have hCos : 0 < Real.cos t := Real.cos_pos_of_mem_Ioo ⟨by linarith, hHalf⟩
  have hNeg : (-polar a t).w < 0 := neg_neg_of_pos hCos
  have hNorm : (-polar a t).vector.norm = (polar a t).vector.norm := by
    apply Vec3.norm_eq_of_normSq (Vec3.norm_nonneg _)
    rw [Vec3.norm_mul_norm]
    exact Vec3.normSq_neg (polar a t).vector
  apply log_of_vector ha ht hHalf.le
  · rw [abs_of_neg hNeg]
    exact neg_neg (Real.cos t)
  · rw [hNorm, norm_vector_polar ha ht hHalf.le]
  · rw [if_neg (not_le.mpr hNeg), ← vector_polar]
    apply Vec3.ext
    · exact neg_neg (polar a t).x
    · exact neg_neg (polar a t).y
    · exact neg_neg (polar a t).z

theorem log_of_vector_zero {q : Quaternion ℝ} (h : q.vector = .zero) : log q = .zero := by
  have hNone : (if 0 ≤ q.w then q.vector else -q.vector).normSq = 0 := by
    split
    · rw [h, Vec3.normSq_eq_zero_iff.mpr rfl]
    · rw [Vec3.normSq_neg, h, Vec3.normSq_eq_zero_iff.mpr rfl]
  unfold log
  rw [if_neg]
  rw [hNone]
  exact lt_irrefl 0

theorem above_cutoff {θ : ℝ} (h : θ = 0 ∨ 1e-4 ≤ θ) : θ = 0 ∨ 0.5 ^ 51 < θ :=
  h.imp_right fun hLarge => lt_of_lt_of_le (by norm_num) hLarge

theorem log_exp {w : Vec3 ℝ} (h : w.norm = 0 ∨ 0.5 ^ 51 < w.norm) (hPi : w.norm ≤ Real.pi) :
    log (exp w) = w := by
  by_cases hZero : w = .zero
  · rw [hZero, exp_zero]
    exact log_of_vector_zero rfl
  · have hLong : 0.5 ^ 51 < w.norm := h.resolve_left (mt Vec3.norm_eq_zero_iff.mp hZero)
    have hHalf : (0.5 : ℝ) ^ 52 < w.norm / 2 := by
      rw [pow_succ]
      linarith
    obtain ⟨a, ha, hAxis⟩ := exists_axis hZero
    have hTwice : a.scale (2 * (w.norm / 2)) = w := by
      rw [mul_div_cancel₀ _ two_ne_zero, ← hAxis]
    calc log (exp w) = log (exp (a.scale (2 * (w.norm / 2)))) := by rw [hTwice]
      _ = log (polar a (w.norm / 2)) := by rw [exp_axis ha hHalf]
      _ = a.scale (2 * (w.norm / 2)) :=
        log_polar ha (lt_trans (by norm_num) hHalf) (by linarith)
      _ = w := hTwice

theorem exists_axis_log {q : Quaternion ℝ} (h : q.normSq = 1) (hVector : q.vector ≠ .zero) :
    ∃ a : Vec3 ℝ, a.normSq = 1 ∧ 0 < halfAngle q ∧ log q = a.scale (2 * halfAngle q) ∧
      (q = polar a (halfAngle q) ∨ q = -polar a (halfAngle q)) := by
  obtain ⟨a, ha, hPos, hPolar | ⟨hLess, hPolar⟩⟩ := exists_polar h hVector
  · refine ⟨a, ha, hPos, ?_, .inl hPolar⟩
    conv_lhs => rw [hPolar]
    exact log_polar ha hPos (halfAngle_le q)
  · refine ⟨a, ha, hPos, ?_, .inr hPolar⟩
    conv_lhs => rw [hPolar]
    exact log_neg_polar ha hPos hLess

theorem w_of_vector_zero {q : Quaternion ℝ} (h : q.normSq = 1) (hVector : q.vector = .zero) :
    q.w = 1 ∨ q.w = -1 := by
  rw [Quaternion.normSq_eq, hVector, Vec3.normSq_eq_zero_iff.mpr rfl, zero_add] at h
  exact mul_self_eq_one_iff.mp h

theorem norm_log {q : Quaternion ℝ} (h : q.normSq = 1) : (log q).norm = 2 * halfAngle q := by
  by_cases hVector : q.vector = .zero
  · have hAngle : halfAngle q = 0 := by
      rcases w_of_vector_zero h hVector with hw | hw
      · simp [halfAngle, hw]
      · simp [halfAngle, hw]
    rw [log_of_vector_zero hVector, Vec3.norm_eq_zero_iff.mpr rfl, hAngle, mul_zero]
  · obtain ⟨a, ha, hPos, hLog, -⟩ := exists_axis_log h hVector
    rw [hLog, norm_scale_axis ha (by linarith)]

theorem norm_log_le_pi {q : Quaternion ℝ} (h : q.normSq = 1) : (log q).norm ≤ Real.pi := by
  rw [norm_log h]
  linarith [halfAngle_le q]

/-- The logarithm forgets the sign of a quaternion and nothing else, the cut-off apart. -/
theorem exp_log {q : Quaternion ℝ} (h : q.normSq = 1)
    (hAngle : (log q).norm = 0 ∨ 0.5 ^ 51 < (log q).norm) :
    exp (log q) = q ∨ exp (log q) = -q := by
  by_cases hVector : q.vector = .zero
  · rw [log_of_vector_zero hVector, exp_zero]
    obtain ⟨hx, hy, hz⟩ := Vec3.mk.inj hVector
    rcases w_of_vector_zero h hVector with hw | hw
    · exact .inl (Quaternion.ext hx.symm hy.symm hz.symm hw.symm)
    · right
      rw [Quaternion.neg_eq, hx, hy, hz, hw]
      simp [Quaternion.one]
  · obtain ⟨a, ha, hPos, hLog, hPolar⟩ := exists_axis_log h hVector
    rw [norm_log h] at hAngle
    have hLong : 0.5 ^ 52 < halfAngle q := by
      have := hAngle.resolve_left (by linarith)
      rw [pow_succ]
      linarith
    rw [hLog, exp_axis ha hLong]
    rcases hPolar with hPolar | hPolar
    · exact .inl hPolar.symm
    · right
      rw [hPolar, neg_neg, ← hPolar]

theorem mul_exp_log {p q : Quaternion ℝ} (hp : p.normSq = 1) (hq : q.normSq = 1)
    (hAngle : (log (p.inverse * q)).norm = 0 ∨ 0.5 ^ 51 < (log (p.inverse * q)).norm) :
    p * exp (log (p.inverse * q)) = q ∨ p * exp (log (p.inverse * q)) = -q := by
  have hBack : p * (p.inverse * q) = q := Quaternion.mul_inverse_cancel hp q
  rcases exp_log (Quaternion.normSq_relative hp hq) hAngle with hSame | hOpposite
  · left
    rw [hSame, hBack]
  · right
    rw [hOpposite, mul_neg, hBack]

/-- The angle of the rotation from one orientation to another; neither the lengths nor the signs of
the quaternions count. -/
noncomputable def angleBetween (p q : Quaternion ℝ) : ℝ :=
  2 * Real.arccos (|p.x * q.x + p.y * q.y + p.z * q.z + p.w * q.w| / (p.norm * q.norm))

theorem norm_log_relative {p q : Quaternion ℝ} (hp : p.normSq ≠ 0) (hq : q.normSq ≠ 0) :
    (log (p.normalized.inverse * q.normalized)).norm = angleBetween p q := by
  have hUnit : (p.normalized.inverse * q.normalized).normSq = 1 :=
    Quaternion.normSq_relative (Quaternion.normSq_normalized hp) (Quaternion.normSq_normalized hq)
  have hScalar : (p.normalized.inverse * q.normalized).w =
      (p.x * q.x + p.y * q.y + p.z * q.z + p.w * q.w) / (p.norm * q.norm) := by
    have hpNorm := Quaternion.norm_ne_zero hp
    have hqNorm := Quaternion.norm_ne_zero hq
    simp only [Quaternion.mul_eq, Quaternion.inverse, Quaternion.normalized]
    field_simp
    ring
  have hNonneg : 0 ≤ p.norm * q.norm := mul_nonneg (Real.sqrt_nonneg _) (Real.sqrt_nonneg _)
  rw [norm_log hUnit, halfAngle, hScalar, abs_div, abs_of_nonneg hNonneg, angleBetween]

theorem leftJacobian_apply (w v : Vec3 ℝ) :
    (leftJacobian w).apply v =
      Vec3.turn (Coefficient.exp w.norm).1 (Coefficient.exp w.norm).2 w v := by
  unfold leftJacobian
  dsimp only
  rw [Mat3.apply_add, Mat3.apply_add, Mat3.apply_identity, Mat3.apply_scale, Mat3.apply_scale,
    Mat3.apply_mul, Mat3.apply_skew, Mat3.apply_skew]
  rfl

theorem inverseLeftJacobian_apply (w v : Vec3 ℝ) :
    (inverseLeftJacobian w).apply v =
      Vec3.turn (-2⁻¹) (Coefficient.inverseLeft w.norm) w v := by
  have hHalf : (0.5 : ℝ) = 2⁻¹ := by norm_num
  unfold inverseLeftJacobian
  rw [Mat3.apply_add, Mat3.apply_sub, Mat3.apply_identity, Mat3.apply_scale, Mat3.apply_scale,
    Mat3.apply_mul, Mat3.apply_skew, Mat3.apply_skew, hHalf]
  simp only [Vec3.turn, Vec3.scale_eq_smul, neg_smul, sub_eq_add_neg]

theorem closed_cancel {θ : ℝ} (hθ : θ ≠ 0) (hCos : 1 - Real.cos θ ≠ 0) :
    let a := (Coefficient.expClosed θ).1
    let b := (Coefficient.expClosed θ).2
    let c := Coefficient.inverseLeftClosed θ
    a + -2⁻¹ = θ * θ * (a * c + b * -2⁻¹) ∧ b + c + a * -2⁻¹ = θ * θ * (b * c) := by
  have hTwo : (2.0 : ℝ) = 2 := by norm_num
  have hSum := Real.sin_sq_add_cos_sq θ
  simp only [Coefficient.expClosed, Coefficient.inverseLeftClosed, hTwo, Elementary.sin_real,
    Elementary.cos_real]
  constructor
  · field_simp
    ring
  · field_simp
    linear_combination (-θ) * hSum

theorem one_sub_cos_ne_zero {θ : ℝ} (hθ : θ ≠ 0) (h : 0 ≤ θ) (hPi : θ ≤ Real.pi) :
    1 - Real.cos θ ≠ 0 := by
  -- Only a whole turn has the cosine one.
  rw [sub_ne_zero, ne_comm, ne_eq, Real.cos_eq_one_iff_of_lt_of_lt (by linarith [Real.pi_pos])
    (by linarith [Real.pi_pos])]
  exact hθ

theorem leftJacobian_cancel {w : Vec3 ℝ} (h : w.norm = 0 ∨ 1e-4 ≤ w.norm) (hPi : w.norm ≤ Real.pi)
    (v : Vec3 ℝ) :
    (inverseLeftJacobian w).apply ((leftJacobian w).apply v) = v ∧
      (leftJacobian w).apply ((inverseLeftJacobian w).apply v) = v := by
  simp only [leftJacobian_apply, inverseLeftJacobian_apply]
  by_cases hZero : w.norm = 0
  · rw [Vec3.norm_eq_zero_iff] at hZero
    simp only [hZero, Vec3.turn_zero_axis, and_self]
  · have hLarge : 1e-4 ≤ w.norm := h.resolve_left hZero
    have hPos : 0 < w.norm := lt_of_lt_of_le (by norm_num) hLarge
    have hClosed : ¬ w.norm < (Coefficient.smallAngle : ℝ) := not_lt.mpr hLarge
    -- The closed forms divide by `1 - cos θ`, which only a whole turn makes zero.
    have hCos : 1 - Real.cos w.norm ≠ 0 := one_sub_cos_ne_zero hZero w.norm_nonneg hPi
    have hExp : Coefficient.exp w.norm = Coefficient.expClosed w.norm := if_neg hClosed
    have hInverse : Coefficient.inverseLeft w.norm = Coefficient.inverseLeftClosed w.norm :=
      if_neg hClosed
    obtain ⟨hFirst, hSecond⟩ := closed_cancel hZero hCos
    rw [Vec3.norm_mul_norm] at hFirst hSecond
    rw [hExp, hInverse]
    constructor
    · exact Vec3.turn_cancel hFirst hSecond v
    · apply Vec3.turn_cancel
      · linarith
      · linarith

end Rotation

end MultibodyCost
