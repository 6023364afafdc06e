import MultibodyCost.Proofs.Geometry.Placement

/-! # Exponentials along one motion

The exponentials of two multiples of a motion multiply to the one of the sum. For rotations the half
angles about the axis are added, whatever their size and sign, so that the sign of the quaternion is
kept as well. For placements what counts is how a translation proceeds along a screw (`glide`): by
the angle along itself and by the chord across, of which two steps, the second turned by the angle of
the first, make one.
-/

namespace MultibodyCost

namespace Vec3

/-- How far a vector is carried along a screw about the unit axis `a` by the angle `θ`. -/
noncomputable def glide (a : Vec3 ℝ) (θ : ℝ) (v : Vec3 ℝ) : Vec3 ℝ :=
  v.scale θ + (a.cross v).scale (1 - Real.cos θ) + (a.cross (a.cross v)).scale (θ - Real.sin θ)

theorem glide_add {a : Vec3 ℝ} (ha : a.normSq = 1) (s t : ℝ) (v : Vec3 ℝ) :
    glide a s v + turn (Real.sin s) (1 - Real.cos s) a (glide a t v) = glide a (s + t) v := by
  simp only [glide, turn, cross_add, cross_scale, cross_cross_cross_self, ha, Real.sin_add,
    Real.cos_add]
  simp only [add_eq, scale, mk.injEq]
  refine ⟨?_, ?_, ?_⟩ <;> ring

end Vec3

theorem Coefficient.expClosed_abs (θ : ℝ) : expClosed |θ| = expClosed θ := by
  rcases abs_choice θ with hAbs | hAbs
  · rw [hAbs]
  · rw [hAbs]
    simp only [expClosed, Elementary.sin_real, Elementary.cos_real, Real.sin_neg, Real.cos_neg,
      neg_mul_neg, Prod.mk.injEq, true_and]
    rw [mul_neg, div_neg, ← neg_div, neg_sub, sub_neg_eq_add, neg_add_eq_sub]

namespace Rotation

theorem polar_zero (a : Vec3 ℝ) : polar a 0 = .one := by
  simp only [polar, Quaternion.one, Elementary.sin_real, Elementary.cos_real, Real.sin_zero,
    Real.cos_zero, mul_zero]

theorem polar_mul {a : Vec3 ℝ} (ha : a.normSq = 1) (s t : ℝ) :
    polar a s * polar a t = polar a (s + t) := by
  simp only [Vec3.normSq, Vec3.dot] at ha
  simp only [polar, Elementary.sin_real, Elementary.cos_real, Quaternion.mul_eq, Real.sin_add,
    Real.cos_add, Quaternion.mk.injEq]
  refine ⟨by ring, by ring, by ring, ?_⟩
  linear_combination -(Real.sin s * Real.sin t) * ha

theorem exp_scale_axis {a : Vec3 ℝ} (ha : a.normSq = 1) {t : ℝ} (ht : t = 0 ∨ 0.5 ^ 52 < |t|) :
    exp (a.scale (2 * t)) = polar a t := by
  rcases ht with rfl | hLong
  · rw [mul_zero, Vec3.scale_eq_smul, zero_smul, polar_zero]
    exact exp_zero
  · rcases lt_or_ge t 0 with hNeg | hPos
    · -- It is taken about the opposite axis.
      have hOpposite : (a.scale (-1)).normSq = 1 := by
        rw [Vec3.normSq_scale, ha]
        norm_num
      rw [abs_of_neg hNeg] at hLong
      have hScale : a.scale (2 * t) = (a.scale (-1)).scale (2 * -t) := by
        rw [Vec3.scale_scale]
        congr 1
        ring
      rw [hScale, exp_axis hOpposite hLong]
      simp only [polar, Vec3.scale, Elementary.sin_real, Elementary.cos_real, Real.sin_neg,
        Real.cos_neg, mul_neg, mul_one, neg_mul, neg_neg]
    · rw [abs_of_nonneg hPos] at hLong
      exact exp_axis ha hLong

/-- The multiple of a rotation vector is zero, or long enough for the closed forms. -/
def Discerned (w : Vec3 ℝ) (c : ℝ) : Prop := (w.scale c).norm = 0 ∨ 1e-4 ≤ (w.scale c).norm

section Axis

variable {a : Vec3 ℝ} {n c s t : ℝ}

theorem Discerned.angle (h : Discerned (a.scale n) c) (ha : a.normSq = 1) :
    n * c = 0 ∨ 1e-4 ≤ |n * c| := by
  rwa [Discerned, Vec3.scale_scale, Vec3.norm_scale_unit ha, abs_eq_zero] at h

theorem exp_of_angle (ha : a.normSq = 1) {θ : ℝ} (h : θ = 0 ∨ 1e-4 ≤ |θ|) :
    exp (a.scale θ) = polar a (θ / 2) := by
  rw [← exp_scale_axis ha, mul_div_cancel₀ _ two_ne_zero]
  refine h.imp (fun hZero => by rw [hZero, zero_div]) fun hLarge => ?_
  rw [abs_div, abs_two]
  exact lt_of_lt_of_le (by norm_num) (div_le_div_of_nonneg_right hLarge zero_le_two)

end Axis

theorem exp_scale_mul {w : Vec3 ℝ} {s t : ℝ} (hs : Discerned w s) (ht : Discerned w t)
    (hSum : Discerned w (s + t)) : exp (w.scale s) * exp (w.scale t) = exp (w.scale (s + t)) := by
  by_cases hZero : w = .zero
  · have hStay : ∀ c : ℝ, exp (w.scale c) = 1 := by
      intro c
      rw [hZero, Vec3.scale_eq_smul, Vec3.zero_eq, smul_zero]
      exact exp_zero
    rw [hStay, hStay, hStay, mul_one]
  · obtain ⟨a, ha, hAxis⟩ := exists_axis hZero
    rw [hAxis] at hs ht hSum ⊢
    rw [Vec3.scale_scale, Vec3.scale_scale, Vec3.scale_scale, exp_of_angle ha (hs.angle ha),
      exp_of_angle ha (ht.angle ha), exp_of_angle ha (hSum.angle ha), polar_mul ha, mul_add, add_div]

end Rotation

namespace Placement

open Rotation

theorem leftJacobian_scale {a : Vec3 ℝ} (ha : a.normSq = 1) {θ : ℝ} (h : θ = 0 ∨ 1e-4 ≤ |θ|)
    (v : Vec3 ℝ) : ((leftJacobian (a.scale θ)).apply v).scale θ = Vec3.glide a θ v := by
  rcases h with rfl | hLarge
  · simp only [Vec3.glide, Real.cos_zero, Real.sin_zero, sub_self, Vec3.scale_eq_smul, zero_smul,
      add_zero]
  · have hZero : θ ≠ 0 := abs_pos.mp (lt_of_lt_of_le (by norm_num) hLarge)
    have hExp : Coefficient.exp |θ| = Coefficient.expClosed |θ| := if_neg (not_lt.mpr hLarge)
    rw [leftJacobian_apply, Vec3.norm_scale_unit ha, hExp, Coefficient.expClosed_abs,
      Vec3.turn_scale_axis, Vec3.turn, Vec3.scale_eq_smul, smul_add, smul_add, Vec3.glide]
    simp only [← Vec3.scale_eq_smul, Vec3.scale_scale]
    simp only [Coefficient.expClosed, Elementary.sin_real, Elementary.cos_real]
    congr 2
    · congr 1
      field_simp
    · field_simp

theorem exp_scale_zero (ρ : Vec3 ℝ) (c : ℝ) :
    exp (Motion.scale ⟨ρ, .zero⟩ c) = ⟨ρ.scale c, .one⟩ := by
  apply Placement.ext
  · change (leftJacobian (Vec3.zero.scale c)).apply (ρ.scale c) = ρ.scale c
    rw [Vec3.scale_eq_smul, Vec3.zero_eq, smul_zero, ← Vec3.zero_eq, leftJacobian_apply,
      Vec3.turn_zero_axis]
  · change Rotation.exp (Vec3.zero.scale c) = .one
    rw [Vec3.scale_eq_smul, Vec3.zero_eq, smul_zero, ← Vec3.zero_eq, exp_zero]

theorem exp_scale_axis {a : Vec3 ℝ} (ha : a.normSq = 1) {n c : ℝ} (hn : n ≠ 0) (ρ : Vec3 ℝ)
    (h : Discerned (a.scale n) c) : exp (Motion.scale ⟨ρ, a.scale n⟩ c) =
      ⟨(Vec3.glide a (n * c) ρ).scale n⁻¹, polar a (n * c / 2)⟩ := by
  have hAngle := h.angle ha
  apply Placement.ext
  · change (leftJacobian ((a.scale n).scale c)).apply (ρ.scale c) = _
    rw [← leftJacobian_scale ha hAngle, Vec3.scale_scale, Vec3.scale_scale, mul_right_comm,
      mul_inv_cancel₀ hn, one_mul, Mat3.scale_apply]
  · change Rotation.exp ((a.scale n).scale c) = _
    rw [Vec3.scale_scale, exp_of_angle ha hAngle]

theorem exp_scale_mul {ν : Motion ℝ} {s t : ℝ} (hs : Discerned ν.angular s)
    (ht : Discerned ν.angular t) (hSum : Discerned ν.angular (s + t)) :
    exp (ν.scale s) * exp (ν.scale t) = exp (ν.scale (s + t)) := by
  have hRotation := Rotation.exp_scale_mul hs ht hSum
  obtain ⟨ρ, w⟩ := ν
  apply Placement.ext
  · by_cases hZero : w = .zero
    · subst hZero
      simp only [exp_scale_zero, mul_eq, Quaternion.one_rotate]
      exact (add_smul s t ρ).symm
    · obtain ⟨a, ha, hAxis⟩ := exists_axis hZero
      have hn : w.norm ≠ 0 := mt Vec3.norm_eq_zero_iff.mp hZero
      generalize w.norm = n at hAxis hn
      subst hAxis
      rw [exp_scale_axis ha hn ρ hs, exp_scale_axis ha hn ρ ht, exp_scale_axis ha hn ρ hSum]
      simp only [mul_eq]
      rw [polar_rotate, mul_div_cancel₀ _ two_ne_zero, Vec3.turn_scale, Vec3.scale_eq_smul,
        Vec3.scale_eq_smul, ← smul_add, Vec3.glide_add ha, mul_add]
      rfl
  · exact hRotation

end Placement

end MultibodyCost
