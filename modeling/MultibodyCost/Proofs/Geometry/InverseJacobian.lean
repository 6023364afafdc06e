import MultibodyCost.Proofs.Geometry.Bounded
import MultibodyCost.Proofs.Geometry.Entries
import MultibodyCost.Proofs.Geometry.Jacobian

/-! # The Jacobian of the logarithm as an inverse

In closed form the right Jacobian of the logarithm undoes the one of the exponential at every angle
that is not a whole number of turns. At small angles both are polynomials in the cross product with
the rotation vector, and so is what their product has beyond the identity: the terms of low order
cancel, and the fifth order of the angle is what remains. The coupling block of a placement carries
this defect to the upper right and does not add to its order.
-/

namespace MultibodyCost

namespace Rotation

variable {w : Vec3 ℝ}

/-- In closed form the two Jacobians undo each other, wherever the coefficients are defined. -/
theorem inverseJacobian_mul_jacobian (h : 1e-4 ≤ w.norm) (hCos : Real.cos w.norm ≠ 1) :
    inverseJacobian w * jacobian w = Mat3.identity := by
  apply Mat3.ext_apply
  intro v
  obtain ⟨a, b, c, hJacobian, hInverse, hFirst, hSecond⟩ :=
    closed_operators h (sub_ne_zero.mpr hCos.symm)
  rw [Mat3.apply_mul, Mat3.apply_identity, hJacobian, hInverse]
  apply Vec3.turn_cancel
  · linear_combination hFirst
  · linear_combination hSecond

/-- What the product of the two Jacobians is beyond the identity at a small angle. -/
noncomputable def defect (w : Vec3 ℝ) : Mat3 ℝ :=
  let t := w.normSq
  (Mat3.skew w).scale (t ^ 2 / 720 - t ^ 3 / 17280) +
    (Mat3.skew w * Mat3.skew w).scale (t ^ 2 / 2160 + t ^ 3 / 86400)

theorem series_operators (h : w.norm < 1e-4) :
    (∀ v, (jacobian w).apply v =
      Vec3.turn (-(2⁻¹ - w.normSq / 24)) (6⁻¹ - w.normSq / 120) w v) ∧
    (∀ v, (inverseJacobian w).apply v = Vec3.turn 2⁻¹ (12⁻¹ + w.normSq / 720) w v) := by
  have hSmall : w.norm < (Coefficient.smallAngle : ℝ) := h
  have hExp : Coefficient.exp w.norm = (2⁻¹ - w.normSq / 24, 6⁻¹ - w.normSq / 120) := by
    rw [Coefficient.exp, if_pos hSmall, Coefficient.expSeries, Vec3.norm_mul_norm]
    norm_num
  have hLog : Coefficient.log w.norm =
      (1 - w.normSq / 12 - w.normSq * w.normSq / 720, 12⁻¹ + w.normSq / 720) := by
    rw [Coefficient.log, if_pos hSmall, Coefficient.logSeries, Vec3.norm_mul_norm]
    norm_num
  constructor
  · intro v
    rw [jacobian_apply, hExp]
  · intro v
    rw [inverseJacobian_apply _ v, hLog]
    rw [hLog]
    ring

theorem inverseJacobian_mul_jacobian_zero :
    inverseJacobian (.zero : Vec3 ℝ) * jacobian .zero = Mat3.identity := by
  have hNone : (Vec3.zero : Vec3 ℝ).norm < 1e-4 := by
    rw [Vec3.norm_eq_zero_iff.mpr rfl]
    norm_num
  obtain ⟨hJacobian, hInverse⟩ := series_operators hNone
  apply Mat3.ext_apply
  intro v
  rw [Mat3.apply_mul, Mat3.apply_identity, hJacobian, hInverse, Vec3.turn_zero_axis,
    Vec3.turn_zero_axis]

theorem inverseJacobian_mul_jacobian_sub (h : w.norm < 1e-4) :
    inverseJacobian w * jacobian w - Mat3.identity = defect w := by
  obtain ⟨hJacobian, hInverse⟩ := series_operators h
  apply Mat3.ext_apply
  intro v
  rw [Mat3.apply_sub, Mat3.apply_mul, Mat3.apply_identity, hJacobian, hInverse, Vec3.turn_turn,
    defect, Mat3.apply_add, Mat3.apply_scale, Mat3.apply_scale, Mat3.apply_mul, Mat3.apply_skew,
    Mat3.apply_skew]
  apply Vec3.ext
  all_goals simp only [Vec3.turn, Vec3.add_eq, Vec3.sub_eq, Vec3.scale]
  all_goals ring

theorem bounded_defect (h : w.norm < 1e-4) : (defect w).Bounded (w.norm ^ 5 / 700) := by
  have hθ := w.norm_nonneg
  have hSkew := Mat3.Bounded.skew w
  refine ((hSkew.scale _).add ((hSkew.mul hSkew hθ).scale _)).mono ?_
  rw [← w.norm_mul_norm, ← sq]
  generalize w.norm = θ at h hθ
  have hOne : θ ≤ 1 := h.le.trans (by norm_num)
  have hFive : 0 ≤ θ ^ 5 := pow_nonneg hθ 5
  have higher : ∀ k, θ ^ (5 + (k + 1)) ≤ θ ^ 5 * 1e-4 := by
    intro k
    rw [pow_add]
    exact mul_le_mul_of_nonneg_left ((pow_le_of_le_one hθ hOne k.succ_ne_zero).trans h.le) hFive
  have hLinear : |(θ ^ 2) ^ 2 / 720 - (θ ^ 2) ^ 3 / 17280| ≤ (θ ^ 2) ^ 2 / 720 := by
    have hLower : (θ ^ 2) ^ 3 ≤ (θ ^ 2) ^ 2 :=
      pow_le_pow_of_le_one (sq_nonneg θ) (pow_le_one₀ hθ hOne) (by norm_num)
    have hCube : 0 ≤ (θ ^ 2) ^ 3 := pow_nonneg (sq_nonneg θ) 3
    exact abs_le.mpr ⟨by linarith, by linarith⟩
  calc
    _ ≤ (θ ^ 2) ^ 2 / 720 * θ + ((θ ^ 2) ^ 2 / 2160 + (θ ^ 2) ^ 3 / 86400) * θ ^ 2 := by
      rw [abs_of_nonneg (a := (θ ^ 2) ^ 2 / 2160 + (θ ^ 2) ^ 3 / 86400) (by positivity)]
      exact add_le_add_left (mul_le_mul_of_nonneg_right hLinear hθ) _
    _ = θ ^ 5 / 720 + θ ^ 6 / 2160 + θ ^ 8 / 86400 := by ring
    _ ≤ θ ^ 5 / 700 := by linarith [higher 0, higher 2]

theorem bounded_inverseJacobian (h : w.norm < 1e-4) : (inverseJacobian w).Bounded 2 := by
  have hθ := w.norm_nonneg
  have hSkew := Mat3.Bounded.skew w
  have hTurn : inverseJacobian w = Mat3.identity + (Mat3.skew w).scale 2⁻¹ +
      (Mat3.skew w * Mat3.skew w).scale (12⁻¹ + w.normSq / 720) := by
    apply Mat3.ext_apply
    intro v
    rw [(series_operators h).2, Mat3.apply_add, Mat3.apply_add, Mat3.apply_identity,
      Mat3.apply_scale, Mat3.apply_scale, Mat3.apply_mul, Mat3.apply_skew, Mat3.apply_skew]
    rfl
  rw [hTurn]
  refine ((Mat3.Bounded.identity.add (hSkew.scale _)).add
    ((hSkew.mul hSkew hθ).scale _)).mono ?_
  rw [← w.norm_mul_norm]
  generalize w.norm = θ at h hθ
  have hSq : θ * θ ≤ 1e-4 := by nlinarith
  rw [abs_of_nonneg (by positivity), abs_of_nonneg (by positivity)]
  nlinarith [mul_self_nonneg θ]

end Rotation

theorem Coefficient.abs_couplingSeries {t : ℝ} (h : 0 ≤ t) (hOne : t ≤ 1) :
    |(couplingSeries t).1| ≤ 1 ∧ |(couplingSeries t).2.1| ≤ 1 ∧ |(couplingSeries t).2.2| ≤ 1 := by
  simp only [couplingSeries, abs_le]
  norm_num
  refine ⟨⟨?_, ?_⟩, ⟨?_, ?_⟩, ⟨?_, ?_⟩⟩ <;> linarith

namespace Placement

theorem bounded_coupling (ρ : Vec3 ℝ) {φ : Vec3 ℝ} (h : φ.norm < 1e-4) :
    (coupling ρ φ).Bounded ρ.norm := by
  have hθ := φ.norm_nonneg
  have hρ := ρ.norm_nonneg
  have hSmall : φ.norm < (Coefficient.smallAngleCoupling : ℝ) :=
    h.trans (by norm_num [Coefficient.smallAngleCoupling])
  have hUnit : φ.norm ≤ 1 := h.le.trans (by norm_num)
  have hOne : φ.norm * φ.norm ≤ 1 := mul_le_one₀ hUnit hθ hUnit
  obtain ⟨hb, hc, hd⟩ := Coefficient.abs_couplingSeries (mul_self_nonneg φ.norm) hOne
  have hp := Mat3.Bounded.skew φ
  have hr := Mat3.Bounded.skew ρ
  have hpr := hp.mul hr hθ
  have hrp := hr.mul hp hρ
  have hprp := hpr.mul hp (mul_nonneg hθ hρ)
  have hLinear := hr.scale (-0.5)
  have hFirst := ((hpr.add hrp).sub hprp).scale_of_le_one (by positivity) hb
  have hSecond := (((hp.mul hpr hθ).add (hrp.mul hp (mul_nonneg hρ hθ))).sub
    (hprp.scale 3.0)).scale_of_le_one (by positivity) hc
  have hThird := ((hprp.mul hp (by positivity)).add (hp.mul hprp hθ)).scale_of_le_one
    (by positivity) hd
  have hHalf : |(-0.5 : ℝ)| = 1 / 2 := by norm_num
  have hThree : |(3.0 : ℝ)| = 3 := by norm_num
  rw [hHalf] at hLinear
  rw [hThree] at hSecond
  unfold coupling
  rw [Coefficient.coupling, if_pos hSmall]
  refine (((hLinear.add hFirst).sub hSecond).add hThird).mono ?_
  generalize φ.norm = θ at h hθ hUnit hOne
  generalize ρ.norm = R at hρ
  have hSq : θ * θ ≤ θ := mul_le_of_le_one_left hθ hUnit
  have hCube : θ * θ * θ ≤ θ := mul_le_of_le_one_left hθ hOne
  calc
    _ = R * (1 / 2 + (2 * θ + 6 * (θ * θ) + 2 * (θ * θ * θ))) := by ring
    _ ≤ R * 1 := mul_le_mul_of_nonneg_left (by linarith) hρ
    _ = R := mul_one R

/-- Beyond the identity, the product of the two Jacobians has the defect of the rotations, carried
by the coupling block to the upper right. -/
theorem inverseJacobian_mul_jacobian_sub (ν : Motion ℝ) :
    let j := Rotation.inverseJacobian ν.angular
    let e := j * Rotation.jacobian ν.angular - Mat3.identity
    inverseJacobian ν * jacobian ν - Mat6.identity =
      ⟨e, -(j * coupling ν.linear ν.angular * e), .zero, e⟩ := by
  intro j e
  apply Mat6.ext_apply
  intro m
  rw [Mat6.apply_sub, Mat6.apply_mul, Mat6.apply_identity]
  simp only [jacobian, inverseJacobian, Mat6.apply, Mat3.zero_apply, Mat3.apply_mul,
    Mat3.apply_neg, Mat3.add_apply, zero_add, e, Mat3.apply_sub, Mat3.apply_identity,
    Mat3.sub_apply]
  apply Motion.ext
  · change _ - m.linear = _
    apply Vec3.ext
    all_goals simp only [Vec3.add_eq, Vec3.sub_eq, Vec3.neg_eq]
    all_goals ring
  · rfl

theorem inverseJacobian_mul_jacobian {ν : Motion ℝ}
    (h : Rotation.inverseJacobian ν.angular * Rotation.jacobian ν.angular = Mat3.identity) :
    inverseJacobian ν * jacobian ν = Mat6.identity := by
  have undone : ∀ v, (Rotation.inverseJacobian ν.angular).apply
      ((Rotation.jacobian ν.angular).apply v) = v := by
    intro v
    rw [← Mat3.apply_mul, h, Mat3.apply_identity]
  apply Mat6.ext_apply
  intro m
  rw [Mat6.apply_mul, Mat6.apply_identity]
  simp only [jacobian, inverseJacobian, Mat6.apply, Mat3.zero_apply, Mat3.apply_mul,
    Mat3.apply_neg, Mat3.add_apply, zero_add, undone]
  apply Motion.ext
  · apply Vec3.ext
    all_goals simp only [Vec3.add_eq, Vec3.neg_eq, add_neg_cancel_right]
  · rfl

theorem entry_le_of_blocks {a b : Mat3 ℝ} {k : ℝ} (ha : a.Bounded k) (hb : b.Bounded k)
    (hk : 0 ≤ k) : ∀ i j, i < 6 → j < 6 → |(⟨a, b, .zero, a⟩ : Mat6 ℝ).entry i j| ≤ k := by
  apply Mat6.forall_entry
  · intro i j hi hj
    rw [Mat6.entry_ul _ hi hj]
    exact ha.entry hi hj
  · intro i j hi hj
    rw [Mat6.entry_ur _ hi]
    exact hb.entry hi hj
  · intro i j hi hj
    rw [Mat6.entry_ll _ hj, Mat3.entry_zero hi hj, abs_zero]
    exact hk
  · intro i j hi hj
    rw [Mat6.entry_lr]
    exact ha.entry hi hj

/-- The Jacobian of the logarithm undoes the one of the exponential: exactly where the coefficients
are in closed form and the angle is not a whole number of turns, and at no rotation at all; at small
angles up to the fifth order of the angle. -/
theorem inverseJacobian_cancels (ν : Motion ℝ) :
    (1e-4 ≤ ν.angular.norm → Real.cos ν.angular.norm ≠ 1 →
      inverseJacobian ν * jacobian ν = Mat6.identity ∧
        Rotation.inverseJacobian ν.angular * Rotation.jacobian ν.angular = Mat3.identity) ∧
    (ν.angular.norm < 1e-4 → ∀ i j, i < 6 → j < 6 →
      |(inverseJacobian ν * jacobian ν - Mat6.identity).entry i j| ≤
        ν.angular.norm ^ 5 * (1 + ν.linear.norm) / 100) ∧
    (ν.angular = .zero → inverseJacobian ν * jacobian ν = Mat6.identity) := by
  refine ⟨?_, ?_, ?_⟩
  · intro hLarge hCos
    have hRotation := Rotation.inverseJacobian_mul_jacobian hLarge hCos
    exact ⟨inverseJacobian_mul_jacobian hRotation, hRotation⟩
  · intro hSmall
    have hFive : 0 ≤ ν.angular.norm ^ 5 := pow_nonneg ν.angular.norm_nonneg 5
    have hProduct : 0 ≤ ν.angular.norm ^ 5 * ν.linear.norm := mul_nonneg hFive ν.linear.norm_nonneg
    have hDefect := Rotation.bounded_defect hSmall
    have hBlocks := (Rotation.bounded_inverseJacobian hSmall).mul
      (bounded_coupling ν.linear hSmall) zero_le_two
    have hCarried := (hBlocks.mul hDefect (mul_nonneg zero_le_two ν.linear.norm_nonneg)).neg
    rw [inverseJacobian_mul_jacobian_sub, Rotation.inverseJacobian_mul_jacobian_sub hSmall]
    exact entry_le_of_blocks (hDefect.mono (by linarith)) (hCarried.mono (by linarith))
      (by linarith)
  · intro hZero
    apply inverseJacobian_mul_jacobian
    rw [hZero]
    exact Rotation.inverseJacobian_mul_jacobian_zero

noncomputable def drift : Motion ℝ := ⟨screw.linear, ⟨3e-5, 0, 4e-5⟩⟩

theorem inverseJacobian_cancels_screw :
    1e-4 ≤ screw.angular.norm ∧ Real.cos screw.angular.norm ≠ 1 ∧
    inverseJacobian screw * jacobian screw = Mat6.identity ∧ drift.angular.norm < 1e-4 ∧
    ∀ i j, i < 6 → j < 6 → |(inverseJacobian drift * jacobian drift - Mat6.identity).entry i j| ≤
      drift.angular.norm ^ 5 * (1 + drift.linear.norm) / 100 := by
  have hLarge : 1e-4 ≤ screw.angular.norm := by
    rw [norm_screw]
    norm_num
  have hCos : Real.cos screw.angular.norm ≠ 1 := by
    rw [norm_screw]
    exact (sub_ne_zero.mp (Rotation.one_sub_cos_ne_zero one_ne_zero zero_le_one
      (by linarith [Real.pi_gt_three]))).symm
  have hDrift : drift.angular.norm = 5e-5 := by
    apply Vec3.norm_eq_of_normSq (by norm_num)
    norm_num [drift, Vec3.normSq, Vec3.dot]
  have hSmall : drift.angular.norm < 1e-4 := by
    rw [hDrift]
    norm_num
  exact ⟨hLarge, hCos, ((inverseJacobian_cancels screw).1 hLarge hCos).1, hSmall,
    (inverseJacobian_cancels drift).2.1 hSmall⟩

end Placement

end MultibodyCost
