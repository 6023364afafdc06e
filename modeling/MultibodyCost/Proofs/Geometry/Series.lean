import MultibodyCost.Proofs.Geometry.Jacobian

/-! # Series and closed forms

Below a threshold the coefficients of the Jacobians are taken from their series, because the closed
forms cancel there. The two are compared in exact arithmetic, where nothing cancels.

What the first terms of the series of sine and cosine leave is, up to sign, one sequence of
functions. Each is the derivative of the next and all are zero at zero, so that by one induction
each lies between zero and the first term that was left out. Multiplied by its denominator, the
difference between a series and its closed form is made of late members of the sequence, and thus of
the order that the bound needs.
-/

namespace MultibodyCost

namespace Coefficient

/-- The series of the sine (even places) and of the cosine (odd places) from the term of degree
`n + 1` on, with the sign that makes this term positive. -/
noncomputable def remainder : ℕ → ℝ → ℝ
  | 0, x => Real.sin x
  | 1, x => 1 - Real.cos x
  | n + 2, x => x ^ (n + 1) / (n + 1).factorial - remainder n x

theorem remainder_add_two (n : ℕ) (x : ℝ) :
    remainder (n + 2) x = x ^ (n + 1) / (n + 1).factorial - remainder n x := rfl

theorem remainder_eq_sub (n : ℕ) (x : ℝ) :
    remainder n x = x ^ (n + 1) / (n + 1).factorial - remainder (n + 2) x :=
  (sub_sub_cancel _ _).symm

theorem remainder_zero : ∀ n, remainder n 0 = 0
  | 0 => Real.sin_zero
  | 1 => by rw [remainder, Real.cos_zero, sub_self]
  | n + 2 => by
    rw [remainder_add_two, remainder_zero n, zero_pow n.succ_ne_zero, zero_div, sub_zero]

theorem hasDerivAt_remainder (x : ℝ) : ∀ n, HasDerivAt (remainder (n + 1)) (remainder n x) x
  | 0 => by
    have hCos := (Real.hasDerivAt_cos x).const_sub 1
    rwa [neg_neg] at hCos
  | 1 => by
    have hLine := (hasDerivAt_pow 1 x).div_const (Nat.factorial 1 : ℝ)
    refine (hLine.sub (Real.hasDerivAt_sin x)).congr_deriv ?_
    simp [remainder]
  | n + 2 => by
    have hTerm := (hasDerivAt_pow (n + 2) x).div_const ((n + 2).factorial : ℝ)
    refine (hTerm.sub (hasDerivAt_remainder x n)).congr_deriv ?_
    rw [remainder_add_two, Nat.factorial_succ (n + 1), Nat.cast_mul,
      mul_div_mul_left _ _ (Nat.cast_ne_zero.mpr (n + 1).succ_ne_zero)]
    rfl

theorem remainder_nonneg {x : ℝ} (hx : 0 ≤ x) (n : ℕ) : 0 ≤ remainder (n + 1) x := by
  induction n generalizing x with
  | zero => exact sub_nonneg.mpr (Real.cos_le_one x)
  | succ n ih =>
    -- It starts at zero and its derivative is the member before it.
    have hMono : MonotoneOn (remainder (n + 2)) (Set.Ici 0) := by
      apply monotoneOn_of_deriv_nonneg (convex_Ici 0)
      · intro y _
        exact (hasDerivAt_remainder y (n + 1)).continuousAt.continuousWithinAt
      · intro y _
        exact (hasDerivAt_remainder y (n + 1)).differentiableAt.differentiableWithinAt
      · intro y hy
        rw [interior_Ici] at hy
        rw [(hasDerivAt_remainder y (n + 1)).deriv]
        exact ih hy.le
    have hStart := hMono Set.self_mem_Ici hx hx
    rwa [remainder_zero] at hStart

theorem remainder_le {x : ℝ} (hx : 0 ≤ x) (n : ℕ) :
    remainder (n + 1) x ≤ x ^ (n + 2) / (n + 2).factorial := by
  have hNext := remainder_nonneg hx (n + 2)
  rw [remainder_add_two] at hNext
  exact sub_nonneg.mp hNext

theorem sin_eq_sub_remainder (x : ℝ) :
    Real.sin x = x - x ^ 3 / 6 + x ^ 5 / 120 - remainder 6 x := by
  have hSine : Real.sin x = remainder 0 x := rfl
  have hFirst : remainder 0 x = x - remainder 2 x := by
    simpa [Nat.factorial] using remainder_eq_sub 0 x
  have hThird : remainder 2 x = x ^ 3 / 6 - remainder 4 x := by
    simpa [Nat.factorial] using remainder_eq_sub 2 x
  have hFifth : remainder 4 x = x ^ 5 / 120 - remainder 6 x := by
    simpa [Nat.factorial] using remainder_eq_sub 4 x
  linarith

theorem cos_eq_sub_remainder (x : ℝ) :
    Real.cos x = 1 - x ^ 2 / 2 + x ^ 4 / 24 - remainder 5 x := by
  have hCosine : 1 - Real.cos x = remainder 1 x := rfl
  have hSecond : remainder 1 x = x ^ 2 / 2 - remainder 3 x := by
    simpa [Nat.factorial] using remainder_eq_sub 1 x
  have hFourth : remainder 3 x = x ^ 4 / 24 - remainder 5 x := by
    simpa [Nat.factorial] using remainder_eq_sub 3 x
  linarith

theorem remainder_five (x : ℝ) : remainder 5 x = x ^ 6 / 720 - remainder 7 x := by
  simpa [Nat.factorial] using remainder_eq_sub 5 x

theorem remainder_six (x : ℝ) : remainder 6 x = x ^ 7 / 5040 - remainder 8 x := by
  simpa [Nat.factorial] using remainder_eq_sub 6 x

theorem remainder_seven_le {x : ℝ} (hx : 0 ≤ x) : remainder 7 x ≤ x ^ 8 / 40320 := by
  simpa [Nat.factorial] using remainder_le hx 6

theorem remainder_eight_le {x : ℝ} (hx : 0 ≤ x) : remainder 8 x ≤ x ^ 9 / 362880 := by
  simpa [Nat.factorial] using remainder_le hx 7

variable {θ : ℝ}

theorem abs_le_of_mul {x y d : ℝ} (hd : 0 < d) (h : |x * d| ≤ y * d) : |x| ≤ y := by
  rw [abs_mul, abs_of_pos hd] at h
  exact le_of_mul_le_mul_right h hd

theorem abs_le_of_mul_pow (hPos : 0 < θ) {x : ℝ} {k : ℕ} (hk : 2 ≤ k)
    (h : x * θ ^ k = -remainder (k + 3) θ) : |x| ≤ θ ^ 4 / 720 := by
  have hSix : Nat.factorial 6 ≤ (k + 4).factorial := Nat.factorial_le (by omega)
  have hFactorial : (720 : ℝ) ≤ (k + 4).factorial := by exact_mod_cast hSix
  apply abs_le_of_mul (pow_pos hPos k)
  rw [h, abs_neg, abs_of_nonneg (remainder_nonneg hPos.le (k + 2))]
  calc
    _ ≤ θ ^ (k + 4) / (k + 4).factorial := remainder_le hPos.le (k + 2)
    _ ≤ θ ^ (k + 4) / 720 :=
      div_le_div_of_nonneg_left (pow_pos hPos (k + 4)).le (by norm_num) hFactorial
    _ = θ ^ 4 / 720 * θ ^ k := by ring

theorem expSeries_real (t : ℝ) : expSeries t = (1 / 2 - t / 24, 1 / 6 - t / 120) := by
  norm_num [expSeries]

theorem logSeries_real (t : ℝ) : logSeries t = (1 - t / 12 - t ^ 2 / 720, 1 / 12 + t / 720) := by
  norm_num [logSeries, sq]

theorem inverseLeftSeries_real (t : ℝ) : inverseLeftSeries t = 1 / 12 + t / 720 := by
  norm_num [inverseLeftSeries]

theorem couplingSeries_real (t : ℝ) :
    couplingSeries t = (1 / 6 - t / 120, 1 / 24 - t / 720, 1 / 120 - t / 2520) := by
  norm_num [couplingSeries]

theorem expSeries_near (hPos : 0 < θ) :
    |(expSeries (θ * θ)).1 - (expClosed θ).1| ≤ θ ^ 4 / 720 ∧
      |(expSeries (θ * θ)).2 - (expClosed θ).2| ≤ θ ^ 4 / 720 := by
  simp only [expSeries_real, expClosed, Elementary.sin_real, Elementary.cos_real]
  constructor
  · have hLeft : (1 / 2 - θ * θ / 24 - (1 - Real.cos θ) / (θ * θ)) * θ ^ 2 = -remainder 5 θ := by
      rw [cos_eq_sub_remainder]
      field_simp
      ring
    exact abs_le_of_mul_pow hPos (by norm_num) hLeft
  · have hLeft : (1 / 6 - θ * θ / 120 - (θ - Real.sin θ) / (θ * θ * θ)) * θ ^ 3 =
        -remainder 6 θ := by
      rw [sin_eq_sub_remainder]
      field_simp
      ring
    exact abs_le_of_mul_pow hPos (by norm_num) hLeft

theorem couplingSeries_near (hPos : 0 < θ) :
    |(couplingSeries (θ * θ)).1 - (couplingClosed θ).1| ≤ θ ^ 4 / 720 ∧
      |(couplingSeries (θ * θ)).2.1 - (couplingClosed θ).2.1| ≤ θ ^ 4 / 720 ∧
      |(couplingSeries (θ * θ)).2.2 - (couplingClosed θ).2.2| ≤ θ ^ 4 / 720 := by
  have hTwo : (2.0 : ℝ) = 2 := by norm_num
  have hThree : (3.0 : ℝ) = 3 := by norm_num
  refine ⟨(expSeries_near hPos).2, ?_, ?_⟩
  all_goals simp only [couplingSeries_real, couplingClosed, hTwo, hThree, Elementary.sin_real,
    Elementary.cos_real]
  · have hLeft : (1 / 24 - θ * θ / 720 -
        (θ * θ + 2 * Real.cos θ - 2) / (2 * (θ * θ * (θ * θ)))) * θ ^ 4 = -remainder 7 θ := by
      rw [cos_eq_sub_remainder, remainder_five]
      field_simp
      ring
    exact abs_le_of_mul_pow hPos (by norm_num) hLeft
  · have hLeft : (1 / 120 - θ * θ / 2520 -
        (2 * θ - 3 * Real.sin θ + θ * Real.cos θ) / (2 * (θ * θ * (θ * θ)) * θ)) * (2 * θ ^ 5) =
          3 * remainder 8 θ - θ * remainder 7 θ := by
      rw [cos_eq_sub_remainder, sin_eq_sub_remainder, remainder_five, remainder_six]
      field_simp
      ring
    have hCosine : θ * remainder 7 θ ≤ θ * (θ ^ 8 / 40320) :=
      mul_le_mul_of_nonneg_left (remainder_seven_le hPos.le) hPos.le
    have hNonneg : 0 ≤ θ * remainder 7 θ := mul_nonneg hPos.le (remainder_nonneg hPos.le 6)
    apply abs_le_of_mul (mul_pos two_pos (pow_pos hPos 5))
    rw [hLeft, abs_le]
    constructor
    · linarith [pow_pos hPos 9, remainder_nonneg hPos.le 7]
    · linarith [pow_pos hPos 9, remainder_eight_le hPos.le]

theorem chord_ge (hPos : 0 < θ) (hOne : θ ≤ 1) : 11 / 12 * θ ^ 2 ≤ 2 * (1 - Real.cos θ) := by
  have hFour : θ ^ 4 ≤ θ ^ 2 := pow_le_pow_of_le_one hPos.le hOne (by norm_num)
  rw [cos_eq_sub_remainder]
  linarith [remainder_nonneg hPos.le 4]

theorem abs_chord_mul_series_sub (hPos : 0 < θ) (hOne : θ ≤ 1) :
    |2 * (1 - Real.cos θ) * (θ ^ 2 * (1 / 12 + θ ^ 2 / 720)) -
      (2 * (1 - Real.cos θ) - θ * Real.sin θ)| ≤ θ ^ 8 / 1000 := by
  have hSeven := remainder_seven_le hPos.le
  have hSevenNonneg := remainder_nonneg hPos.le 6
  have hLeft : 2 * (1 - Real.cos θ) * (θ ^ 2 * (1 / 12 + θ ^ 2 / 720)) -
      (2 * (1 - Real.cos θ) - θ * Real.sin θ) =
        θ ^ 10 / 259200 - θ ^ 8 * (1 / 5040 - 1 / 8640) + 2 * remainder 7 θ -
          remainder 7 θ * (θ ^ 2 / 6 + θ ^ 4 / 360) + θ * remainder 8 θ := by
    rw [cos_eq_sub_remainder, sin_eq_sub_remainder, remainder_five, remainder_six]
    ring
  have hHigher : 0 ≤ remainder 7 θ * (θ ^ 2 / 6 + θ ^ 4 / 360) :=
    mul_nonneg hSevenNonneg (by positivity)
  have hLower : remainder 7 θ * (θ ^ 2 / 6 + θ ^ 4 / 360) ≤ remainder 7 θ := by
    apply mul_le_of_le_one_right hSevenNonneg
    linarith [pow_le_one₀ hPos.le hOne (n := 2), pow_le_one₀ hPos.le hOne (n := 4)]
  have hSine : θ * remainder 8 θ ≤ θ * (θ ^ 9 / 362880) :=
    mul_le_mul_of_nonneg_left (remainder_eight_le hPos.le) hPos.le
  have hSineNonneg : 0 ≤ θ * remainder 8 θ := mul_nonneg hPos.le (remainder_nonneg hPos.le 7)
  have hTen : θ ^ 10 ≤ θ ^ 8 := pow_le_pow_of_le_one hPos.le hOne (by norm_num)
  rw [hLeft, abs_le]
  constructor
  · linarith [pow_pos hPos 10]
  · linarith [pow_pos hPos 8]

theorem inverseLeftSeries_near (hPos : 0 < θ) (hOne : θ ≤ 1) :
    |inverseLeftSeries (θ * θ) - inverseLeftClosed θ| ≤ θ ^ 4 / 720 := by
  have hTwo : (2.0 : ℝ) = 2 := by norm_num
  have hChord := chord_ge hPos hOne
  have hCos : 0 < 1 - Real.cos θ := by linarith [pow_pos hPos 2]
  simp only [inverseLeftSeries_real, inverseLeftClosed, hTwo, Elementary.sin_real,
    Elementary.cos_real]
  have hLeft : (1 / 12 + θ * θ / 720 -
      (1 - θ * Real.sin θ / (2 * (1 - Real.cos θ))) / (θ * θ)) * (2 * (1 - Real.cos θ) * θ ^ 2) =
        2 * (1 - Real.cos θ) * (θ ^ 2 * (1 / 12 + θ ^ 2 / 720)) -
          (2 * (1 - Real.cos θ) - θ * Real.sin θ) := by
    field_simp
  apply abs_le_of_mul (mul_pos (mul_pos two_pos hCos) (pow_pos hPos 2))
  rw [hLeft]
  calc
    _ ≤ θ ^ 8 / 1000 := abs_chord_mul_series_sub hPos hOne
    _ ≤ θ ^ 6 / 720 * (11 / 12 * θ ^ 2) := by linarith [pow_pos hPos 8]
    _ ≤ θ ^ 6 / 720 * (2 * (1 - Real.cos θ)) := mul_le_mul_of_nonneg_left hChord (by positivity)
    _ = θ ^ 4 / 720 * (2 * (1 - Real.cos θ) * θ ^ 2) := by ring

theorem logSeries_near (hPos : 0 < θ) (hOne : θ ≤ 1) :
    |(logSeries (θ * θ)).1 - (logClosed θ).1| ≤ θ ^ 4 / 720 ∧
      |(logSeries (θ * θ)).2 - (logClosed θ).2| ≤ θ ^ 4 / 720 := by
  have hCos : 1 - Real.cos θ ≠ 0 :=
    Rotation.one_sub_cos_ne_zero hPos.ne' hPos.le (hOne.trans (by linarith [Real.pi_gt_three]))
  obtain ⟨hSame, hSum⟩ := Rotation.log_closed_sum hPos.ne' hCos
  have hSecond : |(logSeries (θ * θ)).2 - (logClosed θ).2| ≤ θ ^ 4 / 720 := by
    rw [hSame]
    exact inverseLeftSeries_near hPos hOne
  refine ⟨?_, hSecond⟩
  -- In the series as in closed form the first coefficient is one less `θ ^ 2` times the second.
  have hFirst : (logSeries (θ * θ)).1 - (logClosed θ).1 =
      -(θ * θ * ((logSeries (θ * θ)).2 - (logClosed θ).2)) := by
    rw [logSeries_real]
    linear_combination -hSum
  have hSq : θ * θ ≤ 1 := mul_le_one₀ hOne hPos.le hOne
  rw [hFirst, abs_neg, abs_mul, abs_of_nonneg (mul_self_nonneg θ)]
  exact (mul_le_of_le_one_left (abs_nonneg _) hSq).trans hSecond

end Coefficient

open Coefficient

structure Rotation.FromSeries (w : Vec3 ℝ) : Prop where
  jacobian : ∀ v, (Rotation.jacobian w).apply v =
    Vec3.turn (-(expSeries (w.norm * w.norm)).1) (expSeries (w.norm * w.norm)).2 w v
  leftJacobian : ∀ v, (Rotation.leftJacobian w).apply v =
    Vec3.turn (expSeries (w.norm * w.norm)).1 (expSeries (w.norm * w.norm)).2 w v
  inverseJacobian : ∀ v, (Rotation.inverseJacobian w).apply v =
    v.scale (logSeries (w.norm * w.norm)).1 + (w.cross v).scale 2⁻¹ +
      (w.scale (w.dot v)).scale (logSeries (w.norm * w.norm)).2
  inverseLeftJacobian : ∀ v, (Rotation.inverseLeftJacobian w).apply v =
    Vec3.turn (-2⁻¹) (inverseLeftSeries (w.norm * w.norm)) w v

theorem Rotation.fromSeries {w : Vec3 ℝ} (h : w.norm < 1e-4) : FromSeries w := by
  have hExp : Coefficient.exp w.norm = expSeries (w.norm * w.norm) := if_pos h
  have hLog : Coefficient.log w.norm = logSeries (w.norm * w.norm) := if_pos h
  have hInverseLeft : Coefficient.inverseLeft w.norm = inverseLeftSeries (w.norm * w.norm) :=
    if_pos h
  have hHalf : (0.5 : ℝ) = 2⁻¹ := by norm_num
  constructor
  · intro v
    rw [jacobian_apply, hExp]
  · intro v
    rw [leftJacobian_apply, hExp]
  · intro v
    unfold Rotation.inverseJacobian
    rw [hLog, Mat3.apply_add, Mat3.apply_add, Mat3.apply_scale, Mat3.apply_identity,
      Mat3.apply_scale, Mat3.apply_scale, Mat3.apply_skew, Mat3.apply_outer, hHalf]
  · intro v
    rw [inverseLeftJacobian_apply, hInverseLeft]

theorem Placement.coupling_fromSeries (ρ : Vec3 ℝ) {φ : Vec3 ℝ} (h : φ.norm < 1e-2) (v : Vec3 ℝ) :
    let c := couplingSeries (φ.norm * φ.norm)
    (coupling ρ φ).apply v = Vec3.couple c.1 c.2.1 c.2.2 ρ φ v := by
  have hCoupling : Coefficient.coupling φ.norm = couplingSeries (φ.norm * φ.norm) := if_pos h
  rw [coupling_apply, hCoupling]

/-- Below its threshold every Jacobian takes its coefficients from the series, and each of these is
near the closed form that it replaces. -/
theorem Coefficient.series_near_closed {θ : ℝ} (hPos : 0 < θ) :
    (θ < 1e-4 →
      (∀ w : Vec3 ℝ, w.norm = θ → Rotation.FromSeries w) ∧
      (|(logSeries (θ * θ)).1 - (logClosed θ).1| ≤ θ ^ 4 / 720 ∧
        |(logSeries (θ * θ)).2 - (logClosed θ).2| ≤ θ ^ 4 / 720) ∧
      (|(expSeries (θ * θ)).1 - (expClosed θ).1| ≤ θ ^ 4 / 720 ∧
        |(expSeries (θ * θ)).2 - (expClosed θ).2| ≤ θ ^ 4 / 720) ∧
      |inverseLeftSeries (θ * θ) - inverseLeftClosed θ| ≤ θ ^ 4 / 720) ∧
    (θ < 1e-2 →
      (∀ ρ φ v : Vec3 ℝ, φ.norm = θ → (Placement.coupling ρ φ).apply v =
        Vec3.couple (couplingSeries (θ * θ)).1 (couplingSeries (θ * θ)).2.1
          (couplingSeries (θ * θ)).2.2 ρ φ v) ∧
      |(couplingSeries (θ * θ)).1 - (couplingClosed θ).1| ≤ θ ^ 4 / 720 ∧
      |(couplingSeries (θ * θ)).2.1 - (couplingClosed θ).2.1| ≤ θ ^ 4 / 720 ∧
      |(couplingSeries (θ * θ)).2.2 - (couplingClosed θ).2.2| ≤ θ ^ 4 / 720) := by
  constructor
  · intro hSmall
    have hOne : θ ≤ 1 := hSmall.le.trans (by norm_num)
    refine ⟨?_, logSeries_near hPos hOne, expSeries_near hPos, inverseLeftSeries_near hPos hOne⟩
    rintro w rfl
    exact Rotation.fromSeries hSmall
  · intro hSmall
    refine ⟨?_, couplingSeries_near hPos⟩
    rintro ρ φ v rfl
    exact Placement.coupling_fromSeries ρ hSmall v

theorem Coefficient.series_near_closed_tilt :
    let w : Vec3 ℝ := ⟨3e-5, 0, 4e-5⟩
    let φ : Vec3 ℝ := ⟨0, 3e-3, 4e-3⟩
    (0 < w.norm ∧ w.norm < 1e-4 ∧ Rotation.FromSeries w ∧
      |(logSeries (w.norm * w.norm)).1 - (logClosed w.norm).1| ≤ w.norm ^ 4 / 720 ∧
      |(expSeries (w.norm * w.norm)).2 - (expClosed w.norm).2| ≤ w.norm ^ 4 / 720 ∧
      |inverseLeftSeries (w.norm * w.norm) - inverseLeftClosed w.norm| ≤ w.norm ^ 4 / 720) ∧
    (0 < φ.norm ∧ φ.norm < 1e-2 ∧
      (Placement.coupling w φ).apply w =
        Vec3.couple (couplingSeries (φ.norm * φ.norm)).1 (couplingSeries (φ.norm * φ.norm)).2.1
          (couplingSeries (φ.norm * φ.norm)).2.2 w φ w ∧
      |(couplingSeries (φ.norm * φ.norm)).2.2 - (couplingClosed φ.norm).2.2| ≤
        φ.norm ^ 4 / 720) := by
  intro w φ
  have hw : w.norm = 5e-5 := by
    apply Vec3.norm_eq_of_normSq (by norm_num)
    norm_num [w, Vec3.normSq, Vec3.dot]
  have hφ : φ.norm = 5e-3 := by
    apply Vec3.norm_eq_of_normSq (by norm_num)
    norm_num [φ, Vec3.normSq, Vec3.dot]
  have hwPos : 0 < w.norm := by
    rw [hw]
    norm_num
  have hφPos : 0 < φ.norm := by
    rw [hφ]
    norm_num
  have hwSmall : w.norm < 1e-4 := by
    rw [hw]
    norm_num
  have hφSmall : φ.norm < 1e-2 := by
    rw [hφ]
    norm_num
  obtain ⟨hSeries, hLog, hExp, hInverseLeft⟩ := (series_near_closed hwPos).1 hwSmall
  obtain ⟨hCoupling, -, -, hThird⟩ := (series_near_closed hφPos).2 hφSmall
  exact ⟨⟨hwPos, hwSmall, hSeries w rfl, hLog.1, hExp.2, hInverseLeft⟩,
    hφPos, hφSmall, hCoupling w φ w rfl, hThird⟩

end MultibodyCost
