import MultibodyCost.Activation
import MultibodyCost.Proofs.Extended

/-! # Distance from an interval

Half the squared distance of a number from an interval, with the excess as its slope and a
curvature of one on the bounds and outside. Taking the excess away from a number leaves the nearest
point of the interval; everything between two numbers follows from that, wherever the bounds lie
between them. Near a number that is on no bound, the three are those of one parabola.
-/

namespace MultibodyCost

open Filter Topology

structure Parabola where
  value : ℝ
  slope : ℝ
  curve : ℝ

noncomputable def Parabola.eval (p : Parabola) (t : ℝ) : ℝ :=
  p.value + p.slope * t + 0.5 * (p.curve * (t * t))

namespace Bounds

structure Proper (bounds : EReal × EReal) : Prop where
  ordered : bounds.1 ≤ bounds.2
  lower : bounds.1 ≠ ⊤
  upper : bounds.2 ≠ ⊥

structure Within (bounds : EReal × EReal) (q : ℝ) : Prop where
  lower : bounds.1 ≤ q
  upper : q ≤ bounds.2

/-- The number `x - e` is the point of the interval nearest to `x`: it lies in the interval, and the
others on the other side of it from `x`. -/
structure Surplus (bounds : EReal × EReal) (x e : ℝ) : Prop where
  within : Within bounds (x - e)
  outward : ∀ q, Within bounds q → 0 ≤ e * (x - e - q)

variable {bounds : EReal × EReal} {x y e f : ℝ}

theorem Proper.position (h : Proper bounds) (x : ℝ) :
    (∃ u : ℝ, bounds.2 = u ∧ u < x) ∨ (∃ l : ℝ, bounds.1 = l ∧ x < l) ∨ Within bounds x := by
  by_cases hAbove : bounds.2 < x
  · lift bounds.2 to ℝ using ⟨(hAbove.trans_le le_top).ne, h.upper⟩ with u hu
    exact .inl ⟨u, rfl, EReal.coe_lt_coe_iff.mp hAbove⟩
  · by_cases hBelow : (x : EReal) < bounds.1
    · lift bounds.1 to ℝ using ⟨h.lower, (bot_le.trans_lt hBelow).ne'⟩ with l hl
      exact .inr (.inl ⟨l, rfl, EReal.coe_lt_coe_iff.mp hBelow⟩)
    · exact .inr (.inr ⟨not_lt.mp hBelow, not_lt.mp hAbove⟩)

theorem excess_of_above {u : ℝ} (hu : bounds.2 = u) (hx : u < x) :
    excess bounds (x : EReal) = ((x - u : ℝ) : EReal) := by
  rw [excess, hu, if_pos (EReal.coe_lt_coe_iff.mpr hx)]
  exact (EReal.coe_sub _ _).symm

theorem Proper.excess_of_below (h : Proper bounds) {l : ℝ} (hl : bounds.1 = l) (hx : x < l) :
    excess bounds (x : EReal) = ((x - l : ℝ) : EReal) := by
  have hBelow : (x : EReal) < bounds.1 := hl ▸ EReal.coe_lt_coe_iff.mpr hx
  rw [excess, if_neg (hBelow.trans_le h.ordered).le.not_gt, if_pos hBelow, hl]
  exact (EReal.coe_sub _ _).symm

theorem Within.excess (h : Within bounds x) : excess bounds (x : EReal) = ((0 : ℝ) : EReal) := by
  rw [Bounds.excess, if_neg h.upper.not_gt, if_neg h.lower.not_gt]
  rfl

theorem Proper.exists_surplus (h : Proper bounds) (x : ℝ) :
    ∃ e : ℝ, Bounds.excess bounds (x : EReal) = e ∧ Surplus bounds x e := by
  obtain ⟨u, hu, hx⟩ | ⟨l, hl, hx⟩ | hx := h.position x
  · refine ⟨_, excess_of_above hu hx, ?_, fun q hq => ?_⟩
    · rw [sub_sub_cancel]
      exact ⟨h.ordered.trans_eq hu, hu.ge⟩
    · have hq' : q ≤ u := EReal.coe_le_coe_iff.mp (hu ▸ hq.upper)
      rw [sub_sub_cancel]
      exact mul_nonneg (sub_nonneg.mpr hx.le) (sub_nonneg.mpr hq')
  · refine ⟨_, h.excess_of_below hl hx, ?_, fun q hq => ?_⟩
    · rw [sub_sub_cancel]
      exact ⟨hl.le, hl.symm.le.trans h.ordered⟩
    · have hq' : l ≤ q := EReal.coe_le_coe_iff.mp (hl ▸ hq.lower)
      rw [sub_sub_cancel]
      exact mul_nonneg_of_nonpos_of_nonpos (sub_nonpos.mpr hx.le) (sub_nonpos.mpr hq')
  · refine ⟨0, hx.excess, ?_, fun q _ => (zero_mul _).ge⟩
    rw [sub_zero]
    exact hx

noncomputable def parabola (bounds : EReal × EReal) (x : ℝ) : Parabola :=
  let e := (excess bounds (x : EReal)).toReal
  ⟨0.5 * (e * e), e, if (x : EReal) ≤ bounds.1 ∨ bounds.2 ≤ x then 1 else 0⟩

theorem parabola_of_excess {c : ℝ} (h : excess bounds (x : EReal) = c) :
    (parabola bounds x).value = 0.5 * (c * c) ∧ (parabola bounds x).slope = c := by
  rw [parabola, h, EReal.toReal_coe]
  exact ⟨rfl, rfl⟩

theorem Proper.surplus (h : Proper bounds) (x : ℝ) :
    Surplus bounds x (parabola bounds x).slope := by
  obtain ⟨e, hExcess, hSurplus⟩ := h.exists_surplus x
  rw [(parabola_of_excess hExcess).2]
  exact hSurplus

theorem Proper.excess_eq_slope (h : Proper bounds) (x : ℝ) :
    excess bounds (x : EReal) = (parabola bounds x).slope := by
  obtain ⟨e, hExcess, -⟩ := h.exists_surplus x
  rw [hExcess, (parabola_of_excess hExcess).2]

/-- The left side is half the square of what the excess changes by, and its product with the way
between the nearest points. -/
theorem Surplus.gap_nonneg (hx : Surplus bounds x e) (hy : Surplus bounds y f) :
    0 ≤ 0.5 * (f * f) - 0.5 * (e * e) - e * (y - x) := by
  have hOutward := hx.outward (y - f) hy.within
  calc (0 : ℝ) ≤ 0.5 * ((f - e) * (f - e)) + e * (x - e - (y - f)) :=
        add_nonneg (mul_nonneg (by norm_num) (mul_self_nonneg _)) hOutward
    _ = 0.5 * (f * f) - 0.5 * (e * e) - e * (y - x) := by ring

theorem Surplus.gap_le (hx : Surplus bounds x e) (hy : Surplus bounds y f) :
    0.5 * (f * f) - 0.5 * (e * e) - e * (y - x) ≤ 0.5 * ((y - x) * (y - x)) := by
  have hOutward := hy.outward (x - e) hx.within
  have hWay : 0.5 * ((y - x) * (y - x)) - (0.5 * (f * f) - 0.5 * (e * e) - e * (y - x)) =
      0.5 * ((y - f - (x - e)) * (y - f - (x - e))) + f * (y - f - (x - e)) := by ring
  refine sub_nonneg.mp (hWay ▸ ?_)
  exact add_nonneg (mul_nonneg (by norm_num) (mul_self_nonneg _)) hOutward

theorem Proper.gap_nonneg (h : Proper bounds) (x t : ℝ) :
    0 ≤ (parabola bounds (x + t)).value - (parabola bounds x).value -
      (parabola bounds x).slope * t := by
  have hGap := (h.surplus x).gap_nonneg (h.surplus (x + t))
  rwa [add_sub_cancel_left] at hGap

theorem Proper.gap_le (h : Proper bounds) (x t : ℝ) :
    (parabola bounds (x + t)).value - (parabola bounds x).value - (parabola bounds x).slope * t ≤
      0.5 * (t * t) := by
  have hGap := (h.surplus x).gap_le (h.surplus (x + t))
  rwa [add_sub_cancel_left] at hGap

theorem tendsto_add (x : ℝ) : Tendsto (fun t : ℝ => ((x + t : ℝ) : EReal)) (𝓝 0) (𝓝 x) := by
  have hContinuous : Continuous fun t : ℝ => ((x + t : ℝ) : EReal) :=
    continuous_coe_real_ereal.comp (continuous_const.add continuous_id)
  simpa using hContinuous.tendsto 0

theorem eval_parabola_of_excess {t c : ℝ} (hx : excess bounds (x : EReal) = ((x - c : ℝ) : EReal))
    (hy : excess bounds ((x + t : ℝ) : EReal) = ((x + t - c : ℝ) : EReal))
    (hCurve : (parabola bounds x).curve = 1) :
    (parabola bounds (x + t)).value = (parabola bounds x).eval t := by
  rw [Parabola.eval, hCurve, (parabola_of_excess hx).1, (parabola_of_excess hx).2,
    (parabola_of_excess hy).1]
  ring

theorem Proper.eventually_eq (h : Proper bounds) (hLower : bounds.1 ≠ x) (hUpper : bounds.2 ≠ x) :
    ∀ᶠ t in 𝓝 (0 : ℝ), (parabola bounds (x + t)).value = (parabola bounds x).eval t := by
  obtain ⟨u, hu, hx⟩ | ⟨l, hl, hx⟩ | hx := h.position x
  · have hOut : bounds.2 ≤ x := hu ▸ (EReal.coe_lt_coe_iff.mpr hx).le
    filter_upwards [(tendsto_add x).eventually_const_lt (EReal.coe_lt_coe_iff.mpr hx)] with t ht
    exact eval_parabola_of_excess (excess_of_above hu hx)
      (excess_of_above hu (EReal.coe_lt_coe_iff.mp ht)) (if_pos (.inr hOut))
  · have hOut : (x : EReal) ≤ bounds.1 := hl ▸ (EReal.coe_lt_coe_iff.mpr hx).le
    filter_upwards [(tendsto_add x).eventually_lt_const (EReal.coe_lt_coe_iff.mpr hx)] with t ht
    exact eval_parabola_of_excess (h.excess_of_below hl hx)
      (h.excess_of_below hl (EReal.coe_lt_coe_iff.mp ht)) (if_pos (.inl hOut))
  · have hl : bounds.1 < x := lt_of_le_of_ne hx.lower hLower
    have hu : x < bounds.2 := lt_of_le_of_ne hx.upper hUpper.symm
    filter_upwards [(tendsto_add x).eventually_const_lt hl, (tendsto_add x).eventually_lt_const hu]
      with t htl htu
    have hFlat : (parabola bounds x).curve = 0 := if_neg (not_or.mpr ⟨hl.not_ge, hu.not_ge⟩)
    have hStep : Within bounds (x + t) := ⟨htl.le, htu.le⟩
    rw [Parabola.eval, hFlat, (parabola_of_excess hx.excess).1, (parabola_of_excess hx.excess).2,
      (parabola_of_excess hStep.excess).1]
    ring

theorem Proper.eventually_le (h : Proper bounds) (x : ℝ) :
    ∀ᶠ t in 𝓝 (0 : ℝ), (parabola bounds (x + t)).value ≤ (parabola bounds x).eval t := by
  by_cases hReaches : (x : EReal) ≤ bounds.1 ∨ bounds.2 ≤ x
  -- With a curvature of one the parabola is above everywhere.
  · refine .of_forall fun t => ?_
    have hCurve : (parabola bounds x).curve = 1 := if_pos hReaches
    rw [Parabola.eval, hCurve, one_mul]
    linarith [h.gap_le x t]
  · obtain ⟨hl, hu⟩ := not_or.mp hReaches
    exact (h.eventually_eq (not_le.mp hl).ne (not_le.mp hu).ne').mono fun t ht => ht.le

theorem Proper.eventually_near (h : Proper bounds) (x : ℝ) : ∀ᶠ t in 𝓝 (0 : ℝ),
    (parabola bounds (x + t)).value ≤ (parabola bounds x).eval t ∧
      (bounds.1 ≠ x → bounds.2 ≠ x →
        (parabola bounds (x + t)).value = (parabola bounds x).eval t) := by
  refine (h.eventually_le x).and ?_
  by_cases hOn : bounds.1 = x ∨ bounds.2 = x
  · exact .of_forall fun t hLower hUpper => absurd hOn (not_or.mpr ⟨hLower, hUpper⟩)
  · obtain ⟨hLower, hUpper⟩ := not_or.mp hOn
    exact (h.eventually_eq hLower hUpper).mono fun t ht _ _ => ht

end Bounds

end MultibodyCost
