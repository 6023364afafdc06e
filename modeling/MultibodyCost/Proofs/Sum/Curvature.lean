import MultibodyCost.Proofs.Cost.Curvature
import MultibodyCost.Proofs.Sum.Meaning
import MultibodyCost.Proofs.Sum.Shapes

/-! # Sums curve upwards

The second derivatives of a sum are totals of those of its items, and the form of a total is the total
of the forms. The weights that a sum holds are not negative, so the total curves upwards where the
items do.
-/

namespace MultibodyCost

open Finset

namespace CostSum

variable {s : CostSum ℝ}

theorem total_zero (s : CostSum ℝ) : s.total (fun _ => 0) = 0 := by
  simp [total]

theorem total_add (p q : Cost ℝ → ℝ) :
    (s.total fun c => p c + q c) = s.total p + s.total q := by
  simp only [total, mul_add, List.sum_map_add]

theorem mul_total (r : ℝ) (p : Cost ℝ → ℝ) : r * s.total p = s.total fun c => r * p c := by
  simp only [total, ← List.sum_map_mul_left, mul_left_comm]

theorem sum_total (n : Nat) (p : Nat → Cost ℝ → ℝ) :
    ∑ i ∈ range n, s.total (p i) = s.total fun c => ∑ i ∈ range n, p i c := by
  induction n with
  | zero => simp only [range_zero, sum_empty, total_zero]
  | succ n ih => simp only [sum_range_succ, ih, total_add]

theorem total_nonneg {part : Cost ℝ → ℝ} (hWeights : ∀ x ∈ s.items, 0 ≤ x.2.weight)
    (hPart : ∀ x ∈ s.items, 0 ≤ part x.2.cost) : 0 ≤ s.total part := by
  apply List.sum_nonneg
  intro t ht
  obtain ⟨x, hx, rfl⟩ := List.mem_map.mp ht
  exact mul_nonneg (hWeights x hx) (hPart x hx)

theorem dot_mulVec_total {m : Mat ℝ} {part : Cost ℝ → Mat ℝ}
    (h : ∀ i j, m.entry i j = s.total fun c => (part c).entry i j) (a b : Vec ℝ) :
    a.dot (m.mulVec b) = s.total fun c => a.dot ((part c).mulVec b) := by
  simp only [Mat.dot_mulVec, h, mul_total, mul_comm _ (b.entry _), sum_total]

theorem weights_nonneg (state : Multibody ℝ) (nu : Nat) (es : List (Edit ℝ)) :
    ∀ x ∈ ((empty state nu).edited es).items, 0 ≤ x.2.weight :=
  fun x hx => not_lt.mp (admits_edited state nu es x hx).weight.2

theorem Combines.shaped {args : Arguments ℝ} {d : SumData ℝ} (h : s.Combines args d) :
    d.totals.Shaped s.nr s.state.ndx s.nu :=
  (Totals.shaped_zeros s.nr s.state.ndx s.nu).of_blank h.shape

theorem Combines.curvature {args : Arguments ℝ} {d : SumData ℝ} (h : s.Combines args d)
    (hWeights : ∀ x ∈ s.items, 0 ≤ x.2.weight) :
    Curvature s.state.ndx s.nu d.totals.cost d.totals.lxx d.totals.lxu d.totals.luu := by
  have hItems : ∀ x ∈ s.items, Curvature x.2.cost.state.ndx x.2.cost.nu (x.2.cost.alone args).cost
      (x.2.cost.alone args).lxx (x.2.cost.alone args).lxu (x.2.cost.alone args).luu :=
    fun x hx => Cost.curvature rfl (h.alone x hx)
  constructor
  · rw [h.cost]
    exact total_nonneg hWeights fun x hx => (hItems x hx).cost_nonneg
  · exact h.shaped.lxx
  · exact h.shaped.lxu
  · exact h.shaped.luu
  · intro i j
    rw [h.lxx, h.lxx]
    exact total_congr fun x hx => (hItems x hx).symm_xx i j
  · intro i j
    rw [h.luu, h.luu]
    exact total_congr fun x hx => (hItems x hx).symm_uu i j
  · intro a b
    rw [dot_mulVec_total h.lxx, dot_mulVec_total h.lxu, dot_mulVec_total h.luu, mul_total,
      ← total_add, ← total_add]
    exact total_nonneg hWeights fun x hx => (hItems x hx).form_nonneg a b

end CostSum

/-- Every cost, differences of costs included, and every sum that a run of changes leads to, on data
that was used for any calls before: a differentiation that is done leaves a cost that is not negative
and second derivatives that are symmetric and not negative in any joint direction. -/
theorem curves_upwards (args : Arguments ℝ) :
    (∀ (c : Cost ℝ) (calls : List (Call ℝ)) d,
      c.differentiate args true (c.after calls c.createData) = .done d →
        Curvature c.state.ndx c.nu d.cost d.lxx d.lxu d.luu) ∧
    ∀ (state : Multibody ℝ) (nu : Nat) (es : List (CostSum.Edit ℝ)) (calls : List (Call ℝ)) d,
      let s := (CostSum.empty state nu).edited es
      s.differentiate args true (s.after calls s.createData) = .done d →
        Curvature state.ndx nu d.totals.cost d.totals.lxx d.totals.lxu d.totals.luu := by
  constructor
  · intro c calls d hDone
    exact Cost.curvature (c.kept_after calls c.createData) hDone
  · intro state nu es calls d s hDone
    have hCombines : s.Combines args d :=
      CostSum.combines_of_done state nu es (s.kept_after calls s.createData) hDone
    obtain ⟨hState, hNu⟩ := CostSum.edited_fixed (CostSum.empty state nu) es
    have hCurvature := hCombines.curvature (CostSum.weights_nonneg state nu es)
    rw [show s.state = state from hState, show s.nu = nu from hNu] at hCurvature
    exact hCurvature

noncomputable def quotientPosture : Cost ℝ := .differences (.residual CostSum.postureCost) none 0.5

open CostSum in
theorem curves_upwards_held :
    (∃ d, quotientPosture.differentiate heldArgs true quotientPosture.createData = .done d ∧
      Curvature hingeAxis.ndx 1 d.cost d.lxx d.lxu d.luu) ∧
    ∃ d, held.differentiate heldArgs true (held.after [.evaluate heldArgs] held.createData) =
        .done d ∧
      Curvature hingeAxis.ndx 1 d.totals.cost d.totals.lxx d.totals.lxu d.totals.luu := by
  obtain ⟨hCosts, hSums⟩ := curves_upwards heldArgs
  constructor
  · obtain ⟨d, hDone⟩ := Outcome.exists_done
      (o := quotientPosture.differentiate heldArgs true quotientPosture.createData)
      (by decide +kernel)
    exact ⟨d, hDone, hCosts quotientPosture [] d hDone⟩
  · obtain ⟨d, hFresh⟩ := held_done
    have hCounted : held.Counted := counted_edited hingeAxis 1 heldRun
    have hDone : held.differentiate heldArgs true
        (held.after [.evaluate heldArgs] held.createData) = .done d := by
      apply Outcome.result_eq_ok_iff.mp
      rw [differentiate_of_kept hCounted (held.kept_after [.evaluate heldArgs] held.createData)]
      exact Outcome.result_eq_ok_iff.mpr hFresh
    exact ⟨d, hDone, hSums hingeAxis 1 heldRun [.evaluate heldArgs] d hDone⟩

end MultibodyCost
