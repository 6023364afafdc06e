import MultibodyCost.Proofs.Sum.Curvature

/-! # Sums of squares are one square

Where all activations are half the squared norm, the stack of a sum is a residual for its totals: the
cost is half its squared norm and the derivatives are the products of its Jacobians. A product along
the rows of the stack splits at the rows where the items begin, and in the block of an item the two
roots of its weight multiply to the weight of its part in the total.
-/

namespace MultibodyCost

open Finset

/-- The cost is half the squared norm of the residual, and its derivatives are those of that, where
second derivatives of the residual are left out. -/
structure LeastSquares (r : Vec ℝ) (rx ru : Mat ℝ) (cost : ℝ) (lx lu : Vec ℝ) (lxx lxu luu : Mat ℝ) :
    Prop where
  cost_eq : 0.5 * r.normSq = cost
  lx_eq : rx.trMulVec r = lx
  lu_eq : ru.trMulVec r = lu
  lxx_eq : rx.trMul rx = lxx
  lxu_eq : rx.trMul ru = lxu
  luu_eq : ru.trMul ru = luu

theorem Cost.leastSquares {c : Cost ℝ} {args : Arguments ℝ} {d d' : CostData ℝ} {n : Nat}
    (hQuadratic : c.activation = .quadratic n) (hKept : c.kept d = c.kept c.createData)
    (h : c.differentiate args true d = .done d') :
    LeastSquares d'.r d'.rx d'.ru d'.cost d'.lx d'.lu d'.lxx d'.lxu d'.luu := by
  obtain ⟨d₀, hAssemble⟩ := exists_assemble h
  have hAssembled := assembled_of_assemble hAssemble
  have hShapes := derived_of_done (sized_of_kept hKept) h
  have hKept' := c.kept_differentiate args true d
  rw [h] at hKept'
  have hHessian : d'.activation.hessian = .identity n := by
    have hSame := congrArg Kept.hessian (hKept'.trans hKept)
    simp only [kept, createData, CostData.zeros, hQuadratic] at hSame
    exact hSame
  have hGradient : d'.activation.gradient = d'.r := by
    rw [hAssembled.gradient, hQuadratic, Activation.gradient]
  have hNr : c.nr = n := congrArg Activation.nr hQuadratic
  have hRx : (Mat.identity n).mul d'.rx = d'.rx := Mat.identity_mul (hShapes.rx.1.trans hNr)
  have hRu : (Mat.identity n).mul d'.ru = d'.ru := Mat.identity_mul (hShapes.ru.1.trans hNr)
  constructor
  · rw [cost_of_done h, hQuadratic, Activation.value]
  · rw [hAssembled.lx, hGradient]
  · rw [hAssembled.lu, hGradient]
  · rw [hAssembled.lxx, hHessian, hRx]
  · rw [hAssembled.lxu, hHessian, hRu]
  · rw [hAssembled.luu, hHessian, hRu]

namespace CostSum

variable {s : CostSum ℝ} {A B : Nat → ℝ} {p q : Cost ℝ → Nat → ℝ}

/-- A column of the stack: in the block of an item it is that item's column by the root of the
weight. -/
def Stacks (s : CostSum ℝ) (A : Nat → ℝ) (p : Cost ℝ → Nat → ℝ) : Prop :=
  ∀ i name item, s.items[i]? = some (name, item) →
    ∀ k, k < item.cost.nr → A (s.row i + k) = √item.weight * p item.cost k

theorem sum_blocks {f : Nat → ℝ} {g : SumItem ℝ → ℝ} (items : Named (SumItem ℝ)) (start : Nat)
    (h : ∀ i name item, items[i]? = some (name, item) →
      ∑ k ∈ range item.cost.nr, f (start + ((residuals items).take i).sum + k) = g item) :
    ∑ k ∈ range (residuals items).sum, f (start + k) = (items.map fun x => g x.2).sum := by
  induction items generalizing start with
  | nil => rfl
  | cons x items ih =>
    obtain ⟨name, item⟩ := x
    have hFirst := h 0 name item rfl
    have hRest := ih (start + item.cost.nr) fun i n other hOther => by
      have hNext := h (i + 1) n other hOther
      rw [residuals, List.map_cons, List.take_succ_cons, List.sum_cons] at hNext
      simpa only [residuals, Nat.add_assoc] using hNext
    rw [residuals, List.map_cons, List.sum_cons, sum_range_add, List.map_cons, List.sum_cons, ← hRest,
      ← hFirst]
    simp only [residuals, Nat.add_assoc, List.take_zero, List.sum_nil, Nat.zero_add]

theorem sum_mul_of_stacks (hCounted : s.Counted) (hWeights : ∀ x ∈ s.items, 0 ≤ x.2.weight)
    (hA : s.Stacks A p) (hB : s.Stacks B q) :
    ∑ k ∈ range s.nr, A k * B k = s.total fun c => ∑ k ∈ range c.nr, p c k * q c k := by
  have hBlocks := sum_blocks (f := fun k => A k * B k)
    (g := fun item => item.weight * ∑ k ∈ range item.cost.nr, p item.cost k * q item.cost k)
    s.items 0 ?_
  · simpa only [Nat.zero_add, ← hCounted.nr_eq, total] using hBlocks
  · intro i name item hItem
    have hRoot := Real.mul_self_sqrt (hWeights _ (List.mem_of_getElem? hItem))
    rw [Nat.zero_add, mul_sum]
    refine sum_congr rfl fun k hk => ?_
    have hk := mem_range.mp hk
    have hRowA := hA i name item hItem k hk
    have hRowB := hB i name item hItem k hk
    rw [row] at hRowA hRowB
    rw [hRowA, hRowB, mul_mul_mul_comm, hRoot]

variable {args : Arguments ℝ} {d : SumData ℝ}

theorem Combines.stacks_r (h : s.Combines args d) :
    s.Stacks (fun k => d.totals.r.entry k) fun c k => (c.alone args).r.entry k := by
  intro i name item hItem k hk
  have hEntry := congrArg (fun v : Vec ℝ => v.entry k) (h.r i name item hItem)
  simp only [Vec.entry_slice _ hk, Vec.entry_scale] at hEntry
  exact hEntry.trans (mul_comm _ _)

theorem stacks_of_bands {m : Mat ℝ} {part : Cost ℝ → Mat ℝ}
    (h : ∀ i name item, s.items[i]? = some (name, item) →
      m.band (s.row i) item.cost.nr = (part item.cost).scale √item.weight) (j : Nat) :
    s.Stacks (fun k => m.entry k j) fun c k => (part c).entry k j := by
  intro i name item hItem k hk
  have hEntry := congrArg (fun m : Mat ℝ => m.entry k j) (h i name item hItem)
  simp only [Mat.entry_scale] at hEntry
  rw [mul_comm, ← hEntry, Mat.band, Mat.entry_ofFn]
  split
  · rfl
  · rename_i hOutside
    have hj : m.cols ≤ j := Nat.not_lt.mp fun hj => hOutside ⟨hk, hj⟩
    exact Mat.entry_eq_zero (.inr hj)

theorem entry_trMulVec_of_stacks (hCounted : s.Counted) (hWeights : ∀ x ∈ s.items, 0 ≤ x.2.weight)
    {m : Mat ℝ} {v : Vec ℝ} {part : Cost ℝ → Mat ℝ} {vector : Cost ℝ → Vec ℝ} (hRows : m.rows = s.nr)
    (hPart : ∀ c, (part c).rows = c.nr) {i : Nat}
    (hm : s.Stacks (fun k => m.entry k i) fun c k => (part c).entry k i)
    (hv : s.Stacks (fun k => v.entry k) fun c k => (vector c).entry k) :
    (m.trMulVec v).entry i = s.total fun c => ((part c).trMulVec (vector c)).entry i := by
  simp only [Mat.entry_trMulVec, hRows, hPart]
  exact sum_mul_of_stacks hCounted hWeights hm hv

theorem entry_trMul_of_stacks (hCounted : s.Counted) (hWeights : ∀ x ∈ s.items, 0 ≤ x.2.weight)
    {m n : Mat ℝ} {part other : Cost ℝ → Mat ℝ} (hRows : m.rows = s.nr)
    (hPart : ∀ c, (part c).rows = c.nr) {i j : Nat}
    (hm : s.Stacks (fun k => m.entry k i) fun c k => (part c).entry k i)
    (hn : s.Stacks (fun k => n.entry k j) fun c k => (other c).entry k j) :
    (m.trMul n).entry i j = s.total fun c => ((part c).trMul (other c)).entry i j := by
  simp only [Mat.entry_trMul, hRows, hPart]
  exact sum_mul_of_stacks hCounted hWeights hm hn

theorem Combines.leastSquares (hCounted : s.Counted) (hWeights : ∀ x ∈ s.items, 0 ≤ x.2.weight)
    (hQuadratic : ∀ x ∈ s.items, ∃ n, x.2.cost.activation = .quadratic n) (h : s.Combines args d) :
    LeastSquares d.totals.r d.totals.rx d.totals.ru d.totals.cost d.totals.lx d.totals.lu
      d.totals.lxx d.totals.lxu d.totals.luu := by
  have hItems : ∀ x ∈ s.items, _ := fun x hx =>
    Cost.leastSquares (hQuadratic x hx).choose_spec rfl (h.alone x hx)
  have hPartX : ∀ c : Cost ℝ, (c.alone args).rx.rows = c.nr :=
    fun c => (c.sized_alone args).rx_shape.1
  have hPartU : ∀ c : Cost ℝ, (c.alone args).ru.rows = c.nr :=
    fun c => (c.sized_alone args).ru_shape.1
  have hR := h.stacks_r
  have hX : ∀ j, s.Stacks (fun k => d.totals.rx.entry k j) fun c k => (c.alone args).rx.entry k j :=
    stacks_of_bands h.rx
  have hU : ∀ j, s.Stacks (fun k => d.totals.ru.entry k j) fun c k => (c.alone args).ru.entry k j :=
    stacks_of_bands h.ru
  obtain ⟨hSize, hRx, hRu, hLx, hLu, hLxx, hLxu, hLuu⟩ := h.shaped
  constructor
  · rw [Vec.normSq, Vec.dot_eq_sum, hSize, h.cost, sum_mul_of_stacks hCounted hWeights hR hR, mul_total]
    refine total_congr fun x hx => ?_
    have hNr : (x.2.cost.alone args).r.size = x.2.cost.nr := (x.2.cost.sized_alone args).residual
    rw [← (hItems x hx).cost_eq, Vec.normSq, Vec.dot_eq_sum, hNr]
  · refine Vec.ext_entry ((Vec.size_ofFn _ _).trans (hRx.2.trans hLx.symm)) fun i _ => ?_
    rw [entry_trMulVec_of_stacks hCounted hWeights hRx.1 hPartX (hX i) hR, h.lx]
    exact total_congr fun x hx => congrArg (Vec.entry · i) (hItems x hx).lx_eq
  · refine Vec.ext_entry ((Vec.size_ofFn _ _).trans (hRu.2.trans hLu.symm)) fun i _ => ?_
    rw [entry_trMulVec_of_stacks hCounted hWeights hRu.1 hPartU (hU i) hR, h.lu]
    exact total_congr fun x hx => congrArg (Vec.entry · i) (hItems x hx).lu_eq
  · refine Mat.ext_entry (hRx.2.trans hLxx.1.symm) (hRx.2.trans hLxx.2.symm) fun i j _ _ => ?_
    rw [entry_trMul_of_stacks hCounted hWeights hRx.1 hPartX (hX i) (hX j), h.lxx]
    exact total_congr fun x hx => congrArg (Mat.entry · i j) (hItems x hx).lxx_eq
  · refine Mat.ext_entry (hRx.2.trans hLxu.1.symm) (hRu.2.trans hLxu.2.symm) fun i j _ _ => ?_
    rw [entry_trMul_of_stacks hCounted hWeights hRx.1 hPartX (hX i) (hU j), h.lxu]
    exact total_congr fun x hx => congrArg (Mat.entry · i j) (hItems x hx).lxu_eq
  · refine Mat.ext_entry (hRu.2.trans hLuu.1.symm) (hRu.2.trans hLuu.2.symm) fun i j _ _ => ?_
    rw [entry_trMul_of_stacks hCounted hWeights hRu.1 hPartU (hU i) (hU j), h.luu]
    exact total_congr fun x hx => congrArg (Mat.entry · i j) (hItems x hx).luu_eq

end CostSum

/-- For every sum that a run of changes leads to with quadratic activations only, on data that was
used for any calls before: the stack that a differentiation leaves is a residual whose squares the
totals are. -/
theorem stack_is_leastSquares (state : Multibody ℝ) (nu : Nat) (es : List (CostSum.Edit ℝ))
    (calls : List (Call ℝ)) (args : Arguments ℝ) (d : SumData ℝ) :
    let s := (CostSum.empty state nu).edited es
    (∀ x ∈ s.items, ∃ n, x.2.cost.activation = .quadratic n) →
    s.differentiate args true (s.after calls s.createData) = .done d →
      LeastSquares d.totals.r d.totals.rx d.totals.ru d.totals.cost d.totals.lx d.totals.lu
        d.totals.lxx d.totals.lxu d.totals.luu := by
  intro s hQuadratic hDone
  have hCombines : s.Combines args d :=
    CostSum.combines_of_done state nu es (s.kept_after calls s.createData) hDone
  exact hCombines.leastSquares (CostSum.counted_edited state nu es)
    (CostSum.weights_nonneg state nu es) hQuadratic

open CostSum in
theorem stack_is_leastSquares_held :
    (∀ x ∈ held.items, ∃ n, x.2.cost.activation = .quadratic n) ∧
    ∃ d, held.differentiate heldArgs true held.createData = .done d ∧
      LeastSquares d.totals.r d.totals.rx d.totals.ru d.totals.cost d.totals.lx d.totals.lu
        d.totals.lxx d.totals.lxu d.totals.luu := by
  have hQuadratic : ∀ x ∈ held.items, ∃ n, x.2.cost.activation = .quadratic n := by
    rw [held_eq]
    simp only [List.forall_mem_cons, List.not_mem_nil, false_imp_iff, implies_true, and_true]
    exact ⟨⟨1, rfl⟩, 2, rfl⟩
  obtain ⟨d, hDone⟩ := held_done
  exact ⟨hQuadratic, d, hDone, stack_is_leastSquares hingeAxis 1 heldRun [] heldArgs d hQuadratic hDone⟩

end MultibodyCost
