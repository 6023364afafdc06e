import MultibodyCost.Proofs.Real
import MultibodyCost.Proofs.Sum.Order
import MultibodyCost.Proofs.Sum.Passes

/-! # What the totals of a sum are

With exact arithmetic a total is what it was at the start plus a weighted sum over the items, and the
stack holds the block of every item at the rows behind those of the items before it. What an item
contributes does not depend on the other items: it is what the item computes alone.
-/

namespace MultibodyCost

namespace Totals

theorem enterAll_sum {enter : Totals ℝ → Nat → ℝ → CostData ℝ → Option (Totals ℝ)}
    {value : Totals ℝ → ℝ} {part : CostData ℝ → ℝ}
    (hEnter : ∀ t row w d t', enter t row w d = some t' → value t' = value t + w * part d)
    {xs : List (SumItem ℝ × CostData ℝ)} {row : Nat} {t out : Totals ℝ}
    (h : enterAll enter xs row t = some out) :
    value out = value t + (xs.map fun x => x.1.weight * part x.2).sum := by
  induction xs generalizing row t with
  | nil =>
    cases h
    exact (add_zero _).symm
  | cons x xs ih =>
    obtain ⟨t', hFirst, hRest⟩ := Option.bind_eq_some_iff.mp h
    rw [ih hRest, hEnter _ _ _ _ _ hFirst, List.map_cons, List.sum_cons, add_assoc]

end Totals

theorem Vec.entry_of_add_scale {v w out : Vec ℝ} {c : ℝ} (h : v.add? (w.scale c) = some out)
    (k : Nat) : out.entry k = v.entry k + c * w.entry k := by
  unfold add? at h
  split at h
  · rename_i hSize
    cases h
    rw [size_scale] at hSize
    rw [add, scale, entry_ofFn, entry_ofFn, hSize]
    split
    · rw [mul_comm]
    · rename_i hk
      have hBehind : ∀ u : Vec ℝ, u.size = w.size → u.entry k = 0 := by
        intro u hu
        simp [entry, Array.getD, hu, hk]
      rw [hBehind v hSize, hBehind w rfl, mul_zero, add_zero]
  · cases h

theorem Mat.entry_of_add_scale {m n out : Mat ℝ} {c : ℝ} (h : m.add? (n.scale c) = some out)
    (i j : Nat) : out.entry i j = m.entry i j + c * n.entry i j := by
  unfold add? at h
  split at h
  · rename_i hShape
    cases h
    rw [scale, rows_ofFn, cols_ofFn] at hShape
    rw [add, scale, entry_ofFn, entry_ofFn, hShape.1, hShape.2]
    split
    · rw [mul_comm]
    · rename_i hOutside
      have hm : m.entry i j = 0 := if_neg (hShape.1 ▸ hShape.2 ▸ hOutside)
      have hn : n.entry i j = 0 := if_neg hOutside
      rw [hm, hn, mul_zero, add_zero]
  · cases h

namespace CostSum

section Exact

noncomputable def total (s : CostSum ℝ) (part : Cost ℝ → ℝ) : ℝ :=
  (s.items.map fun x => x.2.weight * part x.2.cost).sum

/-- Data that combines what the items of a sum compute alone: every item has its own result, the cost
and its derivatives are weighted sums, and the stack holds the residuals of the items and their
Jacobians in the order of the names, each scaled by the root of its weight, without gap or overlap. -/
structure Combines (s : CostSum ℝ) (args : Arguments ℝ) (d : SumData ℝ) : Prop where
  alone : ∀ x ∈ s.items, x.2.cost.differentiate args true x.2.cost.createData =
    .done (x.2.cost.alone args)
  items : d.items = s.itemsBy fun c => c.alone args
  cost : d.totals.cost = s.total fun c => (c.alone args).cost
  lx : ∀ k, d.totals.lx.entry k = s.total fun c => (c.alone args).lx.entry k
  lu : ∀ k, d.totals.lu.entry k = s.total fun c => (c.alone args).lu.entry k
  lxx : ∀ i j, d.totals.lxx.entry i j = s.total fun c => (c.alone args).lxx.entry i j
  lxu : ∀ i j, d.totals.lxu.entry i j = s.total fun c => (c.alone args).lxu.entry i j
  luu : ∀ i j, d.totals.luu.entry i j = s.total fun c => (c.alone args).luu.entry i j
  shape : d.totals.blank = s.createData.totals.blank
  order : s.items.Sorted
  rows : Tiles 0 s.nr s.rowSlices
  r : ∀ i name item, s.items[i]? = some (name, item) →
    d.totals.r.slice (s.row i) item.cost.nr = (item.cost.alone args).r.scale (√item.weight)
  rx : ∀ i name item, s.items[i]? = some (name, item) →
    d.totals.rx.band (s.row i) item.cost.nr = (item.cost.alone args).rx.scale (√item.weight)
  ru : ∀ i name item, s.items[i]? = some (name, item) →
    d.totals.ru.band (s.row i) item.cost.nr = (item.cost.alone args).ru.scale (√item.weight)

variable {s : CostSum ℝ} {enter : Totals ℝ → Nat → ℝ → CostData ℝ → Option (Totals ℝ)}
  {f g : Cost ℝ → CostData ℝ} {t out : Totals ℝ}

theorem total_congr {part other : Cost ℝ → ℝ}
    (h : ∀ x ∈ s.items, part x.2.cost = other x.2.cost) : s.total part = s.total other := by
  unfold total
  rw [List.map_congr_left fun x hx => congrArg (x.2.weight * ·) (h x hx)]

theorem total_of_enterAll (value : Totals ℝ → ℝ) (part : CostData ℝ → ℝ)
    (hEnter : ∀ t row w d t', enter t row w d = some t' → value t' = value t + w * part d)
    (hZero : value t = 0) (h : Totals.enterAll enter (s.entriesBy f) 0 t = some out) :
    value out = s.total fun c => part (f c) := by
  rw [Totals.enterAll_sum hEnter h, hZero, zero_add, entriesBy, List.map_map]
  rfl

theorem vector_of_enterAll (vector : Totals ℝ → Vec ℝ) (part : CostData ℝ → Vec ℝ)
    (hEnter : ∀ t row w d t', enter t row w d = some t' →
      (vector t).add? ((part d).scale w) = some (vector t'))
    (hZero : ∀ k, (vector t).entry k = 0)
    (h : Totals.enterAll enter (s.entriesBy f) 0 t = some out) (k : Nat) :
    (vector out).entry k = s.total fun c => (part (f c)).entry k :=
  total_of_enterAll (fun t => (vector t).entry k) (fun d => (part d).entry k)
    (fun t row w d t' h => Vec.entry_of_add_scale (hEnter t row w d t' h) k) (hZero k) h

theorem matrix_of_enterAll (matrix : Totals ℝ → Mat ℝ) (part : CostData ℝ → Mat ℝ)
    (hEnter : ∀ t row w d t', enter t row w d = some t' →
      (matrix t).add? ((part d).scale w) = some (matrix t'))
    (hZero : ∀ i j, (matrix t).entry i j = 0)
    (h : Totals.enterAll enter (s.entriesBy f) 0 t = some out) (i j : Nat) :
    (matrix out).entry i j = s.total fun c => (part (f c)).entry i j :=
  total_of_enterAll (fun t => (matrix t).entry i j) (fun d => (part d).entry i j)
    (fun t row w d t' h => Mat.entry_of_add_scale (hEnter t row w d t' h) i j) (hZero i j) h

theorem stack_of_enterAll {β : Type} (read : Totals ℝ → Nat → Nat → β) (block : ℝ → CostData ℝ → β)
    (hBlock : ∀ t row (c : Cost ℝ) w d t', c.Sized d → enter t row w d = some t' →
      read t' row c.nr = block w d)
    (hBefore : ∀ t row w d t' i n, i + n ≤ row → enter t row w d = some t' → read t' i n = read t i n)
    (hSized : ∀ c : Cost ℝ, c.Sized (f c)) (h : Totals.enterAll enter (s.entriesBy f) 0 t = some out) :
    ∀ i name item, s.items[i]? = some (name, item) →
      read out (s.row i) item.cost.nr = block item.weight (f item.cost) := by
  intro i name item hItem
  have hEntry : (s.entriesBy f)[i]? = some (item, f item.cost) := by
    rw [entriesBy, List.getElem?_map, hItem]
    rfl
  have hAll : ∀ x ∈ s.entriesBy f, x.1.cost.Sized x.2 := by
    intro x hx
    obtain ⟨y, -, rfl⟩ := List.mem_map.mp hx
    exact hSized y.2.cost
  have hRead := Totals.enterAll_stack hBlock hBefore hAll h hEntry
  rw [entriesBy, List.map_map, Nat.zero_add] at hRead
  exact hRead

structure Passes (s : CostSum ℝ) (args : Arguments ℝ) (mid out : SumData ℝ) : Prop where
  alone : ∀ x ∈ s.items, x.2.cost.differentiate args true x.2.cost.createData =
    .done (x.2.cost.alone args)
  values : ∀ x ∈ s.items, (x.2.cost.evaluated args).values = (x.2.cost.alone args).values
  items : out.items = s.itemsBy fun c => c.alone args
  first : Totals.enterAll Totals.addValue? (s.entriesBy fun c => c.evaluated args) 0
    { s.createData.totals with cost := 0 } = some mid.totals
  second : Totals.enterAll Totals.addDerivatives? (s.entriesBy fun c => c.alone args) 0
    mid.totals.clear = some out.totals

theorem exists_passes {args : Arguments ℝ} {out : SumData ℝ}
    (h : s.differentiate args true s.createData = .done out) : ∃ mid, s.Passes args mid out := by
  have hResult := Outcome.result_eq_ok_iff.mpr h
  rw [differentiate_eq, if_pos rfl, Outcome.result_andThen] at hResult
  obtain ⟨mid, hEvaluate, hDerive⟩ := bind_eq_ok.mp hResult
  obtain ⟨-, -, hFirst⟩ := of_checked (Outcome.result_eq_ok_iff.mp hEvaluate)
  obtain ⟨hEvaluated, hMid, hValues⟩ :=
    of_pass_itemsBy (f := Cost.createData) rfl (Outcome.result_eq_ok_iff.mpr hFirst)
  obtain ⟨hDerived, hOut, hTotals⟩ := of_pass_itemsBy (f := fun c => c.evaluated args) hMid hDerive
  have hParts : ∀ x ∈ s.items, _ := fun x hx =>
    Cost.alone_of_parts (hEvaluated x hx) (hDerived x hx)
  have hItems : s.itemsBy (fun c => (c.differentiate args false (c.evaluated args)).data) =
      s.itemsBy fun c => c.alone args :=
    List.map_congr_left fun x hx => congrArg (Prod.mk x.1) (hParts x hx).2.1
  have hEntries : s.entriesBy (fun c => (c.differentiate args false (c.evaluated args)).data) =
      s.entriesBy fun c => c.alone args :=
    List.map_congr_left fun x hx => congrArg (Prod.mk x.2) (hParts x hx).2.1
  refine ⟨mid, ?_, ?_, hOut.trans hItems, hValues, hEntries ▸ hTotals⟩
  · intro x hx
    obtain ⟨hWhole, hSame, -⟩ := hParts x hx
    rw [hWhole, hSame]
  · intro x hx
    obtain ⟨-, hSame, hKept⟩ := hParts x hx
    rw [hKept, hSame]

theorem Passes.combines (hCounted : s.Counted) (hSorted : s.items.Sorted) {args : Arguments ℝ}
    {mid out : SumData ℝ} (h : s.Passes args mid out)
    (hBlank : out.totals.blank = s.createData.totals.blank) : s.Combines args out := by
  obtain ⟨hAlone, hValues, hItems, hFirst, hSecond⟩ := h
  have hFixed := Totals.enterAll_fixed (f := fun t => (t.r, t.cost))
    (fun t row w d t' h => Prod.ext_iff.mpr (Totals.addDerivatives?_eq_some h).values) hSecond
  obtain ⟨hR, hCost⟩ := Prod.mk.inj hFixed
  -- Residual and cost are those of the first pass, which the second leaves alone.
  constructor
  · exact hAlone
  · exact hItems
  · rw [hCost]
    have hSum := total_of_enterAll Totals.cost CostData.cost
      (fun t row w d t' h => (Totals.addValue?_eq_some h).2) rfl hFirst
    exact hSum.trans (total_congr fun x hx => congrArg Prod.snd (hValues x hx))
  · exact vector_of_enterAll Totals.lx CostData.lx
      (fun t row w d t' h => (Totals.addDerivatives?_eq_some h).lx) (Vec.entry_zeros _) hSecond
  · exact vector_of_enterAll Totals.lu CostData.lu
      (fun t row w d t' h => (Totals.addDerivatives?_eq_some h).lu) (Vec.entry_zeros _) hSecond
  · exact matrix_of_enterAll Totals.lxx CostData.lxx
      (fun t row w d t' h => (Totals.addDerivatives?_eq_some h).lxx) (Mat.entry_zeros _ _) hSecond
  · exact matrix_of_enterAll Totals.lxu CostData.lxu
      (fun t row w d t' h => (Totals.addDerivatives?_eq_some h).lxu) (Mat.entry_zeros _ _) hSecond
  · exact matrix_of_enterAll Totals.luu CostData.luu
      (fun t row w d t' h => (Totals.addDerivatives?_eq_some h).luu) (Mat.entry_zeros _ _) hSecond
  · exact hBlank
  · exact hSorted
  · exact hCounted.tiles
  · intro i name item hItem
    have hStack := stack_of_enterAll (fun t i n => t.r.slice i n)
      (fun w d => d.r.scale (√w))
      (fun t row c w d t' hSized h => Totals.slice_of_addValue hSized h)
      (fun t row w d t' i n hRow h => Totals.slice_before_addValue hRow h)
      (fun c => c.sized_evaluated args) hFirst i name item hItem
    have hSame := hValues _ (List.mem_of_getElem? hItem)
    rw [hR]
    exact hStack.trans (congrArg (Vec.scale · _) (congrArg Prod.fst hSame))
  · exact stack_of_enterAll (fun t i n => t.rx.band i n)
      (fun w d => d.rx.scale (√w))
      (fun t row c w d t' hSized h => Totals.band_rx_of_addDerivatives hSized h)
      (fun t row w d t' i n hRow h =>
        Mat.band_before_placeRows? hRow (Totals.addDerivatives?_eq_some h).rx)
      (fun c => c.sized_alone args) hSecond
  · exact stack_of_enterAll (fun t i n => t.ru.band i n)
      (fun w d => d.ru.scale (√w))
      (fun t row c w d t' hSized h => Totals.band_ru_of_addDerivatives hSized h)
      (fun t row w d t' i n hRow h =>
        Mat.band_before_placeRows? hRow (Totals.addDerivatives?_eq_some h).ru)
      (fun c => c.sized_alone args) hSecond

/-- Whatever was done on the data before, a differentiation that is done combines what the items compute
alone. -/
theorem combines_of_done (state : Multibody ℝ) (nu : Nat) (es : List (Edit ℝ)) {args : Arguments ℝ}
    {d out : SumData ℝ} :
    let s := (empty state nu).edited es
    s.kept d = s.kept s.createData → s.differentiate args true d = .done out → s.Combines args out := by
  intro s hKept h
  have hCounted : s.Counted := counted_edited state nu es
  have hFresh : s.differentiate args true s.createData = .done out := by
    apply Outcome.result_eq_ok_iff.mp
    rw [← differentiate_of_kept hCounted hKept]
    exact Outcome.result_eq_ok_iff.mpr h
  have hOut := s.kept_differentiate args true s.createData
  rw [hFresh] at hOut
  obtain ⟨mid, hPasses⟩ := exists_passes hFresh
  exact hPasses.combines hCounted (sorted_edited (sorted_empty state nu) es)
    (congrArg SumKept.totals hOut)

/-- For every sum that a run of changes leads to: a differentiation on fresh data that is done combines
what the items compute alone; and a run that leads to the same costs under the same names leads to
the same data and the same results. -/
theorem differentiate_combines (state : Multibody ℝ) (nu : Nat) (es : List (Edit ℝ)) :
    let s := (empty state nu).edited es
    (∀ args d, s.differentiate args true s.createData = .done d → s.Combines args d) ∧
    ∀ es', let s' := (empty state nu).edited es'
      (∀ name, s.items.find? name = s'.items.find? name) →
        s.createData = s'.createData ∧ ∀ args,
          s.differentiate args true s.createData = s'.differentiate args true s'.createData := by
  intro s
  constructor
  · intro args d hDone
    exact combines_of_done state nu es rfl hDone
  · intro es' s' hFind
    have hSame : s = s' := edited_eq_of_find? state nu hFind
    rw [hSame]
    exact ⟨rfl, fun args => rfl⟩

noncomputable def hingeAxis : Multibody ℝ := ⟨Model.empty.pushJoint "hinge" .revolute none (-1) 1⟩

noncomputable def effortCost : ResidualCost ℝ where
  state := hingeAxis
  activation := .quadratic 1
  nu := 1
  residual := .control #[0]
  accepted := rfl
  nu_eq := by
    rintro _ ⟨⟩
    rfl

noncomputable def postureCost : ResidualCost ℝ where
  state := hingeAxis
  activation := .quadratic 2
  nu := 1
  residual := .state #[0, 0]
  accepted := rfl
  nu_eq := nofun

/-- The effort comes second, with a weight that is changed by removing it and adding it again. -/
noncomputable def heldRun : List (Edit ℝ) :=
  [.add "posture" (.residual postureCost) 0.5, .add "effort" (.residual effortCost) 1,
    .remove "effort", .add "effort" (.residual effortCost) 0.25]

noncomputable def held : CostSum ℝ := (empty hingeAxis 1).edited heldRun

theorem edit_add {s : CostSum ℝ} {name : String} {cost : Cost ℝ} {weight : ℝ}
    (hFree : s.items.find? name = none) (hNu : cost.nu = s.nu) (hWeight : 0 ≤ weight) :
    s.edit (.add name cost weight) = s.insertItem name cost weight := by
  have hFault : s.addFault? name cost weight = none :=
    addFault?_eq_none_iff.mpr ⟨Named.find?_eq_none_iff.mp hFree, hNu, rfl, not_lt.mpr hWeight⟩
  exact (add_eq_ok hFault).2

theorem held_eq : held = ⟨hingeAxis, [("effort", ⟨.residual effortCost, 0.25⟩),
    ("posture", ⟨.residual postureCost, 0.5⟩)], 1, 3⟩ := by
  rw [held, heldRun, edited, List.foldl_cons, edit_add rfl rfl (by norm_num), List.foldl_cons,
    edit_add rfl rfl (by norm_num)]
  exact edit_add rfl rfl (by norm_num)

noncomputable def heldArgs : Arguments ℝ := ⟨.zeros hingeAxis.model, #[1, -1], #[0.5]⟩

theorem held_done : ∃ d, held.differentiate heldArgs true held.createData = .done d := by
  apply Outcome.exists_done
  rw [held_eq]
  decide +kernel

noncomputable def heldPlainly : List (Edit ℝ) :=
  [.add "effort" (.residual effortCost) 0.25, .add "posture" (.residual postureCost) 0.5]

theorem differentiate_combines_held :
    (∃ d, held.differentiate heldArgs true held.createData = .done d ∧ held.Combines heldArgs d) ∧
    (∀ name, held.items.find? name = ((empty hingeAxis 1).edited heldPlainly).items.find? name) ∧
    held.differentiate heldArgs true held.createData =
      ((empty hingeAxis 1).edited heldPlainly).differentiate heldArgs true
        ((empty hingeAxis 1).edited heldPlainly).createData := by
  obtain ⟨hCombines, hHistory⟩ := differentiate_combines hingeAxis 1 heldRun
  have hFind : ∀ name,
      held.items.find? name = ((empty hingeAxis 1).edited heldPlainly).items.find? name := by
    have hPlain : (empty hingeAxis 1).edited heldPlainly = held := by
      rw [held_eq]
      rw [heldPlainly, edited, List.foldl_cons, edit_add rfl rfl (by norm_num)]
      exact edit_add rfl rfl (by norm_num)
    rw [hPlain]
    exact fun name => rfl
  obtain ⟨d, hDone⟩ := held_done
  exact ⟨⟨d, hDone, hCombines heldArgs d hDone⟩, hFind, (hHistory heldPlainly hFind).2 heldArgs⟩

end Exact

end CostSum

end MultibodyCost
