import MultibodyCost.Proofs.Cost.Scaled
import MultibodyCost.Proofs.Sum.Bookkeeping
import MultibodyCost.Proofs.Sum.History
import MultibodyCost.Proofs.Sum.Meaning

/-! # Weights of items and weights of activations

The weight of an item may be moved into its activation: a sum in which the cost has `w` times the
activation and its item the weight one has the totals of the sum in which the item has the weight `w`.
Only the stacked residual and its Jacobians differ, as they are scaled by the root of the item's
weight. The two sums are followed through both passes, item beside item.
-/

namespace MultibodyCost

namespace Named

variable {β : Type}

theorem insert_append {before after : Named β} {name : String} {old : β}
    (h : Sorted (before ++ (name, old) :: after)) (value : β) :
    insert (before ++ after) name value = before ++ (name, value) :: after := by
  induction before with
  | nil =>
    cases after with
    | nil => rfl
    | cons x after =>
      have hLess : name < x.1 := (List.pairwise_cons.mp h).1 x.1 List.mem_cons_self
      exact if_pos hLess
  | cons x before ih =>
    obtain ⟨hHead, hTail⟩ := List.pairwise_cons.mp h
    have hMem : name ∈ names (before ++ (name, old) :: after) :=
      List.mem_map_of_mem (List.mem_append_right before List.mem_cons_self)
    have hLess : x.1 < name := hHead name hMem
    rw [List.cons_append, insert, if_neg (lt_asymm hLess), if_neg (ne_of_gt hLess), ih hTail]
    rfl

end Named

namespace CostSum

section Replaced

variable {α : Type} [Scalar α]

/-- The sum after the item of a name was removed and another was added under that name. -/
def replaced (s : CostSum α) (name : String) (cost : Cost α) (weight : α) : CostSum α :=
  ((s.remove name).sum.add name cost weight).sum

theorem exists_replaced {s : CostSum α} (hSorted : s.items.Sorted) (hCounted : s.Counted)
    {name : String} {item : SumItem α} (hFind : s.items.find? name = some item) {cost : Cost α}
    {weight : α} (hNr : cost.nr = item.cost.nr) (hNu : cost.nu = s.nu) (hWeight : ValidWeight weight) :
    ((s.remove name).sum.add name cost weight).result = .ok () ∧
      ∃ before after, s.items = before ++ (name, item) :: after ∧
        s.replaced name cost weight = { s with items := before ++ (name, ⟨cost, weight⟩) :: after } := by
  obtain ⟨before, after, hItems, hErase⟩ := Named.erase_eq hSorted.nodup hFind
  have hRemoved := (remove_eq_ok hFind).2
  have hFault : (s.remove name).sum.addFault? name cost weight = none := by
    rw [hRemoved]
    refine addFault?_eq_none_iff.mpr ⟨?_, hNu, hWeight⟩
    exact Named.not_mem_names_erase s.items name
  obtain ⟨hOk, hSum⟩ := add_eq_ok hFault
  refine ⟨hOk, before, after, hItems, ?_⟩
  have hCount : s.nr - item.cost.nr + cost.nr = s.nr := by
    have hTotal := hCounted.nr_eq
    rw [hItems, residuals, List.map_append, List.map_cons, List.sum_append, List.sum_cons] at hTotal
    dsimp only at hTotal
    omega
  rw [replaced, hSum, hRemoved, insertItem, eraseItem]
  dsimp only
  rw [hErase, hCount, Named.insert_append (hItems ▸ hSorted)]

end Replaced

end CostSum

/-- The totals with the entries of the stack forgotten: the cost and its derivatives remain. -/
def Totals.unstacked {α : Type} [Scalar α] (t : Totals α) : Totals α :=
  { t with r := Vec.zeros t.r.size, rx := t.rx.blank, ru := t.ru.blank }

/-- Two items with weights `w` and `w'` contribute the same to the sums, and parts of the same shapes
to the stack. -/
structure SameParts (w w' : ℝ) (d e : CostData ℝ) : Prop where
  sizes : e.SameSizes d
  cost : w' * e.cost = w * d.cost
  lx : e.lx.scale w' = d.lx.scale w
  lu : e.lu.scale w' = d.lu.scale w
  lxx : e.lxx.scale w' = d.lxx.scale w
  lxu : e.lxu.scale w' = d.lxu.scale w
  luu : e.luu.scale w' = d.luu.scale w

namespace Totals

variable {t t' : Totals ℝ} {w w' : ℝ} {d e : CostData ℝ}

theorem place?_rel {v v' block block' : Vec ℝ} (hSize : v.size = v'.size)
    (hBlock : block.size = block'.size) (row : Nat) :
    Option.Rel (fun r r' : Vec ℝ => r.size = r'.size) (v.place? row block) (v'.place? row block') := by
  unfold Vec.place?
  rw [hSize, hBlock]
  split
  · refine .some ?_
    rw [Vec.size_place, Vec.size_place, hSize]
  · exact .none

theorem placeRows?_rel {m m' block block' : Mat ℝ} (hBlank : m.blank = m'.blank)
    (hBlock : block.blank = block'.blank) (row : Nat) :
    Option.Rel (fun n n' : Mat ℝ => n.blank = n'.blank) (m.placeRows? row block)
      (m'.placeRows? row block') := by
  obtain ⟨hMRows, hMCols⟩ := Mat.blank_eq_iff.mp hBlank
  obtain ⟨hRows, hCols⟩ := Mat.blank_eq_iff.mp hBlock
  unfold Mat.placeRows?
  rw [hMRows, hMCols, hRows, hCols]
  split
  · exact .some (Mat.blank_eq_iff.mpr ⟨hMRows, hMCols⟩)
  · exact .none

theorem unstacked_eq_iff : t.unstacked = t'.unstacked ↔
    t.cost = t'.cost ∧ t.r.size = t'.r.size ∧ t.rx.blank = t'.rx.blank ∧ t.ru.blank = t'.ru.blank ∧
      t.lx = t'.lx ∧ t.lu = t'.lu ∧ t.lxx = t'.lxx ∧ t.lxu = t'.lxu ∧ t.luu = t'.luu := by
  have hZeros : ∀ m n : Nat, (Vec.zeros m : Vec ℝ) = Vec.zeros n ↔ m = n := by
    intro m n
    refine ⟨fun h => ?_, fun h => h ▸ rfl⟩
    have hSize := congrArg Array.size h
    rwa [Vec.size_zeros, Vec.size_zeros] at hSize
  simp only [unstacked, mk.injEq, hZeros]

theorem addValue_unstacked (h : SameParts w w' d e) (hT : t.unstacked = t'.unstacked)
    (row : Nat) : Option.Rel (fun t t' => t.unstacked = t'.unstacked) (t.addValue? row w d)
      (t'.addValue? row w' e) := by
  obtain ⟨hCost, hSize, hRx, hRu, hLx, hLu, hLxx, hLxu, hLuu⟩ := unstacked_eq_iff.mp hT
  unfold addValue?
  have hBlock : (d.r.scale (Elementary.sqrt w)).size = (e.r.scale (Elementary.sqrt w')).size := by
    rw [Vec.size_scale, Vec.size_scale, h.sizes.residual]
  refine rel_bind (place?_rel hSize hBlock row) fun r r' hR => ?_
  refine .some (unstacked_eq_iff.mpr ⟨?_, hR, hRx, hRu, hLx, hLu, hLxx, hLxu, hLuu⟩)
  change t.cost + w * d.cost = t'.cost + w' * e.cost
  rw [hCost, h.cost]

theorem addDerivatives_unstacked (h : SameParts w w' d e) (hT : t.unstacked = t'.unstacked)
    (row : Nat) : Option.Rel (fun t t' => t.unstacked = t'.unstacked) (t.addDerivatives? row w d)
      (t'.addDerivatives? row w' e) := by
  obtain ⟨hCost, hSize, hRx, hRu, hLx, hLu, hLxx, hLxu, hLuu⟩ := unstacked_eq_iff.mp hT
  unfold addDerivatives?
  rw [h.lx, h.lu, h.lxx, h.lxu, h.luu, hLx, hLu, hLxx, hLxu, hLuu]
  have hBlockRx : (d.rx.scale (Elementary.sqrt w)).blank = (e.rx.scale (Elementary.sqrt w')).blank :=
    Mat.blank_eq_iff.mpr ⟨h.sizes.rxRows.symm, h.sizes.rxCols.symm⟩
  have hBlockRu : (d.ru.scale (Elementary.sqrt w)).blank = (e.ru.scale (Elementary.sqrt w')).blank :=
    Mat.blank_eq_iff.mpr ⟨h.sizes.ruRows.symm, h.sizes.ruCols.symm⟩
  refine rel_bind (placeRows?_rel hRx hBlockRx row) fun rx rx' hRx' => ?_
  refine rel_bind (placeRows?_rel hRu hBlockRu row) fun ru ru' hRu' => ?_
  refine rel_bind_same _ fun lx => ?_
  refine rel_bind_same _ fun lu => ?_
  refine rel_bind_same _ fun lxx => ?_
  refine rel_bind_same _ fun lxu => ?_
  refine rel_bind_same _ fun luu => ?_
  exact .some (unstacked_eq_iff.mpr ⟨hCost, hSize, hRx', hRu', rfl, rfl, rfl, rfl, rfl⟩)

theorem clear_unstacked (hT : t.unstacked = t'.unstacked) :
    t.clear.unstacked = t'.clear.unstacked := by
  obtain ⟨hCost, hSize, hRx, hRu, hLx, hLu, hLxx, hLxu, hLuu⟩ := unstacked_eq_iff.mp hT
  refine unstacked_eq_iff.mpr ⟨hCost, hSize, hRx, hRu, ?_⟩
  simp only [clear, hLx, hLu, hLxx, hLxu, hLuu, and_self]

end Totals

/-- An item with its data stays as it is, or its weight is moved into its activation. -/
inductive Traded : SumItem ℝ → SumItem ℝ → CostData ℝ → CostData ℝ → Prop
  | same (item : SumItem ℝ) (d : CostData ℝ) : Traded item item d d
  | moved {w : ℝ} {c c' : Cost ℝ} (h : Cost.Scales w c c') (d : CostData ℝ) :
    Traded ⟨c, w⟩ ⟨c', 1⟩ d (d.scale w)

namespace Traded

variable {a b : SumItem ℝ} {d e : CostData ℝ}

theorem nr_eq (h : Traded a b d e) : a.cost.nr = b.cost.nr := by
  cases h with
  | same => rfl
  | moved h => exact h.nr.symm

theorem sameParts (h : Traded a b d e) : SameParts a.weight b.weight d e := by
  cases h with
  | same => exact ⟨⟨rfl, rfl, rfl, rfl, rfl, rfl, rfl, rfl, rfl, rfl⟩, rfl, rfl, rfl, rfl, rfl, rfl⟩
  | moved h d =>
    exact ⟨d.sameSizes_scale _, one_mul _, Vec.scale_one _, Vec.scale_one _, Mat.scale_one _,
      Mat.scale_one _, Mat.scale_one _⟩

end Traded

inductive TradedItems :
    List (SumItem ℝ) → List (SumItem ℝ) → Named (CostData ℝ) → Named (CostData ℝ) → Prop
  | nil : TradedItems [] [] [] []
  | cons (name : String) {a b : SumItem ℝ} {d e : CostData ℝ} (h : Traded a b d e)
    {as bs : List (SumItem ℝ)} {ds es : Named (CostData ℝ)} (rest : TradedItems as bs ds es) :
    TradedItems (a :: as) (b :: bs) ((name, d) :: ds) ((name, e) :: es)

namespace TradedItems

noncomputable def created (items : Named (SumItem ℝ)) : Named (CostData ℝ) :=
  items.map fun (name, item) => (name, item.cost.createData)

theorem same (items : Named (SumItem ℝ)) :
    TradedItems (items.map Prod.snd) (items.map Prod.snd) (created items) (created items) := by
  induction items with
  | nil => exact .nil
  | cons x items ih => exact .cons _ (.same _ _) ih

theorem moved {w : ℝ} {c c' : Cost ℝ} (h : Cost.Scales w c c') (name : String)
    (before after : Named (SumItem ℝ)) :
    TradedItems ((before ++ (name, ⟨c, w⟩) :: after).map Prod.snd)
      ((before ++ (name, ⟨c', 1⟩) :: after).map Prod.snd)
      (created (before ++ (name, ⟨c, w⟩) :: after)) (created (before ++ (name, ⟨c', 1⟩) :: after)) := by
  induction before with
  | nil =>
    refine .cons name ?_ (same after)
    rw [h.createData]
    exact .moved h _
  | cons x before ih => exact .cons _ (.same _ _) ih

theorem pass {evaluate : Cost ℝ → CostData ℝ → Outcome (Fault ℝ) (CostData ℝ)}
    {enter : Totals ℝ → Nat → ℝ → CostData ℝ → Option (Totals ℝ)}
    (hEvaluate : ∀ w c c', Cost.Scales w c c' → ∀ d,
      evaluate c' (d.scale w) = (evaluate c d).map fun d => d.scale w)
    (hEnter : ∀ row w w' d e t t', SameParts w w' d e → t.unstacked = t'.unstacked →
      Option.Rel (fun t t' => t.unstacked = t'.unstacked) (enter t row w d) (enter t' row w' e))
    {as bs : List (SumItem ℝ)} {ds es : Named (CostData ℝ)} (h : TradedItems as bs ds es) (row : Nat)
    {t t' : Totals ℝ} (hT : t.unstacked = t'.unstacked) :
    Agree (fun D E => TradedItems as bs D.items E.items ∧ D.totals.unstacked = E.totals.unstacked)
      (CostSum.pass evaluate enter (as.zip ds) row t).result
      (CostSum.pass evaluate enter (bs.zip es) row t').result := by
  induction h generalizing row t t' with
  | nil => exact .ok _ _ ⟨.nil, hT⟩
  | @cons name a b d e hHead as bs ds es rest ih =>
    rw [List.zip_cons_cons, List.zip_cons_cons, result_pass_cons, result_pass_cons, hHead.nr_eq]
    have hItem : Agree (Traded a b) (evaluate a.cost d).result (evaluate b.cost e).result := by
      cases hHead with
      | same => exact (Agree.same _).mono fun d' e' _ _ hSame => hSame ▸ .same _ d'
      | @moved w c c' hScales =>
        rw [hEvaluate w c c' hScales, Outcome.result_map]
        cases (evaluate c d).result with
        | ok d' => exact .ok _ _ (.moved hScales d')
        | error fault => exact .error fault
    refine hItem.bind fun d' e' hTraded => ?_
    refine (Agree.ofShapes (hEnter row _ _ d' e' t t' hTraded.sameParts hT)).bind fun t₁ t₁' hT₁ => ?_
    refine (ih (row + b.cost.nr) hT₁).bind fun D E hRest => ?_
    exact .ok _ _ ⟨.cons name hTraded hRest.1, hRest.2⟩

end TradedItems

namespace CostSum

/-- With the weight of one item moved into its activation, a sum computes the same on new data. -/
theorem differentiate_moved {s : CostSum ℝ} {w : ℝ} {c c' : Cost ℝ} (h : Cost.Scales w c c')
    {name : String} {before after : Named (SumItem ℝ)}
    (hItems : s.items = before ++ (name, ⟨c, w⟩) :: after) (args : Arguments ℝ) :
    let s' : CostSum ℝ := { s with items := before ++ (name, ⟨c', 1⟩) :: after }
    Agree (fun D E : SumData ℝ => D.totals.unstacked = E.totals.unstacked)
      (s.differentiate args true s.createData).result
      (s'.differentiate args true s'.createData).result := by
  intro s'
  have hCreated : TradedItems (s.items.map Prod.snd) (s'.items.map Prod.snd) s.createData.items
      s'.createData.items := by
    rw [createData, hItems]
    exact .moved h name before after
  have hEvaluated : Agree (fun D E : SumData ℝ =>
      TradedItems (s.items.map Prod.snd) (s'.items.map Prod.snd) D.items E.items ∧
        D.totals.unstacked = E.totals.unstacked)
      (s.evaluate args s.createData).result (s'.evaluate args s'.createData).result := by
    rw [evaluate, evaluate, checked, checked, fault?_eq_mismatch, fault?_eq_mismatch]
    cases Dimension.mismatch?
        [⟨.state, s.state.nx, args.x.size⟩, ⟨.control, s.nu, args.u.size⟩] with
    | some m => exact .error _
    | none =>
      exact hCreated.pass (fun w c c' hScales d => hScales.evaluate args d)
        (fun row w w' d e t t' hParts hT => Totals.addValue_unstacked hParts hT row) 0 rfl
  rw [differentiate_eq, differentiate_eq, if_pos rfl, if_pos rfl, Outcome.result_andThen,
    Outcome.result_andThen]
  refine hEvaluated.bind fun D E hDE => ?_
  have hDerived := hDE.1.pass (fun w c c' hScales d => hScales.differentiate args false d)
    (fun row w w' d e t t' hParts hT => Totals.addDerivatives_unstacked hParts hT row) 0
    (Totals.clear_unstacked hDE.2)
  exact hDerived.mono fun _ _ _ _ hBoth => hBoth.2

theorem nr_scaled {c : Cost ℝ} {v : Weights ℝ} (hv : c.activation = .weighted v) {w : ℝ} (hw : 0 ≤ w) :
    (Activation.weighted (v.scaled w hw)).nr = c.nr := by
  rw [(Activation.scales_weighted v hw).nr, Cost.nr, hv]

theorem nr_ones (n : Nat) : (Activation.weighted (.ones n)).nr = n := (Activation.scales_ones n).nr

/-- In every sum that a run of changes leads to, the weight of an item may be moved into the weights
of its activation: the item may be replaced by one of weight one with the same cost and the weights
multiplied by the old one, and differentiating with the residual on new data then stops at the same
fault or leaves the same cost and the same derivatives of it. With ones for weights every call of a cost
does what it does with the quadratic activation. -/
theorem weights_interchange (state : Multibody ℝ) (nu : Nat) (es : List (Edit ℝ)) :
    (let s := (empty state nu).edited es
      ∀ name c w v, s.items.find? name = some ⟨c, w⟩ → ∀ (hv : c.activation = .weighted v) (hw : 0 ≤ w),
        let c' := c.withActivation (.weighted (v.scaled w hw)) (nr_scaled hv hw)
        let s' := s.replaced name c' 1
        (s.remove name).result = .ok ⟨c, w⟩ ∧ ((s.remove name).sum.add name c' 1).result = .ok () ∧
          ∀ args, Agree (fun D E : SumData ℝ => D.totals.unstacked = E.totals.unstacked)
            (s.differentiate args true s.createData).result
            (s'.differentiate args true s'.createData).result) ∧
      ∀ c : Cost ℝ,
        let plain := c.withActivation (.quadratic c.nr) rfl
        let ones := c.withActivation (.weighted (.ones c.nr)) (nr_ones c.nr)
        ones.createData = plain.createData ∧ ∀ d call, ones.call d call = plain.call d call := by
  constructor
  · intro s name c w v hFind hv hw c' s'
    have hScales : Cost.Scales w c c' := by
      have hMoved := c.scales_withActivation rfl (nr_scaled hv hw)
        (hv ▸ Activation.scales_weighted v hw)
      rw [c.withActivation_self] at hMoved
      exact hMoved
    have hSorted : s.items.Sorted := sorted_edited (sorted_empty state nu) es
    have hCounted : s.Counted := counted_edited state nu es
    have hMem := (Named.mem_iff_find? hSorted.nodup).mpr hFind
    have hNu : c'.nu = s.nu := hScales.base.nu.trans (admits_edited state nu es _ hMem).control
    obtain ⟨hAdded, before, after, hItems, hReplaced⟩ :=
      exists_replaced hSorted hCounted hFind hScales.nr hNu ⟨rfl, not_lt.mpr zero_le_one⟩
    refine ⟨(remove_eq_ok hFind).1, hAdded, fun args => ?_⟩
    change Agree _ _ ((s.replaced name c' 1).differentiate args true
      (s.replaced name c' 1).createData).result
    rw [hReplaced]
    exact differentiate_moved hScales hItems args
  · intro c plain ones
    have hPlain : (Activation.quadratic c.nr : Activation ℝ).nr = c.nr := rfl
    have hScales : Cost.Scales 1 plain ones :=
      c.scales_withActivation hPlain (nr_ones c.nr) (Activation.scales_ones c.nr)
    refine ⟨?_, hScales.call_eq⟩
    rw [hScales.createData, CostData.scale_one]

noncomputable def postureWeights : Weights ℝ where
  values := #[4, 1]
  accepted := by
    refine Weights.fault?_eq_none_iff.mpr fun x hx => ⟨rfl, ?_⟩
    rcases List.mem_pair.mp hx with rfl | rfl
    · norm_num
    · norm_num

noncomputable def tunedCost : Cost ℝ :=
  (Cost.residual postureCost).withActivation (.weighted postureWeights) rfl

noncomputable def tunedRun : List (Edit ℝ) :=
  [.add "effort" (.residual effortCost) 0.25, .add "posture" tunedCost 0.5]

noncomputable def tuned : CostSum ℝ := (empty hingeAxis 1).edited tunedRun

theorem tuned_eq : tuned = ⟨hingeAxis, [("effort", ⟨.residual effortCost, 0.25⟩),
    ("posture", ⟨tunedCost, 0.5⟩)], 1, 3⟩ := by
  rw [tuned, tunedRun, edited, List.foldl_cons, edit_add rfl rfl (by norm_num)]
  exact edit_add rfl rfl (by norm_num)

theorem weights_interchange_tuned :
    let moved := tunedCost.withActivation
      (.weighted (postureWeights.scaled 0.5 (by norm_num))) (nr_scaled rfl (by norm_num))
    (∃ d, tuned.differentiate heldArgs true tuned.createData = .done d) ∧
      Agree (fun D E : SumData ℝ => D.totals.unstacked = E.totals.unstacked)
        (tuned.differentiate heldArgs true tuned.createData).result
        ((tuned.replaced "posture" moved 1).differentiate heldArgs true
          (tuned.replaced "posture" moved 1).createData).result := by
  intro moved
  constructor
  · apply Outcome.exists_done
    rw [tuned_eq]
    decide +kernel
  · have hFind : tuned.items.find? "posture" = some ⟨tunedCost, 0.5⟩ := by
      rw [tuned_eq]
      rfl
    exact ((weights_interchange hingeAxis 1 tunedRun).1 "posture" tunedCost 0.5 postureWeights hFind rfl
      (by norm_num)).2.2 heldArgs

end CostSum

end MultibodyCost
