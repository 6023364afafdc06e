import MultibodyCost.Proofs.Cost.History
import MultibodyCost.Proofs.Sum.Counted
import MultibodyCost.Proofs.Sum.Preserved

/-! # The kept part of its data decides what a sum computes

Two passes over the items of a sum agree where the data of every item are alike: they stop at the
same item and fault, or their totals are filled alike up to the row that they have reached. As the
items of a sum fill its totals, data with the kept part of fresh data gives what fresh data gives,
whatever calls were made before.
-/

namespace MultibodyCost

variable {α : Type} [Elementary α]

/-- Data under the same names beside the items of a sum, related item by item. -/
inductive Paired (R : Cost α → CostData α → CostData α → Prop) :
    List (SumItem α) → Named (CostData α) → Named (CostData α) → Prop
  | nil : Paired R [] [] []
  | cons (item : SumItem α) (name : String) (d e : CostData α) (h : R item.cost d e)
      {items : List (SumItem α)} {ds es : Named (CostData α)} (rest : Paired R items ds es) :
      Paired R (item :: items) ((name, d) :: ds) ((name, e) :: es)

theorem Paired.eq {R : Cost α → CostData α → CostData α → Prop} (hR : ∀ c d e, R c d e → d = e)
    {items : List (SumItem α)} {ds es : Named (CostData α)} (h : Paired R items ds es) : ds = es := by
  induction h with
  | nil => rfl
  | cons item name d e hHead rest ih => rw [hR item.cost d e hHead, ih]

theorem paired_of_kept {items : List (SumItem α)} {ds es : Named (CostData α)}
    (hNames : ds.names = es.names) (hLength : ds.length = items.length)
    (h : keptItems (items.zip ds) = keptItems (items.zip es)) :
    Paired (fun c d e => c.kept d = c.kept e) items ds es := by
  induction items generalizing ds es with
  | nil =>
    cases ds with
    | cons x ds => cases hLength
    | nil =>
      cases es with
      | cons y es => cases hNames
      | nil => exact .nil
  | cons item items ih =>
    cases ds with
    | nil => cases hLength
    | cons x ds =>
      cases es with
      | nil => cases hNames
      | cons y es =>
        obtain ⟨name, d⟩ := x
        obtain ⟨name', e⟩ := y
        obtain ⟨hName, hRest⟩ := List.cons.inj hNames
        obtain ⟨hHead, hTail⟩ := List.cons.inj h
        obtain rfl : name = name' := hName
        exact .cons item name d e hHead (ih hRest (Nat.succ.inj hLength) hTail)

section Pass

variable {evaluate : Cost α → CostData α → Outcome (Fault α) (CostData α)}
  {enter : Totals α → Nat → α → CostData α → Option (Totals α)}

theorem result_pass_cons (item : SumItem α) (name : String) (d : CostData α)
    (rest : List (SumItem α × String × CostData α)) (row : Nat) (t : Totals α) :
    (CostSum.pass evaluate enter ((item, name, d) :: rest) row t).result =
      (evaluate item.cost d).result.bind fun d =>
      (Fault.ofShapes (enter t row item.weight d)).bind fun t =>
      (CostSum.pass evaluate enter rest (row + item.cost.nr) t).result.map fun done =>
        { done with items := (name, d) :: done.items } := by
  rw [CostSum.pass]
  cases evaluate item.cost d with
  | stopped d fault => rfl
  | done d =>
    cases hEnter : enter t row item.weight d with
    | none =>
      simp only [hEnter]
      change _ = Except.bind (Fault.ofShapes (enter t row item.weight d)) _
      rw [hEnter]
      rfl
    | some t' =>
      simp only [hEnter, Outcome.result_map]
      change _ = Except.bind (Fault.ofShapes (enter t row item.weight d)) _
      rw [hEnter]
      rfl

theorem pass_agree {R S : Cost α → CostData α → CostData α → Prop}
    {T : Nat → Totals α → Totals α → Prop}
    (hEvaluate : ∀ c d e, R c d e → Agree (S c) (evaluate c d).result (evaluate c e).result)
    (hEnter : ∀ row weight c d e t t', S c d e → T row t t' →
      Option.Rel (T (row + c.nr)) (enter t row weight d) (enter t' row weight e))
    {items : List (SumItem α)} {ds es : Named (CostData α)} (h : Paired R items ds es) (row : Nat)
    {t t' : Totals α} (hT : T row t t') :
    Agree (fun D E => Paired S items D.items E.items ∧
        T (row + (items.map fun x => x.cost.nr).sum) D.totals E.totals)
      (CostSum.pass evaluate enter (items.zip ds) row t).result
      (CostSum.pass evaluate enter (items.zip es) row t').result := by
  induction h generalizing row t t' with
  | nil => exact .ok _ _ ⟨.nil, hT⟩
  | cons item name d e hHead rest ih =>
    rw [List.zip_cons_cons, List.zip_cons_cons, result_pass_cons, result_pass_cons]
    refine (hEvaluate item.cost d e hHead).bind fun d' e' hItem => ?_
    refine (Agree.ofShapes (hEnter row item.weight item.cost d' e' t t' hItem hT)).bind
      fun t₁ t₁' hT₁ => ?_
    refine (ih (row + item.cost.nr) hT₁).bind fun D E hRest => ?_
    refine .ok _ _ ⟨.cons item name d' e' hItem hRest.1, ?_⟩
    rw [List.map_cons, List.sum_cons, ← Nat.add_assoc]
    exact hRest.2

end Pass

namespace Totals

structure ValuesTo (row : Nat) (t t' : Totals α) : Prop where
  blank : t.blank = t'.blank
  cost : t.cost = t'.cost
  r : Vec.FilledTo row t.r t'.r

structure DerivativesTo (row : Nat) (t t' : Totals α) : Prop where
  cost : t.cost = t'.cost
  r : t.r = t'.r
  rx : Mat.FilledRows row t.rx t'.rx
  ru : Mat.FilledRows row t.ru t'.ru
  lx : t.lx = t'.lx
  lu : t.lu = t'.lu
  lxx : t.lxx = t'.lxx
  lxu : t.lxu = t'.lxu
  luu : t.luu = t'.luu

theorem addValue_agree {row : Nat} (weight : α) {c : Cost α} {d e : CostData α} {t t' : Totals α}
    (h : c.Alike d e) (hT : ValuesTo row t t') :
    Option.Rel (ValuesTo (row + c.nr)) (t.addValue? row weight d) (t'.addValue? row weight e) := by
  have hBlock : (d.r.scale (Elementary.sqrt weight)).size = c.nr :=
    (Vec.size_scale _ _).trans h.sized.residual
  have hPlace := hT.r.place? (d.r.scale (Elementary.sqrt weight))
  rw [hBlock] at hPlace
  unfold addValue?
  rw [← h.residual, ← h.cost, ← hT.cost]
  refine rel_bind hPlace fun r r' hR => ?_
  refine .some ⟨?_, rfl, hR⟩
  have hRest := hT.blank
  simp only [blank, mk.injEq, true_and, hR.size_eq] at hRest ⊢
  exact hRest.2

theorem addDerivatives_agree {row : Nat} (weight : α) {c : Cost α} {d : CostData α}
    {t t' : Totals α} (hRx : d.rx.rows = c.nr) (hRu : d.ru.rows = c.nr)
    (hT : DerivativesTo row t t') :
    Option.Rel (DerivativesTo (row + c.nr)) (t.addDerivatives? row weight d)
      (t'.addDerivatives? row weight d) := by
  have hPlaceRx := hT.rx.placeRows? (d.rx.scale (Elementary.sqrt weight))
  have hPlaceRu := hT.ru.placeRows? (d.ru.scale (Elementary.sqrt weight))
  rw [show (d.rx.scale (Elementary.sqrt weight)).rows = c.nr from hRx] at hPlaceRx
  rw [show (d.ru.scale (Elementary.sqrt weight)).rows = c.nr from hRu] at hPlaceRu
  unfold addDerivatives?
  rw [← hT.lx, ← hT.lu, ← hT.lxx, ← hT.lxu, ← hT.luu]
  refine rel_bind hPlaceRx fun rx rx' hRx' => ?_
  refine rel_bind hPlaceRu fun ru ru' hRu' => ?_
  refine rel_bind_same _ fun lx => ?_
  refine rel_bind_same _ fun lu => ?_
  refine rel_bind_same _ fun lxx => ?_
  refine rel_bind_same _ fun lxu => ?_
  refine rel_bind_same _ fun luu => ?_
  exact .some ⟨hT.cost, hT.r, hRx', hRu', rfl, rfl, rfl, rfl, rfl⟩

theorem DerivativesTo.eq {row : Nat} {t t' : Totals α} (h : DerivativesTo row t t')
    (hRx : t.rx.rows ≤ row) (hRu : t.ru.rows ≤ row) : t = t' := by
  have hRxEq := h.rx.eq hRx
  have hRuEq := h.ru.eq hRu
  obtain ⟨hCost, hR, -, -, hLx, hLu, hLxx, hLxu, hLuu⟩ := h
  cases t
  cases t'
  rw [mk.injEq]
  exact ⟨hCost, hR, hRxEq, hRuEq, hLx, hLu, hLxx, hLxu, hLuu⟩

theorem clear_derivatives {t t' : Totals α} (hBlank : t.blank = t'.blank) (hCost : t.cost = t'.cost)
    (hR : t.r = t'.r) : DerivativesTo 0 t.clear t'.clear where
  cost := hCost
  r := hR
  rx := by
    obtain ⟨hRows, hCols⟩ := Mat.blank_eq_iff.mp (congrArg rx hBlank)
    exact .start hRows hCols
  ru := by
    obtain ⟨hRows, hCols⟩ := Mat.blank_eq_iff.mp (congrArg ru hBlank)
    exact .start hRows hCols
  lx := congrArg (fun t => t.lx) hBlank
  lu := congrArg (fun t => t.lu) hBlank
  lxx := congrArg (fun t => t.lxx) hBlank
  lxu := congrArg (fun t => t.lxu) hBlank
  luu := congrArg (fun t => t.luu) hBlank

theorem size_of_blank {t t' : Totals α} (h : t.blank = t'.blank) : t.r.size = t'.r.size := by
  have hSize := congrArg (fun t => t.r.size) h
  simpa only [blank, Vec.size_zeros] using hSize

end Totals

namespace CostSum

structure Alike (s : CostSum α) (d e : SumData α) : Prop where
  kept : s.kept d = s.kept e
  names : d.items.names = s.items.names
  items : Paired Cost.Alike (s.items.map Prod.snd) d.items e.items
  cost : d.totals.cost = e.totals.cost
  r : d.totals.r = e.totals.r

theorem fault?_congr {s : CostSum α} {d e : SumData α} (h : s.kept d = s.kept e)
    (args : Arguments α) : s.fault? args d = s.fault? args e := by
  have hNames : d.items.names = e.items.names := congrArg SumKept.names h
  have hLength : d.items.length = e.items.length := by
    have hLengths := congrArg List.length hNames
    simpa only [Named.names, List.length_map] using hLengths
  have hSize := Totals.size_of_blank (congrArg SumKept.totals h)
  rw [fault?, fault?, hNames, hLength, hSize]

theorem Counted.sum_eq {s : CostSum α} (h : s.Counted) :
    ((s.items.map Prod.snd).map fun x => x.cost.nr).sum = s.nr := by
  rw [List.map_map, h.nr_eq]
  rfl

theorem length_of_names {s : CostSum α} {d : SumData α} (h : d.items.names = s.items.names) :
    d.items.length = (s.items.map Prod.snd).length := by
  have hLength := congrArg List.length h
  simpa only [Named.names, List.length_map] using hLength

theorem evaluate_alike {s : CostSum α} (hCounted : s.Counted) {d e : SumData α}
    (h : s.kept d = s.kept e) (args : Arguments α) :
    Agree s.Alike (s.evaluate args d).result (s.evaluate args e).result := by
  cases hFault : s.fault? args e with
  | some fault =>
    rw [evaluate, evaluate, checked, checked, fault?_congr h, hFault]
    exact .error _
  | none =>
    obtain ⟨hNames, hSize⟩ := names_of_fault hFault
    have hSame : d.items.names = e.items.names := congrArg SumKept.names h
    have hBlank : d.totals.blank = e.totals.blank := congrArg SumKept.totals h
    have hPaired : Paired (fun c d e => c.kept d = c.kept e) (s.items.map Prod.snd) d.items e.items :=
      paired_of_kept hSame (length_of_names (hSame.trans hNames)) (congrArg SumKept.items h)
    have hPasses : Agree (fun D E => Paired Cost.Alike (s.items.map Prod.snd) D.items E.items ∧
        Totals.ValuesTo (0 + ((s.items.map Prod.snd).map fun x => x.cost.nr).sum) D.totals E.totals)
        (s.evaluate args d).result (s.evaluate args e).result := by
      rw [evaluate, evaluate, checked, checked, fault?_congr h, hFault]
      apply pass_agree (R := fun c d e => c.kept d = c.kept e)
      · exact fun c d e hKept => Cost.evaluate_alike hKept args
      · exact fun row weight c d e t t' hAlike hT => Totals.addValue_agree weight hAlike hT
      · exact hPaired
      · exact ⟨hBlank, rfl, .start (Totals.size_of_blank hBlank)⟩
    rw [Nat.zero_add, hCounted.sum_eq] at hPasses
    refine hPasses.mono ?_
    rintro D E hD hE ⟨hItems, hValues⟩
    have hKeptD : s.kept D = s.kept d := by
      rw [← Outcome.data_of_result hD]
      exact s.kept_evaluate args d
    have hKeptE : s.kept E = s.kept e := by
      rw [← Outcome.data_of_result hE]
      exact s.kept_evaluate args e
    have hSizeD : D.totals.r.size = s.nr :=
      (Totals.size_of_blank (congrArg SumKept.totals (hKeptD.trans h))).trans hSize
    exact ⟨hKeptD.trans (h.trans hKeptE.symm),
      (congrArg SumKept.names (hKeptD.trans h)).trans hNames, hItems, hValues.cost,
      hValues.r.eq (Nat.le_of_eq hSizeD)⟩

theorem item_agree {c : Cost α} {d e : CostData α} (h : c.Alike d e) (args : Arguments α) :
    Agree (fun d' e' => d' = e' ∧ c.Sized d') (c.differentiate args false d).result
      (c.differentiate args false e).result := by
  rw [← Cost.differentiate_alike h args]
  refine (Agree.same _).mono ?_
  rintro d' e' hd - rfl
  refine ⟨rfl, ?_⟩
  have hKept := c.kept_differentiate args false d
  rw [Outcome.data_of_result hd] at hKept
  exact h.sized.of_kept hKept

theorem derive_eq {s : CostSum α} (hCounted : s.Counted) {d e : SumData α} (h : s.Alike d e)
    (hRx : d.totals.rx.rows = s.nr) (hRu : d.totals.ru.rows = s.nr) (args : Arguments α) :
    (s.derive args d).result = (s.derive args e).result := by
  have hBlank : d.totals.blank = e.totals.blank := congrArg SumKept.totals h.kept
  have hPasses : Agree (fun D E =>
      Paired (fun c d e => d = e ∧ c.Sized d) (s.items.map Prod.snd) D.items E.items ∧
        Totals.DerivativesTo (0 + ((s.items.map Prod.snd).map fun x => x.cost.nr).sum) D.totals
          E.totals)
      (s.derive args d).result (s.derive args e).result := by
    apply pass_agree (R := Cost.Alike)
    · exact fun c d e hAlike => item_agree hAlike args
    · rintro row weight c d _ t t' ⟨rfl, hSized⟩ hT
      exact Totals.addDerivatives_agree weight hSized.rx_shape.1 hSized.ru_shape.1 hT
    · exact h.items
    · exact Totals.clear_derivatives hBlank h.cost h.r
  rw [Nat.zero_add, hCounted.sum_eq] at hPasses
  apply Agree.eq
  refine hPasses.mono ?_
  rintro D E hD - ⟨hItems, hTotals⟩
  have hKept : D.totals.blank = d.totals.blank := by
    have hPass := s.passKept_derive args d
    rw [Outcome.data_of_result hD] at hPass
    exact hPass.totals.trans (Totals.blank_clear d.totals)
  have hRowsRx := (Mat.blank_eq_iff.mp (congrArg Totals.rx hKept)).1
  have hRowsRu := (Mat.blank_eq_iff.mp (congrArg Totals.ru hKept)).1
  have hItemsEq : D.items = E.items := hItems.eq fun c d e h => h.1
  have hTotalsEq : D.totals = E.totals :=
    hTotals.eq (Nat.le_of_eq (hRowsRx.trans hRx)) (Nat.le_of_eq (hRowsRu.trans hRu))
  cases D
  cases E
  rw [SumData.mk.injEq]
  exact ⟨hItemsEq, hTotalsEq⟩

theorem differentiate_of_kept {s : CostSum α} (hCounted : s.Counted) {d : SumData α}
    (h : s.kept d = s.kept s.createData) (args : Arguments α) :
    (s.differentiate args true d).result = (s.differentiate args true s.createData).result := by
  rw [differentiate_eq, differentiate_eq, if_pos rfl, if_pos rfl, Outcome.result_andThen,
    Outcome.result_andThen]
  apply Agree.eq
  have hEvaluated : Agree (fun D E => s.Alike D E ∧ D.totals.blank = s.createData.totals.blank)
      (s.evaluate args d).result (s.evaluate args s.createData).result := by
    refine (evaluate_alike hCounted h args).mono ?_
    intro D E hD _ hAlike
    have hKept := s.kept_evaluate args d
    rw [Outcome.data_of_result hD] at hKept
    exact ⟨hAlike, congrArg SumKept.totals (hKept.trans h)⟩
  refine hEvaluated.bind fun D E hDE => ?_
  have hRx := (Mat.blank_eq_iff.mp (congrArg Totals.rx hDE.2)).1
  have hRu := (Mat.blank_eq_iff.mp (congrArg Totals.ru hDE.2)).1
  rw [derive_eq hCounted hDE.1 hRx hRu args]
  exact .same _

end CostSum

/-- Whatever calls were made before on the data of a cost, or of a sum built by any run of changes,
done or stopped: differentiating with the residual gives what it gives on fresh data, the same
data or the same fault. -/
theorem differentiate_after :
    (∀ (c : Cost α) (calls : List (Call α)) (args : Arguments α),
      (c.differentiate args true (c.after calls c.createData)).result =
        (c.differentiate args true c.createData).result) ∧
    ∀ (state : Multibody α) (nu : Nat) (es : List (CostSum.Edit α)) (calls : List (Call α))
      (args : Arguments α),
      let s := (CostSum.empty state nu).edited es
      (s.differentiate args true (s.after calls s.createData)).result =
        (s.differentiate args true s.createData).result := by
  constructor
  · intro c calls args
    exact Cost.differentiate_of_kept (c.kept_after calls c.createData) args
  · intro state nu es calls args s
    exact CostSum.differentiate_of_kept (CostSum.counted_edited state nu es)
      (s.kept_after calls s.createData) args

end MultibodyCost
