import MultibodyCost.Proofs.Cost.Columns
import MultibodyCost.Proofs.Cost.Refusal
import MultibodyCost.Proofs.Sum.Passes

/-! # What a refused aggregate leaves behind

A sum and a cost by differences call costs one after another and write down what each gives before
the next is called. Where one of them refuses, nothing is taken back: the work before it stays, and
what comes behind it is as it was.
-/

namespace MultibodyCost

variable {α : Type}

namespace CostSum

section Pass

variable [Elementary α] {evaluate : Cost α → CostData α → Outcome (Fault α) (CostData α)}
  {enter : Totals α → Nat → α → CostData α → Option (Totals α)}

/-- A pass over items that is refused by the one at place `k`: those before it were evaluated and
entered, its own data is what its evaluation leaves, and those behind it are as they were. -/
structure Interrupted (evaluate : Cost α → CostData α → Outcome (Fault α) (CostData α))
    (enter : Totals α → Nat → α → CostData α → Option (Totals α))
    (xs : List (SumItem α × String × CostData α)) (row : Nat) (t : Totals α) (left : SumData α)
    (e : CostError α) (k : Nat) : Prop where
  refused : ∃ x, xs[k]? = some x ∧
    evaluate x.1.cost x.2.2 = .stopped (evaluate x.1.cost x.2.2).data (.refused e)
  done : ∀ x ∈ xs.take k, evaluate x.1.cost x.2.2 = .done (evaluate x.1.cost x.2.2).data
  items : left.items =
    (xs.take (k + 1)).map (fun x => (x.2.1, (evaluate x.1.cost x.2.2).data)) ++
      (xs.drop (k + 1)).map Prod.snd
  totals : Totals.enterAll enter ((xs.take k).map fun x => (x.1, (evaluate x.1.cost x.2.2).data)) row
    t = some left.totals

theorem exists_interrupted {xs : List (SumItem α × String × CostData α)} {row : Nat} {t : Totals α}
    {left : SumData α} {e : CostError α}
    (h : pass evaluate enter xs row t = .stopped left (.refused e)) :
    ∃ k, Interrupted evaluate enter xs row t left e k := by
  induction xs generalizing row t left with
  | nil => cases h
  | cons x xs ih =>
    obtain ⟨item, name, d⟩ := x
    rw [pass] at h
    cases hOut : evaluate item.cost d with
    | stopped d' fault =>
      simp only [hOut] at h
      cases h
      exact ⟨0, ⟨(item, name, d), rfl, by rw [hOut]; rfl⟩, fun x hx => absurd hx List.not_mem_nil,
        by simp [hOut], rfl⟩
    | done d' =>
      simp only [hOut] at h
      cases hEnter : enter t row item.weight d' with
      | none =>
        simp only [hEnter] at h
        cases h
      | some t' =>
        simp only [hEnter] at h
        cases hRest : pass evaluate enter xs (row + item.cost.nr) t' with
        | done rest =>
          rw [hRest] at h
          cases h
        | stopped rest fault =>
          rw [hRest] at h
          cases h
          obtain ⟨k, hInterrupted⟩ := ih hRest
          refine ⟨k + 1, ?_, ?_, ?_, ?_⟩
          · exact hInterrupted.refused
          · intro x hx
            rcases List.mem_cons.mp hx with rfl | hx
            · rw [hOut]
              rfl
            · exact hInterrupted.done x hx
          · simp [hInterrupted.items, hOut]
          · simpa [Totals.enterAll, hOut, hEnter] using hInterrupted.totals

end Pass

section Totals

variable [Elementary α] {xs : List (SumItem α × CostData α)} {row : Nat} {t out : Totals α}

theorem fixed_of_enterAll_values (h : Totals.enterAll Totals.addValue? xs row t = some out) :
    out = { t with cost := out.cost, r := out.r } := by
  have hFixed : { out with cost := 0, r := #[] } = { t with cost := 0, r := #[] } := by
    refine Totals.enterAll_fixed (f := fun t : Totals α => { t with cost := 0, r := #[] }) ?_ h
    intro t row w d t' hEnter
    obtain ⟨r, -, hEnter⟩ := Option.bind_eq_some_iff.mp hEnter
    cases hEnter
    rfl
  obtain ⟨cost, r, rx, ru, lx, lu, lxx, lxu, luu⟩ := out
  cases hFixed
  rfl

theorem cost_of_enterAll (h : Totals.enterAll Totals.addValue? xs row t = some out) :
    out.cost = xs.foldl (fun cost x => cost + x.1.weight * x.2.cost) t.cost := by
  induction xs generalizing row t with
  | nil =>
    cases h
    rfl
  | cons x xs ih =>
    obtain ⟨t', hFirst, hRest⟩ := Option.bind_eq_some_iff.mp h
    rw [List.foldl_cons, ← (Totals.addValue?_eq_some hFirst).2]
    exact ih hRest

theorem values_of_enterAll_derivatives
    (h : Totals.enterAll Totals.addDerivatives? xs row t = some out) :
    out.cost = t.cost ∧ out.r = t.r := by
  have hFixed : (out.cost, out.r) = (t.cost, t.r) := by
    refine Totals.enterAll_fixed (f := fun t => (t.cost, t.r)) ?_ h
    intro t row w d t' hEnter
    obtain ⟨hR, hCost⟩ := (Totals.addDerivatives?_eq_some hEnter).values
    rw [hR, hCost]
  exact Prod.mk.inj hFixed

theorem residual_behind_enterAll (hSized : ∀ x ∈ xs, x.1.cost.Sized x.2)
    (h : Totals.enterAll Totals.addValue? xs row t = some out) {i : Nat}
    (hRow : row + (xs.map fun x => x.1.cost.nr).sum ≤ i) : out.r.entry i = t.r.entry i := by
  apply Totals.enterAll_behind (fun t i => t.r.entry i) _ hSized hRow h
  intro t row c w d t' i hSized hRow hEnter
  have hR : d.r.size = c.nr := hSized.residual
  apply Vec.entry_behind_place? _ (Totals.addValue?_eq_some hEnter).1
  rwa [Vec.size_scale, hR]

theorem jacobians_behind_enterAll (hSized : ∀ x ∈ xs, x.1.cost.Sized x.2)
    (h : Totals.enterAll Totals.addDerivatives? xs row t = some out) {i : Nat}
    (hRow : row + (xs.map fun x => x.1.cost.nr).sum ≤ i) (j : Nat) :
    out.rx.entry i j = t.rx.entry i j ∧ out.ru.entry i j = t.ru.entry i j := by
  have hBoth : (out.rx.entry i j, out.ru.entry i j) = (t.rx.entry i j, t.ru.entry i j) := by
    apply Totals.enterAll_behind (fun t i => (t.rx.entry i j, t.ru.entry i j)) _ hSized hRow h
    intro t row c w d t' i hSized hRow hEnter
    have hAdds := Totals.addDerivatives?_eq_some hEnter
    have hRx : row + (d.rx.scale (Elementary.sqrt w)).rows ≤ i := hSized.rx_shape.1.symm ▸ hRow
    have hRu : row + (d.ru.scale (Elementary.sqrt w)).rows ≤ i := hSized.ru_shape.1.symm ▸ hRow
    exact congrArg₂ Prod.mk (Mat.entry_behind_placeRows? hRx hAdds.rx j)
      (Mat.entry_behind_placeRows? hRu hAdds.ru j)
  exact Prod.mk.inj hBoth

end Totals

section Leaves

variable [Elementary α]

theorem sized_of_evaluate {c : Cost α} {args : Arguments α} {d d' : CostData α}
    (h : c.evaluate args d = .done d') : c.Sized d' :=
  (Cost.of_check (Cost.of_evaluate h).1).2.of_kept (Cost.kept_of_evaluate h)

theorem sized_of_differentiate {c : Cost α} {args : Arguments α} {recalc : Bool} {d d' : CostData α}
    (h : c.differentiate args recalc d = .done d') : c.Sized d' := by
  have hKept := c.kept_differentiate args recalc d
  rw [h] at hKept
  exact (Cost.of_check (Cost.check_of_done h)).2.of_kept hKept

theorem row_eq_sum {s : CostSum α} {d : SumData α} (h : d.items.names = s.items.names) (k : Nat) :
    (((s.zipData d).take k).map fun x => x.1.cost.nr).sum = s.row k := by
  have hNr : (s.zipData d).map (fun x => x.1.cost.nr) = residuals s.items := by
    have hFst := congrArg (List.map fun item : SumItem α => item.cost.nr) (zipData_maps h).1
    rwa [List.map_map, List.map_map] at hFst
  rw [row, ← hNr, List.map_take]

/-- What evaluating a sum leaves where it is refused: everything, or the partial cost and the rows of
the items before the one that refuses. -/
inductive EvaluateLeaves (s : CostSum α) (args : Arguments α) (d : SumData α) (e : CostError α) :
    SumData α → Prop
  | unchecked (h : s.fault? args d = some e) : EvaluateLeaves s args d e d
  | item {left : SumData α} {k : Nat}
      (hPass : Interrupted (fun c => c.evaluate args) Totals.addValue? (s.zipData d) 0
        { d.totals with cost := 0 } left e k)
      (hItems : left.items.drop k = d.items.drop k)
      (hTotals : left.totals = { d.totals with cost := left.totals.cost, r := left.totals.r })
      (hCost : left.totals.cost = ((s.zipData d).take k).foldl
        (fun cost x => cost + x.1.weight * (x.1.cost.evaluate args x.2.2).data.cost) 0)
      (hRows : ∀ i, s.row k ≤ i → left.totals.r.entry i = d.totals.r.entry i) :
      EvaluateLeaves s args d e left

inductive DifferentiateLeaves (s : CostSum α) (args : Arguments α) (recalc : Bool) (d : SumData α)
    (e : CostError α) : SumData α → Prop
  | unchecked (h : s.fault? args d = some e) : DifferentiateLeaves s args recalc d e d
  | evaluating {left : SumData α} (hRecalc : recalc = true) (h : s.EvaluateLeaves args d e left) :
      DifferentiateLeaves s args recalc d e left
  | item {start left : SumData α} {k : Nat}
      (hStart : (if recalc then s.evaluate args d else s.checked args d (.done d)) = .done start)
      (hPass : Interrupted (fun c => c.differentiate args false) Totals.addDerivatives?
        (s.zipData start) 0 start.totals.clear left e k)
      (hItems : left.items.drop (k + 1) = start.items.drop (k + 1))
      (hValues : left.totals.cost = start.totals.cost ∧ left.totals.r = start.totals.r)
      (hRows : ∀ i j, s.row k ≤ i → left.totals.rx.entry i j = start.totals.rx.entry i j ∧
        left.totals.ru.entry i j = start.totals.ru.entry i j) :
      DifferentiateLeaves s args recalc d e left

theorem zipData_drop {s : CostSum α} {d : SumData α} (h : d.items.names = s.items.names) (k : Nat) :
    ((s.zipData d).drop k).map Prod.snd = d.items.drop k := by
  rw [List.map_drop, (zipData_maps h).2]

theorem Interrupted.drop_items {s : CostSum α} {d left : SumData α}
    {evaluate : Cost α → CostData α → Outcome (Fault α) (CostData α)}
    {enter : Totals α → Nat → α → CostData α → Option (Totals α)} {row : Nat} {t : Totals α}
    {e : CostError α} {k : Nat} (h : Interrupted evaluate enter (s.zipData d) row t left e k)
    (hNames : d.items.names = s.items.names) : left.items.drop (k + 1) = d.items.drop (k + 1) := by
  obtain ⟨x, hx, -⟩ := h.refused
  have hk : k < (s.zipData d).length := (List.getElem?_eq_some_iff.mp hx).1
  rw [h.items, List.drop_left' (by simp; omega), zipData_drop hNames]

theorem Interrupted.drop_items_of_left {s : CostSum α} {d left : SumData α}
    {evaluate : Cost α → CostData α → Outcome (Fault α) (CostData α)}
    {enter : Totals α → Nat → α → CostData α → Option (Totals α)} {row : Nat} {t : Totals α}
    {e : CostError α} {k : Nat} (h : Interrupted evaluate enter (s.zipData d) row t left e k)
    (hNames : d.items.names = s.items.names)
    (hLeft : ∀ c d left e, evaluate c d = .stopped left e → left = d) :
    left.items.drop k = d.items.drop k := by
  obtain ⟨x, hx, hStop⟩ := h.refused
  obtain ⟨hk, hGet⟩ := List.getElem?_eq_some_iff.mp hx
  have hSame : (evaluate x.1.cost x.2.2).data = x.2.2 := hLeft _ _ _ _ hStop
  have hTake : (s.zipData d).take (k + 1) = (s.zipData d).take k ++ [x] := by
    rw [List.take_add_one, hx, Option.toList_some]
  have hDrop : (s.zipData d).drop k = x :: (s.zipData d).drop (k + 1) := by
    rw [List.drop_eq_getElem_cons hk, hGet]
  rw [h.items, hTake, List.map_append, List.append_assoc, List.drop_left' (by simp; omega),
    ← zipData_drop hNames k, hDrop]
  simp only [List.map_cons, List.map_nil, hSame, List.cons_append, List.nil_append]

theorem names_of_start {s : CostSum α} {args : Arguments α} {recalc : Bool} {d start : SumData α}
    (h : (if recalc then s.evaluate args d else s.checked args d (.done d)) = .done start) :
    start.items.names = s.items.names := by
  cases recalc with
  | true =>
    have hKept := s.kept_evaluate args d
    rw [if_pos rfl] at h
    rw [h] at hKept
    exact (congrArg SumKept.names hKept).trans (of_checked h).1
  | false =>
    obtain ⟨hNames, -, hSame⟩ := of_checked h
    cases hSame
    exact hNames

theorem evaluateLeaves {s : CostSum α} {args : Arguments α} {d left : SumData α} {e : CostError α}
    (h : s.evaluate args d = .stopped left (.refused e)) : s.EvaluateLeaves args d e left := by
  rw [evaluate, checked] at h
  cases hFault : s.fault? args d with
  | some fault =>
    rw [hFault] at h
    cases h
    exact .unchecked hFault
  | none =>
    rw [hFault] at h
    have hNames := (names_of_fault hFault).1
    obtain ⟨k, hPass⟩ := exists_interrupted h
    have hSized : ∀ x ∈ ((s.zipData d).take k).map
        fun x => (x.1, (x.1.cost.evaluate args x.2.2).data), x.1.cost.Sized x.2 := by
      intro y hy
      obtain ⟨x, hx, rfl⟩ := List.mem_map.mp hy
      exact sized_of_evaluate (hPass.done x hx)
    have hFixed := fixed_of_enterAll_values hPass.totals
    have hCost := cost_of_enterAll hPass.totals
    rw [List.foldl_map] at hCost
    have hLeft : ∀ (c : Cost α) (d left : CostData α) (e : Fault α),
        c.evaluate args d = .stopped left e → left = d :=
      fun c d left e hStop => (Cost.evaluate_eq_stopped.mp hStop).1
    refine .item hPass (hPass.drop_items_of_left hNames hLeft) hFixed hCost fun i hi => ?_
    refine residual_behind_enterAll hSized hPass.totals ?_
    rw [List.map_map, Nat.zero_add]
    exact (row_eq_sum hNames k).trans_le hi

theorem differentiateLeaves {s : CostSum α} {args : Arguments α} {recalc : Bool}
    {d left : SumData α} {e : CostError α}
    (h : s.differentiate args recalc d = .stopped left (.refused e)) :
    s.DifferentiateLeaves args recalc d e left := by
  rw [differentiate_eq] at h
  rcases Outcome.andThen_eq_stopped.mp h with hStart | ⟨start, hStart, hDerive⟩
  · cases recalc with
    | true => exact .evaluating rfl (evaluateLeaves hStart)
    | false =>
      rw [if_neg Bool.false_ne_true, checked] at hStart
      cases hFault : s.fault? args d with
      | some fault =>
        rw [hFault] at hStart
        cases hStart
        exact .unchecked hFault
      | none =>
        rw [hFault] at hStart
        cases hStart
  · have hNames := names_of_start hStart
    obtain ⟨k, hPass⟩ := exists_interrupted hDerive
    have hSized : ∀ x ∈ ((s.zipData start).take k).map
        fun x => (x.1, (x.1.cost.differentiate args false x.2.2).data), x.1.cost.Sized x.2 := by
      intro y hy
      obtain ⟨x, hx, rfl⟩ := List.mem_map.mp hy
      exact sized_of_differentiate (hPass.done x hx)
    have hValues := values_of_enterAll_derivatives hPass.totals
    refine .item hStart hPass (hPass.drop_items hNames) hValues fun i j hi => ?_
    refine jacobians_behind_enterAll hSized hPass.totals ?_ j
    rw [List.map_map, Nat.zero_add]
    exact (row_eq_sum hNames k).trans_le hi

end Leaves

end CostSum

section Differences

variable [Elementary α]

/-- What differentiating by differences leaves where it is refused: everything, or the residual and
the cost that are asked for with the columns before the perturbation that is refused. -/
inductive Cost.DifferencesLeave (c : Cost α) (update? : Option (KinematicsUpdate α)) (h : α)
    (args : Arguments α) (recalc : Bool) (d : CostData α) (e : CostError α) : CostData α → Prop
  | unchecked (hCheck : args.check c.state c.nr c.nu d = .error (.refused e)) :
      DifferencesLeave c update? h args recalc d e d
  | evaluating (hRecalc : recalc = true) (hStop : c.evaluate args d = .stopped d (.refused e)) :
      DifferencesLeave c update? h args recalc d e d
  | filling {start left : CostData α}
      (hStart : (if recalc then c.evaluate args d else .done d : Evaluation α) = .done start)
      (hFill : c.Fills update? h args start (.stopped left (.refused e))) :
      DifferencesLeave c update? h args recalc d e left

theorem Cost.differencesLeave {c : Cost α} {update? : Option (KinematicsUpdate α)} {h : α}
    {args : Arguments α} {recalc : Bool} {d left : CostData α} {e : CostError α}
    (hStop : (differences c update? h).differentiate args recalc d = .stopped left (.refused e)) :
    c.DifferencesLeave update? h args recalc d e left := by
  rw [differentiate_differences] at hStop
  split at hStop
  · rename_i hCheck
    cases hStop
    exact .unchecked hCheck
  · rcases Outcome.andThen_eq_stopped.mp hStop with hEvaluate | ⟨start, hStart, hRest⟩
    · cases recalc with
      | true =>
        obtain rfl := (evaluate_eq_stopped.mp hEvaluate).1
        exact .evaluating rfl hEvaluate
      | false => cases hEvaluate
    · rcases Outcome.andThen_eq_stopped.mp hRest with hFill | ⟨filled, -, hAssemble⟩
      · refine .filling hStart ?_
        rw [← hFill]
        exact c.fills_fillQuotients update? h args start
      · -- The assembly stops at shapes only.
        cases Fault.eq_shapes_of_ofShapes (Outcome.attempt_eq_stopped.mp hAssemble).2

/-- What is refused by a single cost leaves its data alone; sums and differences keep what was done
before, and stop there. -/
theorem refused_call_leaves (args : Arguments α) (e : CostError α) :
    (∀ (s : CostSum α) (d left : SumData α), s.evaluate args d = .stopped left (.refused e) →
      s.EvaluateLeaves args d e left) ∧
    (∀ (s : CostSum α) (recalc : Bool) (d left : SumData α),
      s.differentiate args recalc d = .stopped left (.refused e) →
      s.DifferentiateLeaves args recalc d e left) ∧
    (∀ (c : Cost α) (update? : Option (KinematicsUpdate α)) (h : α) (recalc : Bool)
      (d left : CostData α),
      (Cost.differences c update? h).differentiate args recalc d = .stopped left (.refused e) →
      left.derivatives = d.derivatives ∧ c.DifferencesLeave update? h args recalc d e left) ∧
    (∀ (c : ResidualCost α) (recalc : Bool) (d left : CostData α),
      (Cost.residual c).differentiate args recalc d = .stopped left (.refused e) → left = d) ∧
    (∀ (c : Cost α) (d left : CostData α), c.evaluate args d = .stopped left (.refused e) →
      left = d) := by
  refine ⟨?_, ?_, ?_, ?_, ?_⟩
  · intro s d left hStop
    exact CostSum.evaluateLeaves hStop
  · intro s recalc d left hStop
    exact CostSum.differentiateLeaves hStop
  · intro c update? h recalc d left hStop
    exact ⟨Cost.derivatives_of_stopped hStop, Cost.differencesLeave hStop⟩
  · intro c recalc d left hStop
    have hFault : Fault.refused e ≠ .shapes := nofun
    exact ((ResidualCost.differentiate_eq_stopped_iff hFault recalc).mp hStop).1
  · intro c d left hStop
    exact (Cost.evaluate_eq_stopped.mp hStop).1

end Differences

theorem nu_toolEffort (ref : Vec Float) (h : Residual.control #[0] = .control ref) : 1 = ref.size := by
  cases h
  rfl

def toolEffort : ResidualCost Float where
  state := ⟨(Model.empty : Model Float).edited toolRun⟩
  activation := .quadratic 1
  nu := 1
  residual := .control #[0]
  accepted := rfl
  nu_eq := nu_toolEffort

def toolSum : CostSum Float :=
  (CostSum.empty toolEffort.state 1).edited
    [.add "effort" (.residual toolEffort) 1, .add "reach" (.residual ResidualCost.toolReach) 1]

def brokenUpdate : Cost Float :=
  .differences (.residual toolEffort) (some fun _ _ _ _ => .error (.unknownJoint "hinge")) 1

def isRefused {σ : Type} (o : Outcome (Fault Float) σ) : Bool :=
  match o with
  | .stopped _ (.refused _) => true
  | _ => false

theorem exists_of_isRefused {σ : Type} {o : Outcome (Fault Float) σ} (h : isRefused o = true) :
    ∃ left e, o = .stopped left (.refused e) := by
  unfold isRefused at h
  split at h
  · exact ⟨_, _, rfl⟩
  · cases h

open ResidualCost in
theorem refused_call_leaves_tool :
    (∃ left e, toolSum.evaluate bareArgs toolSum.createData = .stopped left (.refused e) ∧
      toolSum.EvaluateLeaves bareArgs toolSum.createData e left) ∧
    (∃ left e, toolSum.differentiate bareArgs false toolSum.createData = .stopped left (.refused e) ∧
      toolSum.DifferentiateLeaves bareArgs false toolSum.createData e left) ∧
    (∃ left e, brokenUpdate.differentiate bareArgs true brokenUpdate.createData =
      .stopped left (.refused e) ∧ left.derivatives = brokenUpdate.createData.derivatives) ∧
    ∃ left e, (Cost.residual toolReach).differentiate bareArgs true toolReach.createData =
      .stopped left (.refused e) ∧ left = toolReach.createData := by
  refine ⟨?_, ?_, ?_, ?_⟩
  · obtain ⟨left, e, hStop⟩ := exists_of_isRefused
      (o := toolSum.evaluate bareArgs toolSum.createData) (by decide +kernel)
    exact ⟨left, e, hStop, (refused_call_leaves bareArgs e).1 toolSum _ left hStop⟩
  · obtain ⟨left, e, hStop⟩ := exists_of_isRefused
      (o := toolSum.differentiate bareArgs false toolSum.createData) (by decide +kernel)
    exact ⟨left, e, hStop, (refused_call_leaves bareArgs e).2.1 toolSum false _ left hStop⟩
  · obtain ⟨left, e, hStop⟩ := exists_of_isRefused
      (o := brokenUpdate.differentiate bareArgs true brokenUpdate.createData) (by decide +kernel)
    have hLeaves := (refused_call_leaves bareArgs e).2.2.1 (.residual toolEffort) _ 1 true _ left hStop
    exact ⟨left, e, hStop, hLeaves.1⟩
  · obtain ⟨left, e, hStop⟩ := exists_of_isRefused
      (o := (Cost.residual toolReach).differentiate bareArgs true toolReach.createData)
      (by decide +kernel)
    exact ⟨left, e, hStop, (refused_call_leaves bareArgs e).2.2.2.1 toolReach true _ left hStop⟩

open ResidualCost in
/-- The cost of the effort alone is left as the total. -/
theorem not_intact_tool :
    ∃ left e, toolSum.evaluate bareArgs toolSum.createData = .stopped left (.refused e) ∧
      left.totals.cost = 0.5 ∧ left ≠ toolSum.createData := by
  obtain ⟨left, e, hStop⟩ := exists_of_isRefused
    (o := toolSum.evaluate bareArgs toolSum.createData) (by decide +kernel)
  have hCost : (toolSum.evaluate bareArgs toolSum.createData).data.totals.cost = 0.5 := by
    decide +kernel
  rw [hStop] at hCost
  refine ⟨left, e, hStop, hCost, ?_⟩
  rintro rfl
  have hFresh : toolSum.createData.totals.cost ≠ 0.5 := by decide +kernel
  exact hFresh hCost

end MultibodyCost
