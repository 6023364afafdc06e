import MultibodyCost.Proofs.Sum.Interrupted

/-! # The two phases of an evaluation

Evaluating writes the values: the residual, the cost, the value of the activation. Differentiating
without the residual writes all the rest and reads the values. Neither touches what the other
writes, where it is done and where it stops halfway, in the data of a sum and in those of its items.
So the phases can be asked for one after the other or at once, with the same result and data.
-/

namespace MultibodyCost

/-- Evaluating leaves the derivatives alone, differentiating without the residual leaves the values
alone, and one after the other is differentiating with the residual. -/
structure TwoPhased {ε σ κ κ' : Type} (values : σ → κ) (derivatives : σ → κ')
    (evaluate : σ → Outcome ε σ) (differentiate : Bool → σ → Outcome ε σ) (d : σ) : Prop where
  evaluating : derivatives (evaluate d).data = derivatives d
  differentiating : values (differentiate false d).data = values d
  agree : ∀ d', evaluate d = .done d' → differentiate false d' = differentiate true d

variable {α : Type}

namespace Totals

def valuePart (t : Totals α) : Vec α × α := (t.r, t.cost)

def derivativePart (t : Totals α) : Mat α × Mat α × Vec α × Vec α × Mat α × Mat α × Mat α :=
  (t.rx, t.ru, t.lx, t.lu, t.lxx, t.lxu, t.luu)

end Totals

namespace SumData

def valuePart (d : SumData α) : (Vec α × α) × List String × List ((Vec α × α) × α) :=
  (d.totals.valuePart, d.items.names, d.items.map fun x => x.2.valuePart)

def derivativePart (d : SumData α) : (Mat α × Mat α × Vec α × Vec α × Mat α × Mat α × Mat α) ×
    List String × List (Mat α × Mat α × Vec α × Mat α × Vec α × Vec α × Mat α × Mat α × Mat α) :=
  (d.totals.derivativePart, d.items.names, d.items.map fun x => x.2.derivativePart)

end SumData

variable [Elementary α]

namespace Cost

theorem twoPhased (c : Cost α) (args : Arguments α) (d : CostData α) :
    TwoPhased CostData.valuePart CostData.derivativePart (c.evaluate args) (c.differentiate args) d where
  evaluating := c.derivativePart_evaluate args d
  differentiating := c.valuePart_differentiate args d
  agree d' h := by
    rw [differentiate_recalc, h, Outcome.andThen_done]

end Cost

namespace CostSum

section Pass

variable (evaluate : Cost α → CostData α → Outcome (Fault α) (CostData α))
  (enter : Totals α → Nat → α → CostData α → Option (Totals α))

theorem pass_keeps_items {κ κ' : Type} {f : CostData α → κ} {g : Totals α → κ'}
    (hEvaluate : ∀ (c : Cost α) d, f (evaluate c d).data = f d)
    (hEnter : ∀ t row weight d t', enter t row weight d = some t' → g t' = g t)
    {s : CostSum α} {d : SumData α} (hNames : d.items.names = s.items.names) (t : Totals α) :
    let out := (pass evaluate enter (s.zipData d) 0 t).data
    out.items.names = d.items.names ∧
      out.items.map (fun x => f x.2) = d.items.map (fun x => f x.2) ∧ g out.totals = g t := by
  obtain ⟨hFst, hSnd⟩ := zipData_maps hNames
  obtain ⟨hOut, hItems, hTotals⟩ :=
    pass_keeps (f := fun _ d => f d) (g := g) hEvaluate hEnter (s.zipData d) 0 t
  intro out
  rw [hSnd] at hOut
  have hLength : out.items.length = ((s.zipData d).map Prod.fst).length := by
    have hLengths := congrArg List.length hOut
    rw [Named.names, Named.names, List.length_map, List.length_map] at hLengths
    rw [hLengths, ← hSnd, List.length_map, List.length_map]
  have hLeft : (((s.zipData d).map Prod.fst).zip out.items).map (fun x => f x.2.2) =
      out.items.map fun x => f x.2 := by
    have hZip := List.map_snd_zip (Nat.le_of_eq hLength)
    rw [← congrArg (List.map fun x => f x.2) hZip, List.map_map]
    rfl
  have hRight : (s.zipData d).map (fun x => f x.2.2) = d.items.map fun x => f x.2 := by
    rw [← hSnd, List.map_map]
    rfl
  exact ⟨hOut, hLeft.symm.trans (hItems.trans hRight), hTotals⟩

end Pass

theorem derivativePart_evaluate (s : CostSum α) (args : Arguments α) (d : SumData α) :
    (s.evaluate args d).data.derivativePart = d.derivativePart := by
  rw [evaluate, checked]
  cases hFault : s.fault? args d with
  | some e => rfl
  | none =>
    obtain ⟨hNames, hItems, hTotals⟩ := pass_keeps_items (fun c => c.evaluate args)
      Totals.addValue? (f := CostData.derivativePart) (g := Totals.derivativePart)
      (fun c d => c.derivativePart_evaluate args d) (fun t row weight d t' hEnter => by
        obtain ⟨r, -, hEnter⟩ := Option.bind_eq_some_iff.mp hEnter
        cases hEnter
        rfl) (names_of_fault hFault).1 { d.totals with cost := 0 }
    exact congrArg₂ Prod.mk hTotals (congrArg₂ Prod.mk hNames hItems)

theorem valuePart_derive (s : CostSum α) (args : Arguments α) {d : SumData α}
    (hNames : d.items.names = s.items.names) : (s.derive args d).data.valuePart = d.valuePart := by
  obtain ⟨hOut, hItems, hTotals⟩ := pass_keeps_items (fun c => c.differentiate args false)
    Totals.addDerivatives? (f := CostData.valuePart) (g := Totals.valuePart) (fun c d => c.valuePart_differentiate args d)
    (fun t row weight d t' hEnter => by
      obtain ⟨hR, hCost⟩ := (Totals.addDerivatives?_eq_some hEnter).values
      exact congrArg₂ Prod.mk hR hCost) hNames d.totals.clear
  exact congrArg₂ Prod.mk hTotals (congrArg₂ Prod.mk hOut hItems)

theorem valuePart_differentiate (s : CostSum α) (args : Arguments α) (d : SumData α) :
    (s.differentiate args false d).data.valuePart = d.valuePart := by
  rw [differentiate_eq, if_neg Bool.false_ne_true, checked]
  cases hFault : s.fault? args d with
  | some e => rfl
  | none => exact s.valuePart_derive args (names_of_fault hFault).1

theorem checked_of_evaluated {s : CostSum α} {args : Arguments α} {d d' : SumData α}
    (h : s.evaluate args d = .done d') (work : Outcome (Fault α) (SumData α)) :
    s.checked args d' work = work := by
  have hKept := s.kept_evaluate args d
  rw [h] at hKept
  rw [checked, fault?_congr (show s.kept d' = s.kept d from hKept)]
  rw [evaluate, checked] at h
  split at h
  · cases h
  · rfl

theorem twoPhased (s : CostSum α) (args : Arguments α) (d : SumData α) :
    TwoPhased SumData.valuePart SumData.derivativePart (s.evaluate args) (s.differentiate args) d where
  evaluating := s.derivativePart_evaluate args d
  differentiating := s.valuePart_differentiate args d
  agree d' h := by
    rw [differentiate_eq, differentiate_eq, if_neg Bool.false_ne_true, if_pos rfl,
      checked_of_evaluated h, h]

end CostSum

/-- On data that a cost, or a sum built by any run of changes, has made and then been called on in
any way, the phases are separate and agree. -/
theorem phases_separate (args : Arguments α) :
    (∀ (c : Cost α) (calls : List (Call α)),
      TwoPhased CostData.valuePart CostData.derivativePart (c.evaluate args) (c.differentiate args)
        (c.after calls c.createData)) ∧
    ∀ (state : Multibody α) (nu : Nat) (es : List (CostSum.Edit α)) (calls : List (Call α)),
      let s := (CostSum.empty state nu).edited es
      TwoPhased SumData.valuePart SumData.derivativePart (s.evaluate args) (s.differentiate args)
        (s.after calls s.createData) := by
  constructor
  · intro c calls
    exact c.twoPhased args (c.after calls c.createData)
  · intro state nu es calls s
    exact s.twoPhased args (s.after calls s.createData)

def quotientEffort : Cost Float := .differences (.residual toolEffort) none 1

theorem phases_separate_tool :
    ResidualCost.bareArgs.snapshot.Built ∧
    (∃ left e, toolSum.evaluate ResidualCost.bareArgs toolSum.createData =
        .stopped left (.refused e) ∧
      left.derivativePart = toolSum.createData.derivativePart) ∧
    ∃ d, quotientEffort.evaluate ResidualCost.bareArgs quotientEffort.createData = .done d ∧
      quotientEffort.differentiate ResidualCost.bareArgs false d =
        quotientEffort.differentiate ResidualCost.bareArgs true quotientEffort.createData := by
  have hSnapshot : ResidualCost.bareArgs.snapshot.Built := .zeros _
  obtain ⟨hCosts, hSums⟩ := phases_separate ResidualCost.bareArgs
  refine ⟨hSnapshot, ?_, ?_⟩
  · obtain ⟨left, e, hStop⟩ := exists_of_isRefused
      (o := toolSum.evaluate ResidualCost.bareArgs toolSum.createData) (by decide +kernel)
    have hKept : (toolSum.evaluate ResidualCost.bareArgs toolSum.createData).data.derivativePart =
        toolSum.createData.derivativePart :=
      (hSums toolEffort.state 1 [.add "effort" (.residual toolEffort) 1,
        .add "reach" (.residual ResidualCost.toolReach) 1] []).evaluating
    rw [hStop] at hKept
    exact ⟨left, e, hStop, hKept⟩
  · obtain ⟨d, hDone⟩ := Outcome.exists_done
      (o := quotientEffort.evaluate ResidualCost.bareArgs quotientEffort.createData)
      (by decide +kernel)
    exact ⟨d, hDone, (hCosts quotientEffort []).agree d hDone⟩

end MultibodyCost
