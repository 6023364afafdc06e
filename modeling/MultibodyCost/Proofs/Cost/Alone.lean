import MultibodyCost.Proofs.Cost.History

/-! # What a cost computes by itself

Differentiating with the residual on fresh data evaluates the residual and the cost and then finds
the derivatives; the second part leaves what the first has found.
-/

namespace MultibodyCost

variable {α : Type}

/-- The residual and the cost at it. -/
def CostData.values (d : CostData α) : Vec α × α := (d.r, d.cost)

def CostData.valuePart (d : CostData α) : (Vec α × α) × α := (d.values, d.activation.value)

namespace Cost

variable [Elementary α]

theorem valuePart_linearize {c : ResidualCost α} {d : CostData α} (hSized : (residual c).Sized d)
    (args : Arguments α) :
    (c.residual.linearize c.state c.nu args d).data.valuePart = d.valuePart := by
  have hValues := congrArg CostData.valuePart (forgetJacobians_linearize hSized args)
  exact hValues

omit [Elementary α] in
theorem valuePart_of_assemble [Scalar α] {a : Activation α} {d d' : CostData α}
    (h : d.assemble? a = some d') : d'.valuePart = d.valuePart := by
  obtain ⟨-, rfl⟩ := of_assemble h
  rfl

theorem valuePart_fillQuotients (c : Cost α) (update? : Option (KinematicsUpdate α)) (h : α)
    (args : Arguments α) (d : CostData α) :
    (c.fillQuotients update? h args d).data.valuePart = d.valuePart := by
  have hValues := congrArg CostData.valuePart (c.forgetJacobians_fillQuotients update? h args d)
  exact hValues

theorem valuePart_differentiate (c : Cost α) (args : Arguments α) (d : CostData α) :
    (c.differentiate args false d).data.valuePart = d.valuePart := by
  cases c with
  | residual c =>
    rw [differentiate, ResidualCost.differentiate, Outcome.kept_andThen CostData.valuePart]
    · exact Outcome.kept_reading CostData.valuePart fun _ _ => rfl
    · intro d₁ hStart
      have hSized := (kept_of_start hStart).2
      rw [Outcome.kept_andThen CostData.valuePart, valuePart_linearize hSized]
      intro d₂ _
      apply Outcome.kept_attempt
      intro d₃ hDone
      exact valuePart_of_assemble (ofShapes_eq_ok hDone)
  | differences c update? h =>
    rw [differentiate_differences]
    cases hCheck : args.check (differences c update? h).state (differences c update? h).nr
        (differences c update? h).nu d with
    | error fault => rfl
    | ok passed =>
      have hFill := valuePart_fillQuotients c update? h args d
      simp only [Bool.false_eq_true, if_false, Outcome.andThen_done]
      rw [Outcome.kept_andThen CostData.valuePart, hFill]
      intro d' _
      apply Outcome.kept_attempt
      intro d'' hDone
      exact valuePart_of_assemble (ofShapes_eq_ok hDone)

theorem values_differentiate (c : Cost α) (args : Arguments α) (d : CostData α) :
    (c.differentiate args false d).data.values = d.values :=
  congrArg Prod.fst (c.valuePart_differentiate args d)

/-- The data after the residual and the cost were evaluated on fresh data. -/
def evaluated (c : Cost α) (args : Arguments α) : CostData α := (c.evaluate args c.createData).data

def alone (c : Cost α) (args : Arguments α) : CostData α :=
  (c.differentiate args true c.createData).data

theorem sized_evaluated (c : Cost α) (args : Arguments α) : c.Sized (c.evaluated args) :=
  c.sized_createData.of_kept (c.kept_evaluate args c.createData)

theorem sized_alone (c : Cost α) (args : Arguments α) : c.Sized (c.alone args) :=
  c.sized_createData.of_kept (c.kept_differentiate args true c.createData)

theorem alone_of_parts {c : Cost α} {args : Arguments α} {d : CostData α}
    (hEvaluate : c.evaluate args c.createData = .done (c.evaluated args))
    (hDerive : c.differentiate args false (c.evaluated args) = .done d) :
    c.differentiate args true c.createData = .done d ∧ d = c.alone args ∧
      (c.evaluated args).values = d.values := by
  have hWhole : c.differentiate args true c.createData = .done d := by
    rw [differentiate_recalc, hEvaluate]
    exact hDerive
  have hValues := c.values_differentiate args (c.evaluated args)
  rw [hDerive] at hValues
  exact ⟨hWhole, by rw [alone, hWhole]; rfl, hValues.symm⟩

end Cost

end MultibodyCost
