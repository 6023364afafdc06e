import MultibodyCost.Proofs.Cost.Preserved
import MultibodyCost.Proofs.Linear.Filling

/-! # The kept part of its data decides what a cost computes

Two data of a cost with one kept part may hold any residuals, gradients and derivatives. Evaluating
the residual makes them alike, differentiating makes them equal, and both runs stop at the same
fault if they stop. So the result does not depend on the calls that were made before.
-/

namespace MultibodyCost

variable {α : Type}

theorem Agree.ofShapes {β β' : Type} {R : β → β' → Prop} {x : Option β} {y : Option β'}
    (h : Option.Rel R x y) :
    Agree R (Fault.ofShapes x : Except (Fault α) β) (Fault.ofShapes y) := by
  cases h with
  | some hR => exact .ok _ _ hR
  | none => exact .error Fault.shapes

namespace Cost

/-- Data of a cost after its residual was evaluated at one place: the kept part, the residual and
the values are the same, and the dimensions those of the cost. -/
structure Alike [Scalar α] (c : Cost α) (d e : CostData α) : Prop where
  kept : c.kept d = c.kept e
  sized : c.Sized d
  residual : d.r = e.r
  value : d.activation.value = e.activation.value
  cost : d.cost = e.cost

structure Linear [Scalar α] (c : Cost α) (d e : CostData α) : Prop extends c.Alike d e where
  rx : d.rx = e.rx
  ru : d.ru = e.ru

variable [Elementary α]

theorem evaluate_alike {c : Cost α} {d e : CostData α} (h : c.kept d = c.kept e)
    (args : Arguments α) :
    Agree c.Alike (c.evaluate args d).result (c.evaluate args e).result := by
  have hValues : Agree (fun d' e' => d'.r = e'.r ∧ d'.activation.value = e'.activation.value ∧
      d'.cost = e'.cost) (c.evaluate args d).result (c.evaluate args e).result := by
    rw [result_evaluate, result_evaluate, Arguments.check_congr (sameSizes_of_kept h)]
    refine .bind_same _ fun _ _ => .bind_same _ fun r _ => ?_
    exact .ok _ _ ⟨rfl, rfl, rfl⟩
  refine hValues.mono ?_
  rintro d' e' hd he ⟨hR, hValue, hCost⟩
  have hDoneD := Outcome.result_eq_ok_iff.mp hd
  have hKept := kept_of_evaluate hDoneD
  exact ⟨hKept.trans (h.trans (kept_of_evaluate (Outcome.result_eq_ok_iff.mp he)).symm),
    (of_check (of_evaluate hDoneD).1).2.of_kept hKept, hR, hValue, hCost⟩

omit [Elementary α] in
theorem hessian_congr [Scalar α] {a : Activation α} {h h' : Mat α}
    (hKept : a.keptHessian h = a.keptHessian h') (r : Vec α) : a.hessian h r = a.hessian h' r := by
  cases a with
  | quadratic n => exact hKept
  | weighted w => exact hKept
  | barrier b =>
    obtain ⟨hRows, hCols⟩ := Mat.blank_eq_iff.mp hKept
    rw [Activation.hessian, Activation.hessian, hRows, hCols]

theorem assemble_eq {c : Cost α} {d e : CostData α} (h : c.Linear d e) :
    d.assemble? c.activation = e.assemble? c.activation := by
  have hHessian := hessian_congr (congrArg Kept.hessian h.kept) e.r
  have hAct : c.activation.differentiate d.activation e.r false =
      c.activation.differentiate e.activation e.r false := by
    simp only [Activation.differentiate, Bool.false_eq_true, if_false, h.value, hHessian]
  have hFits : ∀ act, d.Fits act ↔ e.Fits act := by
    intro act
    rw [CostData.Fits, CostData.Fits, h.rx, h.ru]
  simp only [CostData.assemble?, h.residual, hAct]
  split
  · rename_i hFit
    rw [if_pos ((hFits _).mp hFit)]
    simp only [h.rx, h.ru, h.cost]
  · rename_i hFit
    rw [if_neg fun h => hFit ((hFits _).mpr h)]

end Cost

namespace Residual

variable [Elementary α]

omit [Elementary α] in
theorem agree_writeColumns [Scalar α] {k : Nat} {d e : CostData α}
    (h : Mat.FilledCols k d.rx e.rx) (n : Nat) (block : Mat α) :
    Agree (fun d' e' => d' = { d with rx := d'.rx } ∧ e' = { e with rx := e'.rx } ∧
        Mat.FilledCols (k + n) d'.rx e'.rx ∧ d'.rx.cols = d.rx.cols)
      (d.writeColumns k n block).result (e.writeColumns k n block).result := by
  have hPlaced : Agree (fun m m' => Mat.FilledCols (k + n) m m' ∧ m.cols = d.rx.cols)
      (Fault.ofShapes (d.rx.placeColumns? k n block) : Except (Fault α) (Mat α))
      (Fault.ofShapes (e.rx.placeColumns? k n block)) :=
    (Agree.ofShapes (h.placeColumns? block)).mono fun m m' hm _ hFilled =>
      ⟨hFilled, (of_placeColumns (ofShapes_eq_ok hm)).2⟩
  rw [CostData.writeColumns, CostData.writeColumns, Outcome.result_reading, Outcome.result_reading]
  exact hPlaced.bind fun m m' hFilled => .ok _ _ ⟨rfl, rfl, hFilled⟩

theorem linearize_rx {s : Multibody α} {nu : Nat} {args : Arguments α} {residual : Residual α}
    (hState : ∀ ref, residual ≠ .control ref) {d e : CostData α} (hRows : d.rx.rows = e.rx.rows)
    (hCols : d.rx.cols = e.rx.cols) (hNdx : d.rx.cols = s.ndx) :
    Agree (fun d' e' => d' = { d with rx := d'.rx } ∧ e' = { e with rx := e'.rx } ∧ d'.rx = e'.rx)
      (residual.linearize s nu args d).result (residual.linearize s nu args e).result := by
  have ofBlock : ∀ block : Mat α,
      Agree (fun d' e' => d' = { d with rx := d'.rx } ∧ e' = { e with rx := e'.rx } ∧
          d'.rx = e'.rx)
        (d.clearState.writeColumns 0 s.nv block).result
        (e.clearState.writeColumns 0 s.nv block).result := by
    intro block
    rw [CostData.writeColumns, CostData.writeColumns, CostData.clearState, CostData.clearState,
      Outcome.result_reading, Outcome.result_reading, hRows, hCols]
    exact .bind_same _ fun rx _ => .ok _ _ ⟨rfl, rfl, rfl⟩
  cases residual with
  | control ref => exact absurd rfl (hState ref)
  | state ref =>
    rw [linearize, linearize, Outcome.result_reading, Outcome.result_reading]
    exact .bind_same _ fun j _ => .ok _ _ ⟨rfl, rfl, rfl⟩
  | com ref => exact ofBlock _
  | placement id ref =>
    rw [linearize, linearize, Outcome.result_reading, Outcome.result_reading]
    exact .bind_same _ fun f _ => ofBlock _
  | translation id ref =>
    rw [linearize, linearize, Outcome.result_reading, Outcome.result_reading]
    exact .bind_same _ fun f _ => ofBlock _
  | velocity id ref =>
    rw [linearize, linearize, Outcome.result_reading, Outcome.result_reading]
    refine .bind_same _ fun f _ => ?_
    rw [Outcome.result_andThen, Outcome.result_andThen]
    refine (agree_writeColumns (.start hRows hCols) s.nv f.velocityByConfiguration).bind ?_
    rintro d₁ e₁ ⟨hD, hE, hFilled, hWidth⟩
    rw [Nat.zero_add] at hFilled
    refine (agree_writeColumns hFilled s.nv f.velocityByVelocity).mono ?_
    rintro d₂ e₂ - - ⟨hD₂, hE₂, hFilled₂, hWidth₂⟩
    -- the two blocks of columns fill the matrix: its width is that of a tangent
    have hFull : d₂.rx.cols = 2 * s.nv := hWidth₂.trans (hWidth.trans hNdx)
    refine ⟨hD₂.trans ?_, hE₂.trans ?_, hFilled₂.eq (by omega)⟩
    · rw [hD]
    · rw [hE]

end Residual

namespace Cost

variable [Elementary α]

theorem linear_of_linearize {c : ResidualCost α} {args : Arguments α} {d e d' e' : CostData α}
    (h : (residual c).Alike d e) (hd : c.residual.linearize c.state c.nu args d = .done d')
    (he : c.residual.linearize c.state c.nu args e = .done e') (hR : d'.r = e'.r)
    (hValue : d'.activation.value = e'.activation.value) (hCost : d'.cost = e'.cost)
    (hRx : d'.rx = e'.rx) (hRu : d'.ru = e'.ru) : (residual c).Linear d' e' := by
  have hSizedE : (residual c).Sized e := h.sized.of_kept h.kept.symm
  have hKeptD := kept_of_linearize h.sized hd
  have hKeptE := kept_of_linearize hSizedE he
  exact ⟨⟨hKeptD.trans (h.kept.trans hKeptE.symm), h.sized.of_kept hKeptD, hR, hValue, hCost⟩,
    hRx, hRu⟩

omit [Elementary α] in
theorem ru_eq_of_kept [Scalar α] {c : ResidualCost α} {d e : CostData α}
    (hState : ∀ ref, c.residual ≠ .control ref) (h : (residual c).kept d = (residual c).kept e) :
    d.ru = e.ru := by
  have hRu := congrArg Kept.ru h
  obtain ⟨s, a, nu, kind, hAccepted, hNu⟩ := c
  cases kind with
  | control ref => exact absurd rfl (hState ref)
  | _ => exact hRu

theorem linearize_linear {c : ResidualCost α} {d e : CostData α} (h : (residual c).Alike d e)
    (args : Arguments α) :
    Agree (residual c).Linear (c.residual.linearize c.state c.nu args d).result
      (c.residual.linearize c.state c.nu args e).result := by
  have hSizes := sameSizes_of_kept h.kept
  by_cases hState : ∀ ref, c.residual ≠ .control ref
  · refine (Residual.linearize_rx hState hSizes.rxRows hSizes.rxCols h.sized.rx_shape.2).mono ?_
    rintro d' e' hd he ⟨hD, hE, hRx⟩
    have hRu := ru_eq_of_kept hState h.kept
    refine linear_of_linearize h (Outcome.result_eq_ok_iff.mp hd) (Outcome.result_eq_ok_iff.mp he)
      ?_ ?_ ?_ hRx ?_
    · rw [hD, hE]
      exact h.residual
    · rw [hD, hE]
      exact h.value
    · rw [hD, hE]
      exact h.cost
    · rw [hD, hE]
      exact hRu
  · obtain ⟨ref, hRef⟩ := Classical.not_forall.mp hState
    have hKind : c.residual = .control ref := Classical.not_not.mp hRef
    have hRx : d.rx = e.rx := by
      have hKept := congrArg Kept.rx h.kept
      simpa only [kept, keptState, Residual.keptState, hKind] using hKept
    have hControl : Agree (fun d' e' => d' = { d with ru := .identity c.nu } ∧
        e' = { e with ru := .identity c.nu })
        (c.residual.linearize c.state c.nu args d).result
        (c.residual.linearize c.state c.nu args e).result := by
      rw [hKind]
      exact .ok _ _ ⟨rfl, rfl⟩
    refine hControl.mono ?_
    rintro d' e' hd he ⟨rfl, rfl⟩
    exact linear_of_linearize h (Outcome.result_eq_ok_iff.mp hd) (Outcome.result_eq_ok_iff.mp he)
      h.residual h.value h.cost hRx rfl

omit [Elementary α] in
theorem agree_fill {R : Nat → CostData α → CostData α → Prop} {d e : CostData α} (h : R 0 d e)
    (col : Nat → Except (Fault α) (Vec α)) (put : Nat → Vec α → CostData α → CostData α)
    (hPut : ∀ i v d e, R i d e → R (i + 1) (put i v d) (put i v e)) (n : Nat) :
    Agree (R n)
      (Outcome.forEach (List.range n) d fun i d => .attempt d ((col i).map fun v => put i v d)).result
      (Outcome.forEach (List.range n) e fun i d =>
        .attempt d ((col i).map fun v => put i v d)).result := by
  apply Outcome.agree_forEach_range h
  intro i d e hR
  rw [Outcome.result_attempt, Outcome.result_attempt]
  exact .bind_same _ fun v _ => .ok _ _ (hPut i v d e hR)

theorem fillQuotients_linear {c : Cost α} {update? : Option (KinematicsUpdate α)} {h : α}
    {d e : CostData α} (hAlike : (differences c update? h).Alike d e) {args : Arguments α}
    (hU : args.u.size = (differences c update? h).nu) :
    Agree (differences c update? h).Linear (c.fillQuotients update? h args d).result
      (c.fillQuotients update? h args e).result := by
  unfold fillQuotients
  dsimp only
  rw [hAlike.residual, Outcome.result_andThen, Outcome.result_andThen]
  have hSizes := sameSizes_of_kept hAlike.kept
  have hStates := agree_fill (R := fun k d e =>
      (differences c update? h).Alike d e ∧ Mat.FilledCols k d.rx e.rx)
    ⟨hAlike, .start hSizes.rxRows hSizes.rxCols⟩ (stateQuotient c update? h args e.r)
    (fun i v d => { d with rx := d.rx.putColumn i v })
    (fun i v d e hR => ⟨⟨hR.1.kept, hR.1.sized, hR.1.residual, hR.1.value, hR.1.cost⟩,
      hR.2.putColumn v⟩) c.state.ndx
  refine hStates.bind fun d₁ e₁ h₁ => ?_
  have hRx : d₁.rx = e₁.rx := h₁.2.eq (Nat.le_of_eq h₁.1.sized.rxCols)
  have hSizes₁ := sameSizes_of_kept h₁.1.kept
  have hControls := agree_fill (R := fun k d e =>
      (differences c update? h).Alike d e ∧ d.rx = e.rx ∧ Mat.FilledCols k d.ru e.ru)
    ⟨h₁.1, hRx, .start hSizes₁.ruRows hSizes₁.ruCols⟩ (controlQuotient c h args e.r)
    (fun j v d => { d with ru := d.ru.putColumn j v })
    (fun j v d e hR => ⟨⟨hR.1.kept, hR.1.sized, hR.1.residual, hR.1.value, hR.1.cost⟩, hR.2.1,
      hR.2.2.putColumn v⟩) args.u.size
  refine hControls.mono ?_
  rintro d₂ e₂ - - ⟨hA, hRx₂, hFilled⟩
  refine ⟨hA, hRx₂, hFilled.eq ?_⟩
  rw [hU]
  exact Nat.le_of_eq hA.sized.ruCols

theorem differentiate_alike {c : Cost α} {d e : CostData α} (h : c.Alike d e)
    (args : Arguments α) :
    (c.differentiate args false d).result = (c.differentiate args false e).result := by
  apply Agree.eq
  have hCheck : args.check c.state c.nr c.nu d = args.check c.state c.nr c.nu e :=
    Arguments.check_congr (sameSizes_of_kept h.kept)
  have hAssemble : ∀ d' e', c.Linear d' e' →
      Agree (fun d e => d = e) (Fault.ofShapes (d'.assemble? c.activation) : Except (Fault α) _)
        (Fault.ofShapes (e'.assemble? c.activation)) := by
    intro d' e' hLinear
    rw [assemble_eq hLinear]
    exact .same _
  cases c with
  | residual c =>
    have hPassed : args.check c.state c.nr c.nu d = args.check c.state c.nr c.nu e := hCheck
    simp only [differentiate, ResidualCost.differentiate, ResidualCost.start_false, hPassed,
      Outcome.result_andThen, Outcome.result_reading, Outcome.result_attempt]
    cases args.check c.state c.nr c.nu e with
    | error fault => exact .error fault
    | ok passed => exact (linearize_linear h args).bind hAssemble
  | differences c update? step =>
    rw [differentiate_differences, differentiate_differences, hCheck]
    cases hPassed : args.check (differences c update? step).state (differences c update? step).nr
        (differences c update? step).nu e with
    | error fault => exact .error fault
    | ok passed =>
      simp only [Bool.false_eq_true, if_false, Outcome.andThen_done, Outcome.result_andThen,
        Outcome.result_attempt]
      exact (fillQuotients_linear h (of_check hPassed).1).bind hAssemble

theorem check_of_evaluate {c : Cost α} {args : Arguments α} {d d' : CostData α}
    (h : c.evaluate args d = .done d') : args.check c.state c.nr c.nu d' = .ok () := by
  rw [Arguments.check_congr (sameSizes_of_kept (kept_of_evaluate h))]
  exact (of_evaluate h).1

/-- The second phase behind the first: the check has passed, and passes again. -/
theorem differentiate_recalc (c : Cost α) (args : Arguments α) (d : CostData α) :
    c.differentiate args true d =
      (c.evaluate args d).andThen fun d => c.differentiate args false d := by
  cases c with
  | residual c =>
    simp only [differentiate, evaluate, ResidualCost.differentiate, ResidualCost.start_true,
      ResidualCost.start_false]
    cases hEvaluate : c.evaluate args d with
    | stopped left fault => rfl
    | done d' =>
      have hAgain : args.check c.state c.nr c.nu d' = .ok () :=
        check_of_evaluate (c := residual c) hEvaluate
      rw [Outcome.andThen_done, Outcome.andThen_done, hAgain]
      rfl
  | differences c update? step =>
    rw [differentiate_differences]
    cases hEvaluate : (differences c update? step).evaluate args d with
    | stopped left fault =>
      obtain ⟨rfl, hCheck | ⟨hCheck, -⟩⟩ := evaluate_eq_stopped.mp hEvaluate
      · rw [hCheck]
        rfl
      · rw [hCheck]
        rfl
    | done d' =>
      rw [(of_evaluate hEvaluate).1, Outcome.andThen_done, differentiate_differences,
        check_of_evaluate hEvaluate]
      rfl

theorem differentiate_of_kept {c : Cost α} {d e : CostData α} (h : c.kept d = c.kept e)
    (args : Arguments α) :
    (c.differentiate args true d).result = (c.differentiate args true e).result := by
  rw [differentiate_recalc, differentiate_recalc, Outcome.result_andThen, Outcome.result_andThen]
  apply Agree.eq
  refine (evaluate_alike h args).bind fun d' e' hAlike => ?_
  rw [differentiate_alike hAlike]
  exact .same _

end Cost

end MultibodyCost
