import MultibodyCost.Proofs.Cost.Kept

/-! # Every call of a cost keeps the kept part

What an evaluation writes has the dimensions of what was there: residuals and Jacobians are as large
as the cost says, and the check has seen that the buffers are.
-/

namespace MultibodyCost

variable {α : Type}

section Sizes

variable [Elementary α]

theorem size_foldl_place {ι : Type} (xs : List ι) (start : ι → Nat) (block : ι → Vec α)
    (out : Vec α) : (xs.foldl (fun v x => v.place (start x) (block x)) out).size = out.size := by
  induction xs generalizing out with
  | nil => rfl
  | cons x xs ih => rw [List.foldl_cons, ih, Vec.size_place]

namespace Multibody

theorem size_of_diff {s : Multibody α} {x0 x1 dx : Vec α} (h : s.diff x0 x1 = .ok dx) :
    dx.size = s.ndx := by
  obtain ⟨-, -, h⟩ := bind_eq_ok.mp h
  obtain ⟨-, -, h⟩ := bind_eq_ok.mp h
  cases h
  rw [Vec.size_place, placeDiffs, size_foldl_place, Vec.size_zeros]

theorem blank_foldl {β : Type} {step : Mat α → β → Mat α} (h : ∀ m x, (step m x).blank = m.blank)
    (xs : List β) (m : Mat α) : (xs.foldl step m).blank = m.blank := by
  induction xs generalizing m with
  | nil => rfl
  | cons x xs ih => exact (ih (step m x)).trans (h m x)

theorem blockJacobian_shape (s : Multibody α) (sign : α) (blocks : JointKind.Blocks α) (d : Vec α) :
    (s.blockJacobian sign blocks d).rows = s.ndx ∧ (s.blockJacobian sign blocks d).cols = s.ndx := by
  have hBlank : (s.blockJacobian sign blocks d).blank = ((Mat.identity s.ndx).scale sign).blank := by
    apply blank_foldl
    intro m j
    cases j.kind.block? blocks (d.slice j.idxV j.kind.nv) with
    | none => rfl
    | some b => rfl
  exact Mat.blank_eq_iff.mp hBlank

theorem jdiff_second_shape {s : Multibody α} {x0 x1 : Vec α} {j : Jacobians α}
    (h : s.jdiff x0 x1 .second = .ok j) : j.second.rows = s.ndx ∧ j.second.cols = s.ndx := by
  obtain ⟨dx, -, h⟩ := bind_eq_ok.mp h
  cases h
  exact s.blockJacobian_shape 1 diffSecond dx

end Multibody

omit [Elementary α] in
theorem ofModel_eq_ok {β : Type} {x : Except (ModelError α) β} {b : β}
    (h : Fault.ofModel x = .ok b) : x = .ok b := by
  cases x with
  | error e => cases h
  | ok b' =>
    cases h
    rfl

omit [Elementary α] in
theorem ofShapes_eq_ok {β : Type} {x : Option β} {b : β}
    (h : (Fault.ofShapes x : Except (Fault α) β) = .ok b) : x = some b := by
  cases x with
  | none => cases h
  | some b' =>
    cases h
    rfl

namespace Residual

theorem size_of_value {s : Multibody α} {args : Arguments α} {residual : Residual α} {r : Vec α}
    (hControl : ∀ ref, residual = .control ref → args.u.size = ref.size)
    (h : residual.value s args = .ok r) : r.size = residual.nr s := by
  cases residual with
  | state ref => exact Multibody.size_of_diff (ofModel_eq_ok h)
  | control ref =>
    cases h
    exact (Vec.size_sub args.u ref).trans (hControl ref rfl)
  | com ref =>
    cases h
    rfl
  | placement id ref =>
    obtain ⟨f, -, h⟩ := bind_eq_ok.mp h
    cases h
    rfl
  | translation id ref =>
    obtain ⟨f, -, h⟩ := bind_eq_ok.mp h
    cases h
    rfl
  | velocity id ref =>
    obtain ⟨f, -, h⟩ := bind_eq_ok.mp h
    cases h
    rfl

omit [Elementary α] in
theorem of_placeColumns [Scalar α] {m block out : Mat α} {c n : Nat}
    (h : m.placeColumns? c n block = some out) : out.rows = m.rows ∧ out.cols = m.cols := by
  unfold Mat.placeColumns? at h
  split at h
  · cases h
    exact ⟨rfl, rfl⟩
  · cases h

end Residual

/-- The data `e` is `d` but for the state Jacobian, and that has kept its shape. -/
structure CostData.StateRewritten (d e : CostData α) : Prop where
  data : e = { d with rx := e.rx }
  rows : e.rx.rows = d.rx.rows
  cols : e.rx.cols = d.rx.cols

namespace CostData.StateRewritten

omit [Elementary α]

variable {d e f : CostData α}

theorem refl (d : CostData α) : d.StateRewritten d := ⟨rfl, rfl, rfl⟩

theorem trans (h : d.StateRewritten e) (h' : e.StateRewritten f) : d.StateRewritten f := by
  refine ⟨?_, h'.rows.trans h.rows, h'.cols.trans h.cols⟩
  rw [h'.data, h.data]

theorem reading {β : Type} {x : Except (Fault α) β} {next : β → Evaluation α}
    (h : ∀ b, x = .ok b → d.StateRewritten (next b).data) :
    d.StateRewritten (Outcome.reading d x next).data := by
  cases x with
  | error fault => exact refl d
  | ok b => exact h b rfl

theorem andThen {o : Evaluation α} (h : d.StateRewritten o.data) {next : CostData α → Evaluation α}
    (hNext : ∀ e, o = .done e → e.StateRewritten (next e).data) :
    d.StateRewritten (o.andThen next).data := by
  cases o with
  | stopped left fault => exact h
  | done e => exact h.trans (hNext e rfl)

variable [Scalar α]

theorem clearState (d : CostData α) : d.StateRewritten d.clearState := ⟨rfl, rfl, rfl⟩

theorem writeColumns (d : CostData α) (c n : Nat) (block : Mat α) :
    d.StateRewritten (d.writeColumns c n block).data := by
  refine reading fun rx hPlaced => ?_
  obtain ⟨hRows, hCols⟩ := Residual.of_placeColumns (ofShapes_eq_ok hPlaced)
  exact ⟨rfl, hRows, hCols⟩

end CostData.StateRewritten

theorem Residual.stateRewritten_linearize {s : Multibody α} (nu : Nat) (args : Arguments α)
    {residual : Residual α} {d : CostData α} (hState : ∀ ref, residual ≠ .control ref)
    (hRows : d.rx.rows = residual.nr s) (hCols : d.rx.cols = s.ndx) :
    d.StateRewritten (residual.linearize s nu args d).data := by
  have ofBlock : ∀ block, d.StateRewritten (d.clearState.writeColumns 0 s.nv block).data :=
    fun block => (CostData.StateRewritten.clearState d).trans (.writeColumns _ 0 s.nv block)
  cases residual with
  | control ref => exact absurd rfl (hState ref)
  | state ref =>
    refine .reading fun j hJ => ?_
    obtain ⟨hJRows, hJCols⟩ := Multibody.jdiff_second_shape (ofModel_eq_ok hJ)
    exact ⟨rfl, hJRows.trans hRows.symm, hJCols.trans hCols.symm⟩
  | com ref => exact ofBlock _
  | placement id ref => exact .reading fun f _ => ofBlock _
  | translation id ref => exact .reading fun f _ => ofBlock _
  | velocity id ref =>
    refine .reading fun f _ => ?_
    exact .andThen (.writeColumns d 0 s.nv f.velocityByConfiguration) fun e _ =>
      .writeColumns e s.nv s.nv f.velocityByVelocity

namespace ResidualCost

theorem nr_eq (c : ResidualCost α) : c.nr = c.residual.nr c.state := by
  have h := c.accepted
  unfold Residual.fault? at h
  split at h
  · cases h
  · split at h
    · assumption
    · cases h

end ResidualCost

namespace Activation

theorem size_gradient (a : Activation α) (r : Vec α) : (a.gradient r).size = r.size := by
  cases a with
  | quadratic n => rfl
  | weighted w => exact Vec.size_mulEntries w.values r
  | barrier b => exact Vec.size_ofFn r.size _

omit [Elementary α] in
theorem keptHessian_hessian [Scalar α] (a : Activation α) (old : Mat α) (r : Vec α) :
    a.keptHessian (a.hessian old r) = a.keptHessian old := by
  cases a <;> rfl

end Activation

end Sizes

def CostData.assembled [Scalar α] (d : CostData α) (a : Activation α) : CostData α :=
  let act := a.differentiate d.activation d.r false
  { d with
    activation := act
    lx := d.rx.trMulVec act.gradient
    lu := d.ru.trMulVec act.gradient
    lxx := d.rx.trMul (act.hessian.mul d.rx)
    lxu := d.rx.trMul (act.hessian.mul d.ru)
    luu := d.ru.trMul (act.hessian.mul d.ru) }

theorem of_assemble [Scalar α] {a : Activation α} {d d' : CostData α}
    (h : d.assemble? a = some d') :
    d.Fits (a.differentiate d.activation d.r false) ∧ d' = d.assembled a := by
  unfold CostData.assemble? at h
  dsimp only at h
  split at h
  · rename_i hFits
    exact ⟨hFits, (Option.some.inj h).symm⟩
  · cases h

def CostData.forgetJacobians [Scalar α] (d : CostData α) : CostData α :=
  { d with rx := d.rx.blank, ru := d.ru.blank }

namespace Cost

variable [Elementary α]

theorem evaluate_eq_base (c : Cost α) (args : Arguments α) (d : CostData α) :
    c.evaluate args d = c.base.evaluate args d := by
  induction c with
  | residual c => rfl
  | differences c update h ih => exact ih

theorem of_evaluate {c : Cost α} {args : Arguments α} {d d' : CostData α}
    (h : c.evaluate args d = .done d') :
    args.check c.state c.nr c.nu d = .ok () ∧
      ∃ r, r.size = c.nr ∧ c.base.residual.value c.base.state args = .ok r ∧
        d' = d.activate c.activation r := by
  rw [evaluate_eq_base, ResidualCost.evaluate] at h
  obtain ⟨⟨⟩, hCheck, h⟩ := Outcome.reading_eq_done.mp h
  obtain ⟨r, hValue, h⟩ := Outcome.reading_eq_done.mp h
  cases h
  have hU := (of_check hCheck).1
  have hSize := Residual.size_of_value (fun ref hRef => hU.trans (c.base.nu_eq ref hRef)) hValue
  exact ⟨hCheck, r, hSize.trans c.base.nr_eq.symm, hValue, rfl⟩

theorem result_evaluate (c : Cost α) (args : Arguments α) (d : CostData α) :
    (c.evaluate args d).result = (args.check c.state c.nr c.nu d).bind fun _ =>
      (c.base.residual.value c.base.state args).bind fun r =>
        .ok (d.activate c.activation r) := by
  rw [evaluate_eq_base, ResidualCost.evaluate, Outcome.result_reading]
  simp only [Outcome.result_reading]
  rfl

/-- Both readings of an evaluation come before it writes. -/
theorem evaluate_eq_stopped {c : Cost α} {args : Arguments α} {d left : CostData α} {e : Fault α} :
    c.evaluate args d = .stopped left e ↔
      left = d ∧ (args.check c.state c.nr c.nu d = .error e ∨
        args.check c.state c.nr c.nu d = .ok () ∧
          c.base.residual.value c.base.state args = .error e) := by
  rw [evaluate_eq_base, ResidualCost.evaluate, Outcome.reading_eq_stopped]
  simp only [Outcome.reading_eq_stopped, reduceCtorEq, and_false, exists_false, or_false]
  constructor
  · rintro (⟨rfl, hCheck⟩ | ⟨⟨⟩, hCheck, rfl, hValue⟩)
    · exact ⟨rfl, .inl hCheck⟩
    · exact ⟨rfl, .inr ⟨hCheck, hValue⟩⟩
  · rintro ⟨rfl, hCheck | ⟨hCheck, hValue⟩⟩
    · exact .inl ⟨rfl, hCheck⟩
    · exact .inr ⟨(), hCheck, rfl, hValue⟩

omit [Elementary α] in
theorem kept_activate [Scalar α] (c : Cost α) (d : CostData α) {r : Vec α} (h : r.size = d.r.size) :
    c.kept (d.activate c.activation r) = c.kept d := by
  simp only [kept, CostData.activate, Activation.evaluate, h]

theorem kept_of_evaluate {c : Cost α} {args : Arguments α} {d d' : CostData α}
    (h : c.evaluate args d = .done d') : c.kept d' = c.kept d := by
  obtain ⟨hCheck, r, hSize, -, rfl⟩ := of_evaluate h
  exact c.kept_activate d (hSize.trans (of_check hCheck).2.residual.symm)

theorem kept_evaluate (c : Cost α) (args : Arguments α) (d : CostData α) :
    c.kept (c.evaluate args d).data = c.kept d := by
  cases h : c.evaluate args d with
  | done d' => exact kept_of_evaluate h
  | stopped left e => rw [(evaluate_eq_stopped.mp h).1, Outcome.data_stopped]

theorem kept_of_stateRewritten {c : ResidualCost α} (hState : ∀ ref, c.residual ≠ .control ref)
    {d e : CostData α} (h : d.StateRewritten e) : (residual c).kept e = (residual c).kept d := by
  have hBlank : e.rx.blank = d.rx.blank := Mat.blank_eq_iff.mpr ⟨h.rows, h.cols⟩
  rw [h.data]
  obtain ⟨s, a, nu, kind, hAccepted, hNu⟩ := c
  cases kind with
  | control ref => exact absurd rfl (hState ref)
  | state ref => simp only [kept, keptState, Residual.keptState, keptControl, hBlank]
  | com ref => simp only [kept, keptState, Residual.keptState, keptControl, hBlank]
  | placement id ref => simp only [kept, keptState, Residual.keptState, keptControl, hBlank]
  | translation id ref => simp only [kept, keptState, Residual.keptState, keptControl, hBlank]
  | velocity id ref => simp only [kept, keptState, Residual.keptState, keptControl, hBlank]

theorem blank_identity_of_sized {c : ResidualCost α} {d : CostData α}
    (hSized : (residual c).Sized d) {ref : Vec α} (hKind : c.residual = .control ref) :
    (Mat.identity c.nu : Mat α).blank = d.ru.blank := by
  have hNr : c.nr = c.residual.nr c.state := c.nr_eq
  rw [hKind, Residual.nr, ← c.nu_eq ref hKind] at hNr
  obtain ⟨hRows, hCols⟩ := hSized.ru_shape
  exact Mat.blank_eq_iff.mpr ⟨(hRows.trans hNr).symm, hCols.symm⟩

theorem kept_linearize {c : ResidualCost α} {d : CostData α} (hSized : (residual c).Sized d)
    (args : Arguments α) :
    (residual c).kept (c.residual.linearize c.state c.nu args d).data = (residual c).kept d := by
  by_cases hState : ∀ ref, c.residual ≠ .control ref
  · obtain ⟨hRows, hCols⟩ := hSized.rx_shape
    exact kept_of_stateRewritten hState
      (Residual.stateRewritten_linearize c.nu args hState (hRows.trans c.nr_eq) hCols)
  · obtain ⟨ref, hRef⟩ := Classical.not_forall.mp hState
    have hKind := Classical.not_not.mp hRef
    simp only [Residual.linearize, Outcome.data_done, kept, keptState, keptControl,
      Residual.keptControl, hKind, blank_identity_of_sized hSized hKind]

theorem forgetJacobians_linearize {c : ResidualCost α} {d : CostData α}
    (hSized : (residual c).Sized d) (args : Arguments α) :
    (c.residual.linearize c.state c.nu args d).data.forgetJacobians = d.forgetJacobians := by
  by_cases hState : ∀ ref, c.residual ≠ .control ref
  · obtain ⟨hRows, hCols⟩ := hSized.rx_shape
    have hWritten := Residual.stateRewritten_linearize c.nu args hState (hRows.trans c.nr_eq) hCols
    rw [hWritten.data, CostData.forgetJacobians, CostData.forgetJacobians,
      Mat.blank_eq_iff.mpr ⟨hWritten.rows, hWritten.cols⟩]
  · obtain ⟨ref, hRef⟩ := Classical.not_forall.mp hState
    have hKind := Classical.not_not.mp hRef
    rw [hKind, Residual.linearize, Outcome.data_done, CostData.forgetJacobians,
      CostData.forgetJacobians, blank_identity_of_sized hSized hKind]

theorem kept_of_linearize {c : ResidualCost α} {args : Arguments α} {d d' : CostData α}
    (hSized : (residual c).Sized d) (h : c.residual.linearize c.state c.nu args d = .done d') :
    (residual c).kept d' = (residual c).kept d := by
  rw [← kept_linearize hSized args, h, Outcome.data_done]

theorem kept_of_assemble {c : Cost α} {d d' : CostData α} (hSized : c.Sized d)
    (h : d.assemble? c.activation = some d') : c.kept d' = c.kept d := by
  have hGradient : d.r.size = d.activation.gradient.size :=
    hSized.residual.trans hSized.gradient.symm
  have hLx : d.rx.cols = d.lx.size := hSized.rx_shape.2.trans hSized.lx.symm
  have hLu : d.ru.cols = d.lu.size := hSized.ru_shape.2.trans hSized.lu.symm
  obtain ⟨-, rfl⟩ := of_assemble h
  simp only [kept, CostData.assembled, Activation.differentiate, Activation.size_gradient,
    Activation.keptHessian_hessian, Mat.trMulVec, Vec.size_ofFn, hGradient, hLx, hLu]

theorem forgetJacobians_fillQuotients (c : Cost α) (update? : Option (KinematicsUpdate α)) (h : α)
    (args : Arguments α) (d : CostData α) :
    (c.fillQuotients update? h args d).data.forgetJacobians = d.forgetJacobians := by
  unfold fillQuotients
  rw [Outcome.kept_andThen CostData.forgetJacobians, Outcome.kept_forEach CostData.forgetJacobians]
  · intro i d
    apply Outcome.kept_attempt
    intro d' hStep
    obtain ⟨col, -, rfl⟩ := map_eq_ok.mp hStep
    rfl
  · intro d' _
    apply Outcome.kept_forEach
    intro j d
    apply Outcome.kept_attempt
    intro d' hStep
    obtain ⟨col, -, rfl⟩ := map_eq_ok.mp hStep
    rfl

theorem kept_fillQuotients (c : Cost α) (update? : Option (KinematicsUpdate α)) (h : α)
    (args : Arguments α) (d : CostData α) :
    (differences c update? h).kept (c.fillQuotients update? h args d).data =
      (differences c update? h).kept d := by
  have hForget := c.forgetJacobians_fillQuotients update? h args d
  have hKept := congrArg (differences c update? h).kept hForget
  exact hKept

theorem kept_of_start {c : ResidualCost α} {args : Arguments α} {recalc : Bool} {d d' : CostData α}
    (h : c.start args recalc d = .done d') :
    (residual c).kept d' = (residual c).kept d ∧ (residual c).Sized d' := by
  cases recalc with
  | true =>
    have hKept := kept_of_evaluate (c := residual c) h
    exact ⟨hKept, (of_check (of_evaluate (c := residual c) h).1).2.of_kept hKept⟩
  | false =>
    obtain ⟨⟨⟩, hCheck, ⟨⟩⟩ := Outcome.reading_eq_done.mp h
    exact ⟨rfl, (of_check (c := residual c) hCheck).2⟩

theorem kept_start (c : Cost α) (args : Arguments α) (recalc : Bool) (d : CostData α) :
    c.kept (if recalc then c.evaluate args d else .done d : Evaluation α).data = c.kept d := by
  cases recalc with
  | true => exact c.kept_evaluate args d
  | false => rfl

theorem differentiate_differences (c : Cost α) (update? : Option (KinematicsUpdate α)) (h : α)
    (args : Arguments α) (recalc : Bool) (d : CostData α) :
    (differences c update? h).differentiate args recalc d =
      match args.check (differences c update? h).state (differences c update? h).nr
        (differences c update? h).nu d with
      | .error fault => .stopped d fault
      | .ok () =>
        (if recalc then (differences c update? h).evaluate args d else .done d).andThen fun d =>
        (c.fillQuotients update? h args d).andThen fun d =>
        .attempt d (Fault.ofShapes (d.assemble? (differences c update? h).activation)) := rfl

theorem kept_differentiate (c : Cost α) (args : Arguments α) (recalc : Bool) (d : CostData α) :
    c.kept (c.differentiate args recalc d).data = c.kept d := by
  cases c with
  | residual c =>
    rw [differentiate, ResidualCost.differentiate, Outcome.kept_andThen (residual c).kept]
    · cases recalc with
      | true => exact (residual c).kept_evaluate args d
      | false => exact Outcome.kept_reading (residual c).kept fun _ _ => rfl
    · intro d₁ hStart
      have hSized := (kept_of_start hStart).2
      rw [Outcome.kept_andThen (residual c).kept, kept_linearize hSized]
      intro d₂ hLinear
      apply Outcome.kept_attempt
      intro d₃ hDone
      exact kept_of_assemble (c := residual c) (hSized.of_kept (kept_of_linearize hSized hLinear))
        (ofShapes_eq_ok hDone)
  | differences c update? h =>
    rw [differentiate_differences]
    cases hCheck : args.check (differences c update? h).state (differences c update? h).nr
        (differences c update? h).nu d with
    | error fault => rfl
    | ok passed =>
      have hSized := (of_check hCheck).2
      have hStart := (differences c update? h).kept_start args recalc d
      rw [Outcome.kept_andThen (differences c update? h).kept, hStart]
      intro d₁ hDone₁
      rw [hDone₁] at hStart
      have hFill := kept_fillQuotients c update? h args d₁
      rw [Outcome.kept_andThen (differences c update? h).kept, hFill]
      intro d₂ hDone₂
      rw [hDone₂] at hFill
      apply Outcome.kept_attempt
      intro d₃ hDone₃
      exact kept_of_assemble (hSized.of_kept (hFill.trans hStart)) (ofShapes_eq_ok hDone₃)

end Cost

/-- One call of a cost or of a sum; at the end of a horizon the control is zero. -/
inductive Call (α : Type) where
  | evaluate (args : Arguments α)
  | differentiate (args : Arguments α) (recalc : Bool)
  | evaluateTerminal (snapshot : Snapshot α) (x : Vec α)
  | differentiateTerminal (snapshot : Snapshot α) (x : Vec α) (recalc : Bool)

namespace Cost

variable [Elementary α]

def call (c : Cost α) (d : CostData α) : Call α → Evaluation α
  | .evaluate args => c.evaluate args d
  | .differentiate args recalc => c.differentiate args recalc d
  | .evaluateTerminal snapshot x => c.evaluate (.terminal snapshot x c.nu) d
  | .differentiateTerminal snapshot x recalc =>
    c.differentiate (.terminal snapshot x c.nu) recalc d

/-- The data that a run of calls leaves behind, done or stopped. -/
def after (c : Cost α) (calls : List (Call α)) (d : CostData α) : CostData α :=
  calls.foldl (fun d call => (c.call d call).data) d

theorem kept_call (c : Cost α) (d : CostData α) (call : Call α) :
    c.kept (c.call d call).data = c.kept d := by
  cases call with
  | evaluate args => exact c.kept_evaluate args d
  | differentiate args recalc => exact c.kept_differentiate args recalc d
  | evaluateTerminal snapshot x => exact c.kept_evaluate _ d
  | differentiateTerminal snapshot x recalc => exact c.kept_differentiate _ recalc d

theorem kept_after (c : Cost α) (calls : List (Call α)) (d : CostData α) :
    c.kept (c.after calls d) = c.kept d := by
  induction calls generalizing d with
  | nil => rfl
  | cons call calls ih => exact (ih _).trans (c.kept_call d call)

end Cost

end MultibodyCost
