import MultibodyCost.Proofs.Cost.History
import MultibodyCost.Proofs.Cost.Shapes
import MultibodyCost.Proofs.Model.Replay
import MultibodyCost.Proofs.State.Offsets

/-! # When a cost refuses a call

A call is refused for a dimension, else for a frame that the snapshot does not have, else it is done.
Evaluating checks and reads before it writes. Differentiating with the residual reads the frame or
compares the states a second time when the values are already written; that reading succeeds where
the first did, so what is refused leaves the data as it was. Data may have been made for another cost
and handed to others in between; its buffers keep the shapes they were made with, and only those are
compared.
-/

namespace MultibodyCost

variable {α : Type}

structure CostData.Shaped (d : CostData α) (nr ndx nu : Nat) : Prop where
  residual : d.r.size = nr
  gradient : d.activation.gradient.size = nr
  hessian : d.activation.hessian.rows = nr ∧ d.activation.hessian.cols = nr
  rx : d.rx.rows = nr ∧ d.rx.cols = ndx
  ru : d.ru.rows = nr ∧ d.ru.cols = nu
  lx : d.lx.size = ndx
  lu : d.lu.size = nu
  lxx : d.lxx.rows = ndx ∧ d.lxx.cols = ndx
  lxu : d.lxu.rows = ndx ∧ d.lxu.cols = nu
  luu : d.luu.rows = nu ∧ d.luu.cols = nu

def CostData.derivatives (d : CostData α) : Vec α × Mat α × Vec α × Vec α × Mat α × Mat α × Mat α :=
  (d.activation.gradient, d.activation.hessian, d.lx, d.lu, d.lxx, d.lxu, d.luu)

def CostData.derivativePart (d : CostData α) : Mat α × Mat α ×
    (Vec α × Mat α × Vec α × Vec α × Mat α × Mat α × Mat α) := (d.rx, d.ru, d.derivatives)

namespace Cost

variable [Elementary α]

theorem shaped_createData (c : Cost α) : c.createData.Shaped c.nr c.state.ndx c.nu where
  residual := Vec.size_zeros c.nr
  gradient := c.sized_createData.gradient
  hessian := hessian_shape rfl
  rx := ⟨rfl, rfl⟩
  ru := ⟨rfl, rfl⟩
  lx := Vec.size_zeros c.state.ndx
  lu := Vec.size_zeros c.nu
  lxx := ⟨rfl, rfl⟩
  lxu := ⟨rfl, rfl⟩
  luu := ⟨rfl, rfl⟩

theorem derivativePart_evaluate (c : Cost α) (args : Arguments α) (d : CostData α) :
    (c.evaluate args d).data.derivativePart = d.derivativePart := by
  cases h : c.evaluate args d with
  | done d' =>
    obtain ⟨-, r, -, -, rfl⟩ := of_evaluate h
    rfl
  | stopped left e => rw [(evaluate_eq_stopped.mp h).1, Outcome.data_stopped]

theorem derivatives_evaluate (c : Cost α) (args : Arguments α) (d : CostData α) :
    (c.evaluate args d).data.derivatives = d.derivatives :=
  congrArg (fun part => part.2.2) (c.derivativePart_evaluate args d)

theorem derivatives_start (c : Cost α) (args : Arguments α) (recalc : Bool) (d : CostData α) :
    (if recalc then c.evaluate args d else .done d : Evaluation α).data.derivatives =
      d.derivatives := by
  cases recalc with
  | true => exact c.derivatives_evaluate args d
  | false => rfl

theorem derivatives_checkedStart (c : ResidualCost α) (args : Arguments α) (recalc : Bool)
    (d : CostData α) :
    (c.start args recalc d).data.derivatives = d.derivatives := by
  cases recalc with
  | true => exact (residual c).derivatives_evaluate args d
  | false => exact Outcome.kept_reading CostData.derivatives fun _ _ => rfl

/-- Both kinds of costs begin with the values, write Jacobians then, and assemble at the end. -/
theorem derivatives_of_stages {start : Evaluation α} {jacobians : CostData α → Evaluation α}
    {a : Activation α} {d left : CostData α} {e : Fault α}
    (hStart : start.data.derivatives = d.derivatives)
    (hWrite : ∀ d₁, start = .done d₁ → (jacobians d₁).data.derivatives = d₁.derivatives)
    (h : (start.andThen fun d => (jacobians d).andThen fun d =>
      .attempt d (Fault.ofShapes (d.assemble? a))) = .stopped left e) :
    left.derivatives = d.derivatives := by
  rcases Outcome.andThen_eq_stopped.mp h with hStopped | ⟨d₁, hDone, h⟩
  · rwa [hStopped] at hStart
  · have hKept := hWrite d₁ hDone
    rw [hDone] at hStart
    rcases Outcome.andThen_eq_stopped.mp h with hStopped | ⟨d₂, hWritten, hAssemble⟩
    · rw [hStopped] at hKept
      exact hKept.trans hStart
    · rw [hWritten] at hKept
      obtain ⟨rfl, -⟩ := Outcome.attempt_eq_stopped.mp hAssemble
      exact hKept.trans hStart

theorem derivatives_of_stopped {c : Cost α} {args : Arguments α} {recalc : Bool} {d left : CostData α}
    {e : Fault α} (h : c.differentiate args recalc d = .stopped left e) :
    left.derivatives = d.derivatives := by
  cases c with
  | residual c =>
    refine derivatives_of_stages (derivatives_checkedStart c args recalc d) ?_ h
    intro d₁ hStart
    have hKept := congrArg CostData.derivatives
      (forgetJacobians_linearize (kept_of_start hStart).2 args)
    exact hKept
  | differences c update? step =>
    rw [differentiate_differences] at h
    split at h
    · cases h
      rfl
    · refine derivatives_of_stages (derivatives_start _ args recalc d) ?_ h
      intro d₁ _
      have hKept := congrArg CostData.derivatives
        (c.forgetJacobians_fillQuotients update? step args d₁)
      exact hKept

theorem check_of_done {c : Cost α} {args : Arguments α} {recalc : Bool} {d d' : CostData α}
    (h : c.differentiate args recalc d = .done d') : args.check c.state c.nr c.nu d = .ok () := by
  cases c with
  | residual c =>
    obtain ⟨d₁, hStart, -⟩ := Outcome.andThen_eq_done.mp h
    cases recalc with
    | true => exact (of_evaluate (c := residual c) hStart).1
    | false =>
      obtain ⟨⟨⟩, hCheck, -⟩ := Outcome.reading_eq_done.mp hStart
      exact hCheck
  | differences c update? step =>
    rw [differentiate_differences] at h
    split at h
    · cases h
    · assumption

section Kept

variable {c : Cost α} {d : CostData α} {nr ndx nu : Nat}

omit [Elementary α] in
theorem shaped_of_sizes {d' : CostData α} (h : d.Shaped nr ndx nu) (hSizes : d'.SameSizes d)
    (hLxx : d'.lxx.rows = ndx ∧ d'.lxx.cols = ndx) (hLxu : d'.lxu.rows = ndx ∧ d'.lxu.cols = nu)
    (hLuu : d'.luu.rows = nu ∧ d'.luu.cols = nu) : d'.Shaped nr ndx nu where
  residual := hSizes.residual.trans h.residual
  gradient := hSizes.gradient.trans h.gradient
  hessian := ⟨hSizes.hessianRows.trans h.hessian.1, hSizes.hessianCols.trans h.hessian.2⟩
  rx := ⟨hSizes.rxRows.trans h.rx.1, hSizes.rxCols.trans h.rx.2⟩
  ru := ⟨hSizes.ruRows.trans h.ru.1, hSizes.ruCols.trans h.ru.2⟩
  lx := hSizes.lx.trans h.lx
  lu := hSizes.lu.trans h.lu
  lxx := hLxx
  lxu := hLxu
  luu := hLuu

omit [Elementary α] in
theorem shaped_of_derivatives {d' : CostData α} (h : d.Shaped nr ndx nu) (hSizes : d'.SameSizes d)
    (hSame : d'.derivatives = d.derivatives) : d'.Shaped nr ndx nu := by
  obtain ⟨-, -, -, -, hLxx, hLxu, hLuu⟩ : d'.activation.gradient = d.activation.gradient ∧
      d'.activation.hessian = d.activation.hessian ∧ d'.lx = d.lx ∧ d'.lu = d.lu ∧
      d'.lxx = d.lxx ∧ d'.lxu = d.lxu ∧ d'.luu = d.luu := by
    simpa only [CostData.derivatives, Prod.mk.injEq] using hSame
  exact shaped_of_sizes h hSizes (hLxx ▸ h.lxx) (hLxu ▸ h.lxu) (hLuu ▸ h.luu)

theorem shaped_evaluate (h : d.Shaped nr ndx nu) (args : Arguments α) :
    (c.evaluate args d).data.Shaped nr ndx nu :=
  shaped_of_derivatives h (sameSizes_of_kept (c.kept_evaluate args d)) (c.derivatives_evaluate args d)

theorem shaped_differentiate (h : d.Shaped nr ndx nu) (args : Arguments α) (recalc : Bool) :
    (c.differentiate args recalc d).data.Shaped nr ndx nu := by
  have hSizes := sameSizes_of_kept (c.kept_differentiate args recalc d)
  cases hOutcome : c.differentiate args recalc d with
  | stopped left e =>
    rw [hOutcome] at hSizes
    exact shaped_of_derivatives h hSizes (derivatives_of_stopped hOutcome)
  | done d' =>
    rw [hOutcome] at hSizes
    have hSized := (of_check (check_of_done hOutcome)).2
    have hDerived := derived_of_done hSized hOutcome
    obtain rfl : c.state.ndx = ndx := hSized.lx.symm.trans h.lx
    obtain rfl : c.nu = nu := hSized.lu.symm.trans h.lu
    exact shaped_of_sizes h hSizes hDerived.lxx hDerived.lxu hDerived.luu

theorem shaped_call (h : d.Shaped nr ndx nu) (call : Call α) :
    (c.call d call).data.Shaped nr ndx nu := by
  cases call with
  | evaluate args => exact shaped_evaluate h args
  | differentiate args recalc => exact shaped_differentiate h args recalc
  | evaluateTerminal snapshot x => exact shaped_evaluate h _
  | differentiateTerminal snapshot x recalc => exact shaped_differentiate h _ recalc

end Kept

end Cost

/-- Data made for a cost, and then handed to calls of any costs, done or not. -/
inductive CostData.MadeFor [Elementary α] (owner : Cost α) : CostData α → Prop
  | created : MadeFor owner owner.createData
  | called {d : CostData α} (h : MadeFor owner d) (c : Cost α) (call : Call α) :
      MadeFor owner (c.call d call).data

theorem CostData.MadeFor.shaped [Elementary α] {owner : Cost α} {d : CostData α}
    (h : d.MadeFor owner) : d.Shaped owner.nr owner.state.ndx owner.nu := by
  induction h with
  | created => exact owner.shaped_createData
  | called _ c call ih => exact Cost.shaped_call ih call

structure ResidualCost.Accepts [Scalar α] (c : ResidualCost α) (args : Arguments α)
    (nr ndx nu : Nat) : Prop where
  state : args.x.size = c.state.nx
  control : args.u.size = c.nu
  snapshot : args.snapshot.nv = c.state.nv
  residual : nr = c.nr
  tangent : ndx = c.state.ndx
  width : nu = c.nu

theorem Arguments.nx_of_check {args : Arguments α} {s : Multibody α} {nr nu : Nat} {d : CostData α}
    {passed : Unit} (h : args.check s nr nu d = .ok passed) : args.x.size = s.nx := by
  unfold check at h
  split at h
  · cases h
  · rename_i hNone
    exact (Dimension.mismatch?_eq_none_iff.mp hNone _ List.mem_cons_self).symm

theorem Arguments.check_cases (args : Arguments α) (s : Multibody α) (nr nu : Nat) (d : CostData α) :
    args.check s nr nu d = .ok () ∨ ∃ m, args.check s nr nu d = .error (.refused (.dimension m)) := by
  unfold check
  cases Dimension.mismatch? (args.dimensions s nr nu d) with
  | none => exact .inl rfl
  | some m => exact .inr ⟨m, rfl⟩

theorem Arguments.check_eq_ok_iff [Scalar α] {args : Arguments α} {c : ResidualCost α}
    {d : CostData α} {nr ndx nu : Nat} (h : d.Shaped nr ndx nu) :
    args.check c.state c.nr c.nu d = .ok () ↔ c.Accepts args nr ndx nu := by
  have hAll : args.check c.state c.nr c.nu d = .ok () ↔
      ∀ m ∈ args.dimensions c.state c.nr c.nu d, m.expected = m.got := by
    rw [← Dimension.mismatch?_eq_none_iff, check]
    cases Dimension.mismatch? (args.dimensions c.state c.nr c.nu d) with
    | none => simp
    | some m => simp
  rw [hAll]
  simp only [dimensions, List.forall_mem_cons, List.not_mem_nil, false_imp_iff, implies_true,
    and_true, h.residual, h.gradient, h.rx.1, h.rx.2, h.ru.1, h.ru.2, h.lx, h.lu]
  constructor
  · rintro ⟨hX, hU, hNv, hNr, -, -, hNdx, -, hNu, -, -⟩
    exact ⟨hX.symm, hU.symm, hNv.symm, hNr.symm, hNdx.symm, hNu.symm⟩
  · rintro ⟨hX, hU, hNv, rfl, rfl, rfl⟩
    exact ⟨hX.symm, hU.symm, hNv.symm, rfl, rfl, rfl, rfl, rfl, rfl, rfl, rfl⟩

theorem Snapshot.frame_eq_error_iff {s : Snapshot α} {id : Nat} {e : ModelError α} :
    s.frame id = .error e ↔ s.frames.size ≤ id ∧ e = .unknownFrame id := by
  rw [← Array.getElem?_eq_none_iff, frame]
  cases s.frames[id]? with
  | some f => simp
  | none => simp [eq_comm]

theorem Fault.eq_shapes_of_ofShapes {β : Type} {x : Option β} {fault : Fault α}
    (h : Fault.ofShapes x = .error fault) : fault = .shapes := by
  cases x with
  | none =>
    cases h
    rfl
  | some b => cases h

theorem Fault.ofModel_eq_error_iff {β : Type} {x : Except (ModelError α) β} {fault : Fault α} :
    Fault.ofModel x = .error fault ↔ ∃ e, x = .error e ∧ fault = .refused (.model e) := by
  cases x with
  | ok b => simp [ofModel]
  | error e => simp [ofModel, eq_comm]

namespace Residual

def frame? : Residual α → Option Nat
  | placement id _ => some id
  | translation id _ => some id
  | velocity id _ => some id
  | _ => none

/-- The residual reads a frame that the snapshot does not have. -/
def LacksFrame (residual : Residual α) (snapshot : Snapshot α) (fault : Fault α) : Prop :=
  ∃ id, residual.frame? = some id ∧ snapshot.frames.size ≤ id ∧
    fault = .refused (.model (.unknownFrame id))

theorem lacksFrame_unknownFrame_iff {residual : Residual α} {snapshot : Snapshot α} {id : Nat} :
    residual.LacksFrame snapshot (.refused (.model (.unknownFrame id))) ↔
      residual.frame? = some id ∧ snapshot.frames.size ≤ id := by
  constructor
  · rintro ⟨id, hId, hMissing, ⟨⟩⟩
    exact ⟨hId, hMissing⟩
  · rintro ⟨hId, hMissing⟩
    exact ⟨id, hId, hMissing, rfl⟩

theorem forall_not_lacksFrame_iff {residual : Residual α} {snapshot : Snapshot α} :
    (∀ fault, ¬residual.LacksFrame snapshot fault) ↔
      ∀ id, residual.frame? = some id → id < snapshot.frames.size := by
  constructor
  · intro hNone id hId
    by_contra hMissing
    exact hNone _ ⟨id, hId, Nat.le_of_not_lt hMissing, rfl⟩
  · rintro hPresent fault ⟨id, hId, hMissing, -⟩
    exact absurd (hPresent id hId) (Nat.not_lt_of_le hMissing)

variable [Elementary α] {s : Multibody α} {args : Arguments α} {residual : Residual α}
  {fault : Fault α}

omit [Elementary α] in
theorem frame_eq_error_iff {id : Nat} {snapshot : Snapshot α} :
    Fault.ofModel (snapshot.frame id) = .error fault ↔
      snapshot.frames.size ≤ id ∧ fault = .refused (.model (.unknownFrame id)) := by
  rw [Fault.ofModel_eq_error_iff]
  constructor
  · rintro ⟨e, hFrame, rfl⟩
    obtain ⟨hNone, rfl⟩ := Snapshot.frame_eq_error_iff.mp hFrame
    exact ⟨hNone, rfl⟩
  · rintro ⟨hNone, rfl⟩
    exact ⟨_, Snapshot.frame_eq_error_iff.mpr ⟨hNone, rfl⟩, rfl⟩

/-- With a state and a reference of the right lengths, a residual is found unless its frame is not
there. -/
theorem value_eq_error_iff (hX : args.x.size = s.nx)
    (hReference : ∀ ref, residual = .state ref → ref.size = s.nx) :
    residual.value s args = .error fault ↔ residual.LacksFrame args.snapshot fault := by
  have ofFrame : ∀ (id : Nat) (g : FrameKinematics α → Vec α),
      ((Fault.ofModel (args.snapshot.frame id)).bind fun f => .ok (g f)) = .error fault ↔
        ∃ i, some id = some i ∧ args.snapshot.frames.size ≤ i ∧
          fault = .refused (.model (.unknownFrame i)) := by
    intro id g
    refine (bind_total_eq_error fun f h => by cases h).trans (frame_eq_error_iff.trans ?_)
    simp
  cases residual with
  | state ref =>
    simp only [value, LacksFrame, frame?, reduceCtorEq, false_and, exists_false, iff_false,
      Fault.ofModel_eq_error_iff, not_exists, not_and]
    intro e hDiff
    rcases Multibody.diff_eq_error_iff.mp hDiff with ⟨hRef, -⟩ | ⟨-, hBad, -⟩
    · exact absurd (hReference ref rfl) hRef
    · exact absurd hX hBad
  | control ref => simp [value, LacksFrame, frame?]
  | com ref => simp [value, LacksFrame, frame?]
  | placement id ref => exact ofFrame id fun f => (placementError ref f.placement).toVec
  | translation id ref => exact ofFrame id fun f => (f.placement.translation - ref).toVec
  | velocity id ref => exact ofFrame id fun f => (f.velocity - ref).toVec

omit [Elementary α] in
theorem writeColumns_eq_stopped [Scalar α] {d left : CostData α} {k n : Nat} {block : Mat α}
    (h : d.writeColumns k n block = .stopped left fault) : fault = .shapes := by
  obtain ⟨-, hBlock⟩ | ⟨rx, -, ⟨⟩⟩ := Outcome.reading_eq_stopped.mp h
  exact Fault.eq_shapes_of_ofShapes hBlock

/-- But for blocks that do not fit, the Jacobian stops where the residual does, and before it is
written. -/
theorem linearize_eq_stopped_iff {nu : Nat} {d left : CostData α} (hFault : fault ≠ .shapes) :
    residual.linearize s nu args d = .stopped left fault ↔
      left = d ∧ residual.value s args = .error fault := by
  -- Behind the frame the residual cannot fail, and the Jacobian only at a block.
  have ofFrame : ∀ (id : Nat) (g : FrameKinematics α → Vec α) (blocks : FrameKinematics α → Evaluation α),
      (∀ f, blocks f = .stopped left fault → fault = .shapes) →
      (Outcome.reading d (Fault.ofModel (args.snapshot.frame id)) blocks = .stopped left fault ↔
        left = d ∧ ((Fault.ofModel (args.snapshot.frame id)).bind fun f => .ok (g f)) = .error fault) := by
    intro id g blocks hBlocks
    have hTotal : ∀ f, (.ok (g f) : Except (Fault α) (Vec α)) ≠ .error fault := fun f h => by cases h
    rw [Outcome.reading_eq_stopped, bind_total_eq_error hTotal, or_iff_left]
    rintro ⟨f, -, hBlock⟩
    exact hFault (hBlocks f hBlock)
  cases residual with
  | state ref =>
    rw [linearize, Outcome.reading_eq_stopped, value, Fault.ofModel_eq_error_iff,
      Fault.ofModel_eq_error_iff]
    simp only [(Multibody.checksLengths s).jdiff, Multibody.diff_eq_error_iff, reduceCtorEq,
      and_false, exists_false, or_false]
  | control ref => exact iff_of_false (fun h => by cases h) fun h => by cases h.2
  | com ref =>
    exact iff_of_false (fun h => hFault (writeColumns_eq_stopped h)) fun h => by cases h.2
  | placement id ref => exact ofFrame id _ _ fun f h => writeColumns_eq_stopped h
  | translation id ref => exact ofFrame id _ _ fun f h => writeColumns_eq_stopped h
  | velocity id ref =>
    refine ofFrame id _ _ fun f h => ?_
    rcases Outcome.andThen_eq_stopped.mp h with hFirst | ⟨d₁, -, hSecond⟩
    · exact writeColumns_eq_stopped hFirst
    · exact writeColumns_eq_stopped hSecond

end Residual

namespace ResidualCost

variable [Elementary α] {c : ResidualCost α} {args : Arguments α} {d left : CostData α}
  {fault : Fault α}

theorem size_reference (c : ResidualCost α) {ref : Vec α} (h : c.residual = .state ref) :
    ref.size = c.state.nx := by
  have hAccepted := c.accepted
  rw [h, Residual.fault?, Residual.referenceFault?] at hAccepted
  cases hMismatch : Dimension.mismatch? [⟨.stateReference, c.state.nx, ref.size⟩] with
  | some m =>
    rw [hMismatch] at hAccepted
    cases hAccepted
  | none =>
    have hSize := Dimension.mismatch?_eq_none_iff.mp hMismatch _ List.mem_cons_self
    exact hSize.symm

theorem value_eq_error_iff_of_check (h : args.check c.state c.nr c.nu d = .ok ()) :
    c.residual.value c.state args = .error fault ↔ c.residual.LacksFrame args.snapshot fault := by
  have hX : args.x.size = c.state.nx := Arguments.nx_of_check h
  exact Residual.value_eq_error_iff hX fun ref hRef => c.size_reference hRef

/-- What an evaluation refuses it refuses at the check, or for a frame behind it, and before it
writes. -/
theorem evaluate_eq_stopped_iff : c.evaluate args d = .stopped left fault ↔
    left = d ∧ (args.check c.state c.nr c.nu d = .error fault ∨
      args.check c.state c.nr c.nu d = .ok () ∧ c.residual.LacksFrame args.snapshot fault) := by
  refine (Cost.evaluate_eq_stopped (c := .residual c)).trans (and_congr_right fun _ => ?_)
  exact or_congr_right (and_congr_right fun hCheck => value_eq_error_iff_of_check hCheck)

/-- The second reading of a frame or a state comes after the values are written; it succeeds where
the first did. -/
theorem differentiate_eq_stopped_iff (hFault : fault ≠ .shapes) (recalc : Bool) :
    c.differentiate args recalc d = .stopped left fault ↔
      left = d ∧ (args.check c.state c.nr c.nu d = .error fault ∨
        args.check c.state c.nr c.nu d = .ok () ∧ c.residual.LacksFrame args.snapshot fault) := by
  have hFinish : ∀ d₁, ((c.residual.linearize c.state c.nu args d₁).andThen fun d =>
      .attempt d (Fault.ofShapes (d.assemble? c.activation))) = .stopped left fault ↔
        left = d₁ ∧ c.residual.value c.state args = .error fault := by
    intro d₁
    rw [Outcome.andThen_eq_stopped, Residual.linearize_eq_stopped_iff hFault, or_iff_left]
    rintro ⟨d₂, -, hAssemble⟩
    exact hFault (Fault.eq_shapes_of_ofShapes (Outcome.attempt_eq_stopped.mp hAssemble).2)
  rw [differentiate, Outcome.andThen_eq_stopped]
  simp only [hFinish]
  cases recalc with
  | true =>
    rw [start_true, evaluate_eq_stopped_iff, or_iff_left]
    rintro ⟨d₁, hEvaluate, -, hValue⟩
    obtain ⟨-, r, -, hFound, -⟩ := Cost.of_evaluate (c := .residual c) hEvaluate
    cases hFound.symm.trans hValue
  | false =>
    rw [start_false]
    cases hCheck : args.check c.state c.nr c.nu d with
    | error e => simp [Outcome.reading, eq_comm]
    | ok passed => simp [Outcome.reading, value_eq_error_iff_of_check hCheck, eq_comm]

end ResidualCost

def Call.arguments [Scalar α] (nu : Nat) : Call α → Arguments α
  | evaluate args => args
  | differentiate args _ => args
  | evaluateTerminal snapshot x => .terminal snapshot x nu
  | differentiateTerminal snapshot x _ => .terminal snapshot x nu

/-- The vectors and matrices that a residual and its Jacobian are computed from fit one another. -/
def Residual.OperandsFit (s : Multibody α) (args : Arguments α) : Residual α → Prop
  | state ref => ref.size = s.nx ∧ args.x.size = s.nx ∧
      ∀ j ∈ s.model.joints, j.idxQ + j.kind.nq ≤ s.nq ∧ j.idxV + j.kind.nv ≤ s.nv
  | control ref => args.u.size = ref.size
  | com _ => args.snapshot.comJacobian.rows = 3 ∧ args.snapshot.comJacobian.cols = s.nv
  | placement id _ => ∀ f, args.snapshot.frame id = .ok f → f.Shaped s.nv
  | translation id _ => ∀ f, args.snapshot.frame id = .ok f → f.Shaped s.nv
  | velocity id _ => ∀ f, args.snapshot.frame id = .ok f → f.Shaped s.nv

namespace ResidualCost

/-- Everything that a call computes from, and every buffer that it writes to, has its shape. -/
structure OperandsFit [Scalar α] (c : ResidualCost α) (args : Arguments α) (d : CostData α) : Prop where
  residual : c.residual.OperandsFit c.state args
  activation : c.nr = c.residual.nr c.state
  bounds : ∀ b, c.activation = .barrier b → b.givenUpper.size = b.givenLower.size
  buffers : d.Shaped c.nr c.state.ndx c.nu

theorem size_bounds [Scalar α] (b : Bounds α) : b.givenUpper.size = b.givenLower.size := by
  have hAccepted := b.accepted
  unfold Bounds.fault? at hAccepted
  split at hAccepted
  · cases hAccepted
  · rename_i hSizes
    exact (Classical.not_not.mp hSizes).symm

variable [Elementary α] {c : ResidualCost α} {args : Arguments α} {d : CostData α} {nr ndx nu : Nat}

theorem operandsFit (hModel : c.state.model.WellFormed) (hSnapshot : args.snapshot.Shaped)
    (hShaped : d.Shaped nr ndx nu) (h : c.Accepts args nr ndx nu) : c.OperandsFit args d := by
  obtain ⟨hX, hU, hNv, rfl, rfl, rfl⟩ := h
  refine ⟨?_, c.nr_eq, fun b _ => size_bounds b, hShaped⟩
  have ofFrame : ∀ id f, args.snapshot.frame id = .ok f → f.Shaped c.state.nv := by
    intro id f hFrame
    rw [← hNv]
    exact Residual.shaped_of_frame hSnapshot (by rw [hFrame]; rfl)
  cases hKind : c.residual with
  | state ref =>
    refine ⟨c.size_reference hKind, hX, fun j hj => ⟨?_, ?_⟩⟩
    · exact (hModel.tilesQ.bounds_of_mem (List.mem_map_of_mem hj)).2
    · exact (hModel.tilesV.bounds_of_mem (List.mem_map_of_mem hj)).2
  | control ref => exact hU.trans (c.nu_eq ref hKind)
  | com ref => exact ⟨hSnapshot.com.1, hSnapshot.com.2.trans hNv⟩
  | placement id ref => exact ofFrame id
  | translation id ref => exact ofFrame id
  | velocity id ref => exact ofFrame id

theorem call_eq_stopped_iff {left : CostData α} {fault : Fault α} (hFault : fault ≠ .shapes)
    (call : Call α) :
    (Cost.residual c).call d call = .stopped left fault ↔
      left = d ∧ ((call.arguments c.nu).check c.state c.nr c.nu d = .error fault ∨
        (call.arguments c.nu).check c.state c.nr c.nu d = .ok () ∧
          c.residual.LacksFrame (call.arguments c.nu).snapshot fault) := by
  cases call with
  | evaluate args => exact evaluate_eq_stopped_iff
  | differentiate args recalc => exact differentiate_eq_stopped_iff hFault recalc
  | evaluateTerminal snapshot x => exact evaluate_eq_stopped_iff
  | differentiateTerminal snapshot x recalc => exact differentiate_eq_stopped_iff hFault recalc

section Calls

variable (hShaped : d.Shaped nr ndx nu) (call : Call α)
  (hSnapshot : (call.arguments c.nu).snapshot.Shaped)

include hShaped hSnapshot

theorem fault_call_ne_shapes : ((Cost.residual c).call d call).fault? ≠ some .shapes := by
  have hHessian : d.activation.hessian.rows = d.r.size ∧ d.activation.hessian.cols = d.r.size := by
    rw [hShaped.residual]
    exact hShaped.hessian
  have hSafe : Safe ((Cost.residual c).call d call).result := by
    cases call with
    | evaluate args => exact Cost.safe_evaluate (.residual c) args d
    | differentiate args recalc =>
      exact Cost.safe_differentiate (c := .residual c) hSnapshot hHessian recalc
    | evaluateTerminal snapshot x => exact Cost.safe_evaluate (.residual c) _ d
    | differentiateTerminal snapshot x recalc =>
      exact Cost.safe_differentiate (c := .residual c) hSnapshot hHessian recalc
  intro hStop
  obtain ⟨left, hOutcome⟩ := Outcome.fault?_eq_some_iff.mp hStop
  rw [hOutcome] at hSafe
  exact hSafe rfl

theorem data_call_of_fault (h : ((Cost.residual c).call d call).fault? ≠ none) :
    ((Cost.residual c).call d call).data = d := by
  have hShapes := fault_call_ne_shapes hShaped call hSnapshot
  cases hOutcome : (Cost.residual c).call d call with
  | done d' => exact absurd (by rw [hOutcome]; rfl) h
  | stopped left fault =>
    have hFault : fault ≠ .shapes := by
      rintro rfl
      exact hShapes (by rw [hOutcome]; rfl)
    exact ((call_eq_stopped_iff hFault call).mp hOutcome).1

theorem fault_call_eq_some_iff {fault : Fault α} :
    ((Cost.residual c).call d call).fault? = some fault ↔
      (call.arguments c.nu).check c.state c.nr c.nu d = .error fault ∨
        c.Accepts (call.arguments c.nu) nr ndx nu ∧
          c.residual.LacksFrame (call.arguments c.nu).snapshot fault := by
  rw [← Arguments.check_eq_ok_iff hShaped]
  constructor
  · intro h
    have hFault : fault ≠ .shapes := by
      rintro rfl
      exact fault_call_ne_shapes hShaped call hSnapshot h
    obtain ⟨left, hOutcome⟩ := Outcome.fault?_eq_some_iff.mp h
    exact ((call_eq_stopped_iff hFault call).mp hOutcome).2
  · intro h
    have hFault : fault ≠ .shapes := by
      rintro rfl
      obtain hCheck | ⟨-, id, -, -, ⟨⟩⟩ := h
      exact safe_check hCheck
    exact Outcome.fault?_eq_some_iff.mpr ⟨d, (call_eq_stopped_iff hFault call).mpr ⟨rfl, h⟩⟩

theorem fault_call_of_accepts (h : c.Accepts (call.arguments c.nu) nr ndx nu) {fault : Fault α} :
    ((Cost.residual c).call d call).fault? = some fault ↔
      c.residual.LacksFrame (call.arguments c.nu).snapshot fault := by
  rw [fault_call_eq_some_iff hShaped call hSnapshot, (Arguments.check_eq_ok_iff hShaped).mpr h]
  simp [h]

theorem exists_dimension_fault_of_not_accepts (h : ¬c.Accepts (call.arguments c.nu) nr ndx nu) :
    ∃ m, ((Cost.residual c).call d call).fault? = some (.refused (.dimension m)) := by
  rcases (call.arguments c.nu).check_cases c.state c.nr c.nu d with hOk | ⟨m, hError⟩
  · exact absurd ((Arguments.check_eq_ok_iff hShaped).mp hOk) h
  · exact ⟨m, (fault_call_eq_some_iff hShaped call hSnapshot).mpr (.inl hError)⟩

theorem accepts_of_done (h : ((Cost.residual c).call d call).fault? = none) :
    c.Accepts (call.arguments c.nu) nr ndx nu := by
  by_contra hNot
  obtain ⟨m, hFault⟩ := exists_dimension_fault_of_not_accepts hShaped call hSnapshot hNot
  cases h.symm.trans hFault

end Calls

/-- On data made for any cost and with any snapshot, a call is refused for a dimension exactly where
one differs from that of the cost, else for a frame exactly where the snapshot does not have it, and
else done with every buffer in its shape; all operands fit then. A refusal leaves the data alone. -/
theorem refused_exactly {α : Type} [Sampled α] {c : ResidualCost α} (hModel : c.state.model.Built)
    {owner : Cost α} {d : CostData α} (hData : d.MadeFor owner) (call : Call α)
    (hSnapshot : (call.arguments c.nu).snapshot.Built) :
    let args := call.arguments c.nu
    let outcome := (Cost.residual c).call d call
    let accepted := c.Accepts args owner.nr owner.state.ndx owner.nu
    ((∃ m, outcome.fault? = some (.refused (.dimension m))) ↔ ¬accepted) ∧
    (accepted → c.OperandsFit args d ∧
      (∀ id, outcome.fault? = some (.refused (.model (.unknownFrame id))) ↔
        c.residual.frame? = some id ∧ args.snapshot.frames.size ≤ id) ∧
      (outcome.fault? = none ↔ ∀ id, c.residual.frame? = some id → id < args.snapshot.frames.size)) ∧
    (outcome.fault? ≠ none → outcome.data = d) ∧
    (outcome.fault? = none → outcome.data.Shaped c.nr c.state.ndx c.nu) ∧
    outcome.fault? ≠ some .shapes := by
  intro args outcome accepted
  have hShaped := hData.shaped
  have hLacks : ∀ (h : accepted) fault, outcome.fault? = some fault ↔
      c.residual.LacksFrame args.snapshot fault :=
    fun h fault => fault_call_of_accepts hShaped call hSnapshot.shaped h
  refine ⟨⟨?_, ?_⟩, ?_, ?_, ?_, ?_⟩
  · rintro ⟨m, hRefused⟩ hAccepted
    obtain ⟨id, -, -, hFrame⟩ := (hLacks hAccepted _).mp hRefused
    cases hFrame
  · exact exists_dimension_fault_of_not_accepts hShaped call hSnapshot.shaped
  · intro hAccepted
    obtain ⟨es, hEdited⟩ := hModel
    have hWellFormed : c.state.model.WellFormed := hEdited ▸ Model.WellFormed.empty.edited es
    refine ⟨operandsFit hWellFormed hSnapshot.shaped hShaped hAccepted, ?_, ?_⟩
    · intro id
      rw [hLacks hAccepted, Residual.lacksFrame_unknownFrame_iff]
    · rw [Option.eq_none_iff_forall_ne_some, ← Residual.forall_not_lacksFrame_iff]
      simp only [ne_eq, hLacks hAccepted]
  · exact data_call_of_fault hShaped call hSnapshot.shaped
  · intro hDone
    have hAccepted := accepts_of_done hShaped call hSnapshot.shaped hDone
    rw [← hAccepted.residual, ← hAccepted.tangent, ← hAccepted.width]
    exact Cost.shaped_call hShaped call
  · exact fault_call_ne_shapes hShaped call hSnapshot.shaped

end ResidualCost

def toolRun : List (Model.Edit Float) :=
  [.jointWithLimits "hinge" .revolute none (-1) 1, .frame "tool" 0]

namespace ResidualCost

def toolReach : ResidualCost Float where
  state := ⟨(Model.empty : Model Float).edited toolRun⟩
  activation := .quadratic 3
  nu := 1
  residual := .translation 1 .zero
  accepted := by decide +kernel
  nu_eq := by
    rintro _ ⟨⟩

def bareArgs : Arguments Float :=
  ⟨.zeros ((Model.empty : Model Float).edited (toolRun.take 1)), #[0, 0], #[1]⟩

theorem refused_exactly_tool :
    toolReach.state.model.Built ∧ bareArgs.snapshot.Built ∧
    let created := (Cost.residual toolReach).createData
    let outcome := (Cost.residual toolReach).call created (.differentiate bareArgs true)
    outcome.fault? = some (.refused (.model (.unknownFrame 1))) ∧ outcome.data = created := by
  have hModel : toolReach.state.model.Built := ⟨toolRun, rfl⟩
  have hSnapshot : bareArgs.snapshot.Built := .zeros _
  refine ⟨hModel, hSnapshot, ?_⟩
  intro created outcome
  have hAccepted : toolReach.Accepts bareArgs (Cost.residual toolReach).nr
      (Cost.residual toolReach).state.ndx (Cost.residual toolReach).nu :=
    ⟨by decide +kernel, rfl, by decide +kernel, rfl, rfl, rfl⟩
  have hData : created.MadeFor (.residual toolReach) := .created
  obtain ⟨-, hFrames, hKept, -, -⟩ :=
    refused_exactly hModel hData (.differentiate bareArgs true) hSnapshot
  have hRefused : outcome.fault? = some (.refused (.model (.unknownFrame 1))) :=
    ((hFrames hAccepted).2.1 1).mpr ⟨rfl, by decide +kernel⟩
  exact ⟨hRefused, hKept (by rw [hRefused]; exact Option.some_ne_none _)⟩

end ResidualCost

end MultibodyCost
