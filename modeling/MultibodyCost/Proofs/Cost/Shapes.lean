import MultibodyCost.Proofs.Cost.Preserved
import MultibodyCost.Proofs.Snapshot

/-! # A cost meets no wrong shapes

The check of a call and the shapes of its snapshot make every block fit where it is written. So on
data with the kept part of fresh data, the calls of a cost are done or refused with an error.
-/

namespace MultibodyCost

variable {α : Type}

/-- A result that did not stop at a block of the wrong shape. -/
def Safe {β : Type} (x : Except (Fault α) β) : Prop := x ≠ .error .shapes

section Safe

variable {β γ : Type}

theorem safe_ok (b : β) : Safe (.ok b : Except (Fault α) β) := nofun

theorem safe_refused (e : CostError α) : Safe (.error (.refused e) : Except (Fault α) β) := by
  intro h
  cases h

theorem safe_ofModel (x : Except (ModelError α) β) : Safe (Fault.ofModel x) := by
  cases x with
  | error e => exact safe_refused (.model e)
  | ok b => exact safe_ok b

theorem safe_ofShapes {x : Option β} (h : x ≠ none) : Safe (Fault.ofShapes x : Except (Fault α) β) := by
  cases x with
  | none => exact absurd rfl h
  | some b => exact safe_ok b

theorem Safe.error {e : Fault α} (h : Safe (.error e : Except (Fault α) β)) :
    Safe (.error e : Except (Fault α) γ) := by
  rintro ⟨⟩
  exact h rfl

theorem Safe.bind {x : Except (Fault α) β} (h : Safe x) {f : β → Except (Fault α) γ}
    (hNext : ∀ b, x = .ok b → Safe (f b)) : Safe (x.bind f) := by
  cases x with
  | error e => exact h.error
  | ok b => exact hNext b rfl

theorem Safe.bind_eq_iff {x : Except (Fault α) β} (h : Safe x) {f : β → Except (Fault α) γ} :
    ¬ Safe (x.bind f) ↔ ∃ b, x = .ok b ∧ ¬ Safe (f b) := by
  cases x with
  | error e =>
    constructor
    · exact fun hStop => absurd h.error hStop
    · rintro ⟨b, hb, -⟩
      cases hb
  | ok b =>
    constructor
    · exact fun hStop => ⟨b, rfl, hStop⟩
    · rintro ⟨b', hb, hStop⟩
      cases hb
      exact hStop

theorem Safe.map {x : Except (Fault α) β} (h : Safe x) (f : β → γ) : Safe (x.map f) := by
  cases x with
  | error e => exact h.error
  | ok b => exact safe_ok (f b)

theorem safe_check {args : Arguments α} {s : Multibody α} {nr nu : Nat} {d : CostData α} :
    Safe (args.check s nr nu d) := by
  unfold Arguments.check
  split
  · exact safe_refused _
  · exact safe_ok ()

theorem safe_forEach {ι σ : Type} (xs : List ι) {step : ι → σ → Outcome (Fault α) σ}
    (h : ∀ x d, Safe (step x d).result) (d : σ) : Safe (Outcome.forEach xs d step).result := by
  induction xs generalizing d with
  | nil => exact safe_ok d
  | cons x xs ih =>
    rw [Outcome.forEach, Outcome.result_andThen]
    exact (h x d).bind fun d' _ => ih d'

end Safe

theorem Arguments.nv_of_check {args : Arguments α} {s : Multibody α} {nr nu : Nat} {d : CostData α}
    {passed : Unit} (h : args.check s nr nu d = .ok passed) : s.nv = args.snapshot.nv := by
  unfold check at h
  split at h
  · cases h
  · rename_i hNone
    have hAll := Dimension.mismatch?_eq_none_iff.mp hNone
    simp only [dimensions, List.forall_mem_cons] at hAll
    exact hAll.2.2.1

variable [Elementary α]

theorem Residual.safe_value (s : Multibody α) (args : Arguments α) (residual : Residual α) :
    Safe (residual.value s args) := by
  cases residual with
  | state ref => exact safe_ofModel _
  | control ref => exact safe_ok _
  | com ref => exact safe_ok _
  | placement id ref => exact (safe_ofModel _).bind fun f _ => safe_ok _
  | translation id ref => exact (safe_ofModel _).bind fun f _ => safe_ok _
  | velocity id ref => exact (safe_ofModel _).bind fun f _ => safe_ok _

namespace Cost

theorem safe_evaluate (c : Cost α) (args : Arguments α) (d : CostData α) :
    Safe (c.evaluate args d).result := by
  rw [result_evaluate]
  exact safe_check.bind fun _ _ => (Residual.safe_value _ _ _).bind fun r _ => safe_ok _

end Cost

namespace Residual

omit [Elementary α] in
theorem placeColumns?_ne_none [Scalar α] {m block : Mat α} {c n : Nat} (hFits : c + n ≤ m.cols)
    (hRows : block.rows = m.rows) (hCols : block.cols = n) : m.placeColumns? c n block ≠ none := by
  rw [Mat.placeColumns?, if_pos ⟨hFits, hRows, hCols⟩]
  exact Option.some_ne_none _

omit [Elementary α] in
theorem shaped_of_frame {s : Snapshot α} (h : s.Shaped) {id : Nat} {f : FrameKinematics α}
    (hFrame : Fault.ofModel (s.frame id) = .ok f) : f.Shaped s.nv := by
  have hFound := ofModel_eq_ok hFrame
  unfold Snapshot.frame at hFound
  split at hFound
  · rename_i g hGet
    cases hFound
    exact h.frames _ (Array.mem_of_getElem? hGet)
  · cases hFound

omit [Elementary α] in
theorem safe_writeColumns [Scalar α] {d : CostData α} {c n : Nat} {block : Mat α}
    (hFits : c + n ≤ d.rx.cols) (hRows : block.rows = d.rx.rows) (hCols : block.cols = n) :
    Safe (d.writeColumns c n block).result := by
  rw [CostData.writeColumns, Outcome.result_reading]
  exact (safe_ofShapes (placeColumns?_ne_none hFits hRows hCols)).bind fun rx _ => safe_ok _

theorem safe_linearize {s : Multibody α} {nu : Nat} {args : Arguments α} {residual : Residual α}
    {d : CostData α} (hSnapshot : args.snapshot.Shaped) (hNv : s.nv = args.snapshot.nv)
    (hRows : d.rx.rows = residual.nr s) (hCols : d.rx.cols = s.ndx) :
    Safe (residual.linearize s nu args d).result := by
  have hWide : 0 + s.nv ≤ d.rx.cols := by
    rw [hCols, Multibody.ndx]
    omega
  have ofBlock : ∀ block : Mat α, block.rows = d.rx.rows → block.cols = s.nv →
      Safe (d.clearState.writeColumns 0 s.nv block).result :=
    fun block hBlockRows hBlockCols => safe_writeColumns (d := d.clearState) hWide hBlockRows hBlockCols
  cases residual with
  | state ref =>
    rw [linearize, Outcome.result_reading]
    exact (safe_ofModel _).bind fun j _ => safe_ok _
  | control ref => exact safe_ok _
  | com ref =>
    obtain ⟨hComRows, hComCols⟩ := hSnapshot.com
    exact ofBlock _ (hComRows.trans hRows.symm) (hComCols.trans hNv.symm)
  | placement id ref =>
    rw [linearize, Outcome.result_reading]
    refine (safe_ofModel _).bind fun f hFrame => ?_
    have hFrameShape := shaped_of_frame hSnapshot hFrame
    exact ofBlock _ hRows.symm (hFrameShape.jacobian.2.trans hNv.symm)
  | translation id ref =>
    rw [linearize, Outcome.result_reading]
    refine (safe_ofModel _).bind fun f hFrame => ?_
    have hFrameShape := shaped_of_frame hSnapshot hFrame
    exact ofBlock _ hRows.symm (hFrameShape.jacobian.2.trans hNv.symm)
  | velocity id ref =>
    rw [linearize, Outcome.result_reading]
    refine (safe_ofModel _).bind fun f hFrame => ?_
    obtain ⟨-, ⟨hQRows, hQCols⟩, ⟨hVRows, hVCols⟩⟩ := shaped_of_frame hSnapshot hFrame
    have hSix : d.rx.rows = 6 := hRows
    rw [Outcome.result_andThen]
    refine (safe_writeColumns hWide (hQRows.trans hSix.symm) (hQCols.trans hNv.symm)).bind
      fun d₁ hFirst => ?_
    have hWritten := CostData.StateRewritten.writeColumns d 0 s.nv f.velocityByConfiguration
    rw [Outcome.data_of_result hFirst] at hWritten
    refine safe_writeColumns ?_ ?_ (hVCols.trans hNv.symm)
    · rw [hWritten.cols, hCols, Multibody.ndx]
      omega
    · exact hVRows.trans (hSix.symm.trans hWritten.rows.symm)

end Residual

namespace Cost

theorem hessian_shape {c : Cost α} {d : CostData α} (h : c.kept d = c.kept c.createData) :
    d.activation.hessian.rows = c.nr ∧ d.activation.hessian.cols = c.nr := by
  have hSizes := sameSizes_of_kept h
  have hFresh : c.createData.activation.hessian.rows = c.nr ∧
      c.createData.activation.hessian.cols = c.nr := by
    change c.activation.createData.hessian.rows = c.activation.nr ∧
      c.activation.createData.hessian.cols = c.activation.nr
    cases c.activation with
    | quadratic n => exact ⟨rfl, rfl⟩
    | weighted w => exact ⟨rfl, rfl⟩
    | barrier b => exact ⟨rfl, rfl⟩
  exact ⟨hSizes.hessianRows.trans hFresh.1, hSizes.hessianCols.trans hFresh.2⟩

theorem sized_of_kept {c : Cost α} {d : CostData α} (h : c.kept d = c.kept c.createData) :
    c.Sized d :=
  c.sized_createData.of_kept h

theorem assemble?_ne_none {a : Activation α} {d : CostData α} (hR : d.r.size = a.nr)
    (hHessian : d.activation.hessian.rows = a.nr ∧ d.activation.hessian.cols = a.nr)
    (hRx : d.rx.rows = a.nr) (hRu : d.ru.rows = a.nr) : d.assemble? a ≠ none := by
  have hNew : (a.hessian d.activation.hessian d.r).rows = a.nr ∧
      (a.hessian d.activation.hessian d.r).cols = a.nr := by
    cases a with
    | quadratic n => exact hHessian
    | weighted w => exact hHessian
    | barrier b => exact hHessian
  have hFits : d.Fits (a.differentiate d.activation d.r false) := by
    refine ⟨?_, ?_, ?_, ?_⟩
    · exact hNew.2.trans hRx.symm
    · exact hNew.2.trans hRu.symm
    · exact hNew.1.trans hRx.symm
    · exact (Activation.size_gradient _ _).trans (hR.trans hRx.symm)
  rw [CostData.assemble?]
  dsimp only
  rw [if_pos hFits]
  exact Option.some_ne_none _

omit [Elementary α] in
theorem hessian_of_sizes {d d' : CostData α} (hSizes : d'.SameSizes d)
    (h : d.activation.hessian.rows = d.r.size ∧ d.activation.hessian.cols = d.r.size) :
    d'.activation.hessian.rows = d'.r.size ∧ d'.activation.hessian.cols = d'.r.size :=
  ⟨hSizes.hessianRows.trans (h.1.trans hSizes.residual.symm),
    hSizes.hessianCols.trans (h.2.trans hSizes.residual.symm)⟩

theorem hessian_of_kept {c : Cost α} {d : CostData α} (h : c.kept d = c.kept c.createData) :
    d.activation.hessian.rows = d.r.size ∧ d.activation.hessian.cols = d.r.size := by
  have hSize := (sized_of_kept h).residual
  exact ⟨(hessian_shape h).1.trans hSize.symm, (hessian_shape h).2.trans hSize.symm⟩

theorem assemble?_of_sized {c : Cost α} {d : CostData α} (hSized : c.Sized d)
    (hHessian : d.activation.hessian.rows = d.r.size ∧ d.activation.hessian.cols = d.r.size) :
    d.assemble? c.activation ≠ none :=
  assemble?_ne_none hSized.residual
    ⟨hHessian.1.trans hSized.residual, hHessian.2.trans hSized.residual⟩ hSized.rx_shape.1
    hSized.ru_shape.1

theorem safe_assemble {c : Cost α} {d : CostData α} (hSized : c.Sized d)
    (hHessian : d.activation.hessian.rows = d.r.size ∧ d.activation.hessian.cols = d.r.size) :
    Safe (Fault.ofShapes (d.assemble? c.activation) : Except (Fault α) (CostData α)) :=
  safe_ofShapes (assemble?_of_sized hSized hHessian)

theorem safe_residualAt (c : Cost α) (args : Arguments α) : Safe (c.residualAt args) := by
  have hSafe := c.safe_evaluate args c.createData
  unfold residualAt
  cases hOutcome : c.evaluate args c.createData with
  | done d => exact safe_ok d.r
  | stopped d fault =>
    rw [hOutcome] at hSafe
    exact hSafe.error

theorem safe_perturbed (s : Multibody α) (update? : Option (KinematicsUpdate α))
    (args : Arguments α) (x : Vec α) : Safe (perturbed s update? args x) := by
  cases update? with
  | none => exact safe_ok _
  | some update =>
    exact (safe_ofModel _).bind fun _ _ => (safe_ofModel _).bind fun snapshot _ => safe_ok _

theorem safe_fillQuotients (c : Cost α) (update? : Option (KinematicsUpdate α)) (h : α)
    (args : Arguments α) (d : CostData α) : Safe (c.fillQuotients update? h args d).result := by
  unfold fillQuotients
  dsimp only
  rw [Outcome.result_andThen]
  refine (safe_forEach _ (fun i d => ?_) d).bind fun d _ => safe_forEach _ (fun j d => ?_) d
  · rw [Outcome.result_attempt]
    refine Safe.map ?_ _
    exact (safe_ofModel _).bind fun x _ => (safe_perturbed _ _ _ _).bind fun args _ =>
      (c.safe_residualAt args).bind fun r _ => safe_ok _
  · rw [Outcome.result_attempt]
    exact ((c.safe_residualAt _).bind fun r _ => safe_ok _).map _

theorem safe_start (c : ResidualCost α) (args : Arguments α) (recalc : Bool) (d : CostData α) :
    Safe (c.start args recalc d).result := by
  cases recalc with
  | true => exact (residual c).safe_evaluate args d
  | false =>
    rw [ResidualCost.start_false, Outcome.result_reading]
    exact safe_check.bind fun _ _ => safe_ok d

theorem nv_of_start {c : ResidualCost α} {args : Arguments α} {recalc : Bool} {d d' : CostData α}
    (h : c.start args recalc d = .done d') :
    c.state.nv = args.snapshot.nv := by
  cases recalc with
  | true => exact Arguments.nv_of_check (of_evaluate (c := residual c) h).1
  | false =>
    obtain ⟨_, hCheck, -⟩ := Outcome.reading_eq_done.mp h
    exact Arguments.nv_of_check hCheck

/-- With a snapshot in shape and a Hessian as large as the residual, whatever else is in the data. -/
theorem safe_differentiate {c : Cost α} {args : Arguments α} (hSnapshot : args.snapshot.Shaped)
    {d : CostData α}
    (hHessian : d.activation.hessian.rows = d.r.size ∧ d.activation.hessian.cols = d.r.size)
    (recalc : Bool) : Safe (c.differentiate args recalc d).result := by
  cases c with
  | residual c =>
    rw [differentiate, ResidualCost.differentiate, Outcome.result_andThen]
    refine (safe_start c args recalc d).bind fun d₁ hResult => ?_
    have hStart := Outcome.result_eq_ok_iff.mp hResult
    obtain ⟨hKept, hSized⟩ := kept_of_start hStart
    have hNr : (residual c).nr = c.residual.nr c.state := c.nr_eq
    rw [Outcome.result_andThen]
    refine Safe.bind ?_ fun d₂ hLinear => ?_
    · exact Residual.safe_linearize hSnapshot (nv_of_start hStart)
        (hSized.rx_shape.1.trans hNr) hSized.rx_shape.2
    · have hKept' := kept_of_linearize hSized (Outcome.result_eq_ok_iff.mp hLinear)
      have hSizes := sameSizes_of_kept (hKept'.trans hKept)
      rw [Outcome.result_attempt]
      exact safe_assemble (c := residual c) (hSized.of_kept hKept')
        (hessian_of_sizes hSizes hHessian)
  | differences c update? step =>
    rw [differentiate_differences]
    cases hCheck : args.check (differences c update? step).state (differences c update? step).nr
        (differences c update? step).nu d with
    | error fault =>
      have hSafe : Safe (args.check (differences c update? step).state
        (differences c update? step).nr (differences c update? step).nu d) := safe_check
      rw [hCheck] at hSafe
      exact hSafe.error
    | ok passed =>
      have hKeptStart := (differences c update? step).kept_start args recalc d
      have hSafeStart : Safe (if recalc then (differences c update? step).evaluate args d
          else .done d : Evaluation α).result := by
        cases recalc with
        | true => exact safe_evaluate _ args d
        | false => exact safe_ok d
      dsimp only
      rw [Outcome.result_andThen]
      refine hSafeStart.bind fun d₁ hStart => ?_
      rw [Outcome.data_of_result hStart] at hKeptStart
      rw [Outcome.result_andThen]
      refine (c.safe_fillQuotients update? step args d₁).bind fun d₂ hFill => ?_
      have hKept := kept_fillQuotients c update? step args d₁
      rw [Outcome.data_of_result hFill, hKeptStart] at hKept
      rw [Outcome.result_attempt]
      exact safe_assemble ((of_check hCheck).2.of_kept hKept)
        (hessian_of_sizes (sameSizes_of_kept hKept) hHessian)

theorem exists_assemble {c : Cost α} {args : Arguments α} {recalc : Bool} {d d' : CostData α}
    (h : c.differentiate args recalc d = .done d') :
    ∃ d₀ : CostData α, d₀.assemble? c.activation = some d' := by
  cases c with
  | residual c =>
    obtain ⟨_, -, hRest⟩ := Outcome.andThen_eq_done.mp h
    obtain ⟨d₀, -, hLast⟩ := Outcome.andThen_eq_done.mp hRest
    exact ⟨d₀, ofShapes_eq_ok (Outcome.attempt_eq_done.mp hLast)⟩
  | differences c update? step =>
    rw [differentiate_differences] at h
    split at h
    · cases h
    · obtain ⟨_, -, hRest⟩ := Outcome.andThen_eq_done.mp h
      obtain ⟨d₀, -, hLast⟩ := Outcome.andThen_eq_done.mp hRest
      exact ⟨d₀, ofShapes_eq_ok (Outcome.attempt_eq_done.mp hLast)⟩

structure Derived (d : CostData α) (nr ndx nu : Nat) : Prop where
  rx : d.rx.rows = nr ∧ d.rx.cols = ndx
  ru : d.ru.rows = nr ∧ d.ru.cols = nu
  lx : d.lx.size = ndx
  lu : d.lu.size = nu
  lxx : d.lxx.rows = ndx ∧ d.lxx.cols = ndx
  lxu : d.lxu.rows = ndx ∧ d.lxu.cols = nu
  luu : d.luu.rows = nu ∧ d.luu.cols = nu

theorem derived_of_done {c : Cost α} {args : Arguments α} {recalc : Bool} {d d' : CostData α}
    (hSized : c.Sized d) (h : c.differentiate args recalc d = .done d') :
    Derived d' c.nr c.state.ndx c.nu := by
  have hKept := c.kept_differentiate args recalc d
  rw [h] at hKept
  have hSized' : c.Sized d' := hSized.of_kept hKept
  have hRx := hSized'.rx_shape
  have hRu := hSized'.ru_shape
  obtain ⟨d₀, hAssemble⟩ := exists_assemble h
  obtain ⟨-, rfl⟩ := of_assemble hAssemble
  exact ⟨hRx, hRu, hSized'.lx, hSized'.lu, ⟨hRx.2, hRx.2⟩, ⟨hRx.2, hRu.2⟩, ⟨hRu.2, hRu.2⟩⟩

end Cost

end MultibodyCost
