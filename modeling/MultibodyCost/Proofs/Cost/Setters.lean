import MultibodyCost.Proofs.Cost.Refusal

/-! # Snapshots that are set, and the costs that read them

A setter is done exactly where what it is given has the dimensions of the snapshot, and then it
changes that and nothing else. So a snapshot keeps the dimensions of the model that it was made for
along every run of setters, done or refused, and no cost meets a block of another shape in it.
-/

namespace MultibodyCost

variable {α : Type}

namespace Snapshot

inductive Setting (α : Type) where
  | frame (id : Nat) (f : FrameKinematics α)
  | com (com : Vec3 α) (jacobian : Mat α)

def Setting.Fits (nv frames : Nat) : Setting α → Prop
  | .frame id f => f.Shaped nv ∧ id < frames
  | .com _ jacobian => jacobian.rows = 3 ∧ jacobian.cols = nv

/-- The snapshot `t` is `s` with what is set changed, and nothing else. -/
def Setting.Changes (s t : Snapshot α) : Setting α → Prop
  | .frame id f => t = { s with frames := t.frames } ∧ t.frames.size = s.frames.size ∧
      t.frames[id]? = some f ∧ ∀ k, k ≠ id → t.frames[k]? = s.frames[k]?
  | .com c jacobian => t = { s with com := c, comJacobian := jacobian }

def set (s : Snapshot α) : Setting α → Outcome (ModelError α) (Snapshot α)
  | .frame id f => .attempt s (s.setFrame id f)
  | .com com jacobian => .attempt s (s.setCom com jacobian)

def after (s : Snapshot α) (settings : List (Setting α)) : Snapshot α :=
  settings.foldl (fun s setting => (s.set setting).data) s

/-- A new snapshot for a model: empty, or at random. -/
inductive MadeFor [Sampled α] (m : Model α) : Snapshot α → Prop
  | zeros : MadeFor m (.zeros m)
  | random {words rest : List UInt64} {s : Snapshot α}
      (h : Snapshot.random m words = .ok (s, rest)) : MadeFor m s

theorem MadeFor.sizedFor [Sampled α] {m : Model α} {s : Snapshot α} (h : s.MadeFor m) :
    s.SizedFor m := by
  cases h with
  | zeros => exact ⟨rfl, Array.size_replicate, shaped_zeros m⟩
  | random h => exact ((runs_random m).of_eq_ok trivial h).1

theorem changes_frame {s : Snapshot α} {id : Nat} (hId : id < s.frames.size)
    (f : FrameKinematics α) :
    (Setting.frame id f).Changes s { s with frames := s.frames.set id f hId } :=
  ⟨rfl, Array.size_set hId, Array.getElem?_set_self hId,
    fun _ hk => Array.getElem?_set_ne hId hk.symm⟩

theorem exists_changes {s : Snapshot α} {setting : Setting α}
    (h : setting.Fits s.nv s.frames.size) : ∃ t, setting.Changes s t := by
  cases setting with
  | frame id f => exact ⟨_, changes_frame h.2 f⟩
  | com c jacobian => exact ⟨_, rfl⟩

theorem set_eq_done_iff {s t : Snapshot α} {setting : Setting α} :
    s.set setting = .done t ↔ setting.Fits s.nv s.frames.size ∧ setting.Changes s t := by
  cases setting with
  | frame id f =>
    refine (Outcome.attempt_eq_done.trans setFrame_eq_ok_iff).trans ?_
    constructor
    · rintro ⟨hShaped, hId, rfl⟩
      exact ⟨⟨hShaped, hId⟩, changes_frame hId f⟩
    · rintro ⟨⟨hShaped, hId⟩, hRest, hSize, hAt, hElse⟩
      refine ⟨hShaped, hId, hRest.trans ?_⟩
      congr 1
      apply Array.ext_getElem?
      intro k
      by_cases hk : k = id
      · rw [hk, hAt, Array.getElem?_set_self]
      · rw [hElse k hk, Array.getElem?_set_ne _ (Ne.symm hk)]
  | com com jacobian => exact Outcome.attempt_eq_done.trans setCom_eq_ok_iff

theorem data_set_of_fault {s : Snapshot α} {setting : Setting α}
    (h : (s.set setting).fault? ≠ none) : (s.set setting).data = s := by
  cases hOutcome : s.set setting with
  | done t =>
    rw [hOutcome] at h
    exact absurd rfl h
  | stopped left e =>
    cases setting with
    | frame id f => exact (Outcome.attempt_eq_stopped.mp hOutcome).1
    | com com jacobian => exact (Outcome.attempt_eq_stopped.mp hOutcome).1

theorem fault_set_eq_none_iff {s : Snapshot α} {setting : Setting α} :
    (s.set setting).fault? = none ↔ setting.Fits s.nv s.frames.size := by
  constructor
  · intro h
    obtain ⟨t, hDone⟩ := Outcome.exists_done (Option.isNone_iff_eq_none.mpr h)
    exact (set_eq_done_iff.mp hDone).1
  · intro h
    obtain ⟨t, hChanges⟩ := exists_changes h
    rw [set_eq_done_iff.mpr ⟨h, hChanges⟩]
    rfl

theorem SizedFor.set {s : Snapshot α} {m : Model α} (h : s.SizedFor m) (setting : Setting α) :
    (s.set setting).data.SizedFor m := by
  cases hOutcome : s.set setting with
  | stopped left e =>
    have hSame : (s.set setting).data = s := data_set_of_fault (by rw [hOutcome]; nofun)
    rw [hOutcome] at hSame
    rw [hSame]
    exact h
  | done t =>
    cases setting with
    | frame id f =>
      have hSet := Outcome.attempt_eq_done.mp hOutcome
      obtain ⟨-, hId, rfl⟩ := setFrame_eq_ok_iff.mp hSet
      exact ⟨h.nv, (Array.size_set hId).trans h.frames, shaped_setFrame h.shaped hSet⟩
    | com com jacobian =>
      have hSet := Outcome.attempt_eq_done.mp hOutcome
      obtain ⟨-, rfl⟩ := setCom_eq_ok_iff.mp hSet
      exact ⟨h.nv, h.frames, shaped_setCom h.shaped hSet⟩

theorem SizedFor.after {s : Snapshot α} {m : Model α} (h : s.SizedFor m)
    (settings : List (Setting α)) : (s.after settings).SizedFor m := by
  induction settings generalizing s with
  | nil => exact h
  | cons setting settings ih => exact ih (h.set setting)

end Snapshot

theorem Cost.safe_call [Elementary α] {c : Cost α} {d : CostData α} {nr ndx nu : Nat}
    (hShaped : d.Shaped nr ndx nu) (call : Call α)
    (hSnapshot : (call.arguments c.nu).snapshot.Shaped) : Safe (c.call d call).result := by
  have hHessian : d.activation.hessian.rows = d.r.size ∧ d.activation.hessian.cols = d.r.size := by
    rw [hShaped.residual]
    exact hShaped.hessian
  cases call with
  | evaluate args => exact c.safe_evaluate args d
  | differentiate args recalc => exact safe_differentiate hSnapshot hHessian recalc
  | evaluateTerminal snapshot x => exact c.safe_evaluate _ d
  | differentiateTerminal snapshot x recalc => exact safe_differentiate hSnapshot hHessian recalc

namespace Snapshot

/-- After any run of setters, a snapshot has the dimensions of the model that it was made for, and
all its matrices are in shape. A setter is done exactly where what it is given fits, with that
changed and nothing else, or it leaves the snapshot alone. A cost that is called with the snapshot,
on data made for any cost, never stops at a block of another shape. -/
theorem set_keeps_shape {α : Type} [Sampled α] {m : Model α} {start : Snapshot α}
    (hStart : start.MadeFor m) (settings : List (Setting α)) :
    let s := start.after settings
    s.nv = m.nv ∧ s.frames.size = m.frames.length ∧ s.Shaped ∧
    (∀ setting : Setting α,
      ((s.set setting).fault? = none ↔ setting.Fits m.nv m.frames.length) ∧
      ((s.set setting).fault? = none → setting.Changes s (s.set setting).data) ∧
      ((s.set setting).fault? ≠ none → (s.set setting).data = s)) ∧
    ∀ (c owner : Cost α) (d : CostData α) (call : Call α), d.MadeFor owner →
      (call.arguments c.nu).snapshot = s → Safe (c.call d call).result := by
  intro s
  have hSized : s.SizedFor m := hStart.sizedFor.after settings
  refine ⟨hSized.nv, hSized.frames, hSized.shaped, ?_, ?_⟩
  · intro setting
    refine ⟨?_, ?_, data_set_of_fault⟩
    · rw [fault_set_eq_none_iff, hSized.nv, hSized.frames]
    · intro hNone
      obtain ⟨t, hDone⟩ := Outcome.exists_done (Option.isNone_iff_eq_none.mpr hNone)
      rw [hDone]
      exact (set_eq_done_iff.mp hDone).2
  · rintro c owner d call hData hRead
    exact Cost.safe_call hData.shaped call (hRead ▸ hSized.shaped)

def toolModel : Model Float := (Model.empty : Model Float).edited toolRun

def toolSettings : List (Setting Float) :=
  [.frame 1 (.zeros 1), .frame 1 (.zeros 2), .frame 2 (.zeros 1), .com .zero (.zeros 2 1),
    .com ⟨0, 0, 0.8⟩ (.zeros 3 1)]

theorem set_keeps_shape_tool :
    let s := (Snapshot.zeros toolModel).after toolSettings
    let created := (Cost.residual ResidualCost.toolReach).createData
    (Snapshot.zeros toolModel).MadeFor toolModel ∧ created.MadeFor (.residual .toolReach) ∧
    s.nv = 1 ∧ s.frames.size = 2 ∧ s.Shaped ∧
    (s.set (.frame 1 (.zeros 1))).fault? = none ∧
    (s.set (.frame 1 (.zeros 2))).fault? ≠ none ∧ (s.set (.frame 1 (.zeros 2))).data = s ∧
    Safe ((Cost.residual ResidualCost.toolReach).call created
      (.differentiate ⟨s, #[0, 0], #[1]⟩ true)).result := by
  intro s created
  have hStart : (Snapshot.zeros toolModel).MadeFor toolModel := .zeros
  have hData : created.MadeFor (.residual .toolReach) := .created
  have hNv : toolModel.nv = 1 := by decide +kernel
  have hFrames : toolModel.frames.length = 2 := by decide +kernel
  obtain ⟨hNvKept, hFramesKept, hShaped, hSet, hSafe⟩ := set_keeps_shape hStart toolSettings
  rw [hNv] at hNvKept
  rw [hFrames] at hFramesKept
  simp only [hNv, hFrames] at hSet
  have hFits : (Setting.frame 1 (FrameKinematics.zeros (α := Float) 1)).Fits 1 2 :=
    ⟨⟨⟨rfl, rfl⟩, ⟨rfl, rfl⟩, ⟨rfl, rfl⟩⟩, by omega⟩
  have hWide : (s.set (.frame 1 (.zeros 2))).fault? ≠ none := by
    intro hNone
    obtain ⟨⟨⟨-, hCols⟩, -, -⟩, -⟩ := (hSet _).1.mp hNone
    cases hCols
  have hRead : ((Call.differentiate ⟨s, #[0, 0], #[1]⟩ true).arguments
      (Cost.residual ResidualCost.toolReach).nu).snapshot = s := by
    simp only [Call.arguments]
  have hCall := hSafe (.residual .toolReach) (.residual .toolReach) created
    (.differentiate ⟨s, #[0, 0], #[1]⟩ true) hData hRead
  exact ⟨hStart, hData, hNvKept, hFramesKept, hShaped, (hSet _).1.mpr hFits, hWide,
    (hSet _).2.2 hWide, hCall⟩

end Snapshot

end MultibodyCost
