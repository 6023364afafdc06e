import Mathlib.Data.List.Nodup
import MultibodyCost.Model.Basic

/-! # What every built model satisfies

A model is built by a run of calls of its builders, some of which it may refuse. The layout of its
coordinates, the order of its tree and the tie between its joints and its frames are one invariant,
which the empty model satisfies and every accepted call preserves.
-/

namespace MultibodyCost

/-- Slices, given by their offsets and widths, that follow one another from `start` to `stop`. -/
def Tiles (start stop : Nat) : List (Nat × Nat) → Prop
  | [] => start = stop
  | (offset, width) :: rest => offset = start ∧ Tiles (start + width) stop rest

theorem Tiles.append {start stop : Nat} {slices : List (Nat × Nat)} (h : Tiles start stop slices)
    (width : Nat) : Tiles start (stop + width) (slices ++ [(stop, width)]) := by
  induction slices generalizing start with
  | nil =>
    obtain rfl : start = stop := h
    exact ⟨rfl, rfl⟩
  | cons slice rest ih => exact ⟨h.1, ih h.2⟩

namespace Model

variable {α : Type}

inductive Edit (α : Type) where
  | joint (name : String) (kind : JointKind) (parent : Option Nat)
  | jointWithLimits (name : String) (kind : JointKind) (parent : Option Nat) (lower upper : α)
  | frame (name : String) (joint : Nat)

def frameNames (m : Model α) : List String := m.frames.map Frame.name

def slicesQ (m : Model α) : List (Nat × Nat) := m.joints.map fun j => (j.idxQ, j.kind.nq)

def slicesV (m : Model α) : List (Nat × Nat) := m.joints.map fun j => (j.idxV, j.kind.nv)

def LimitsOrdered [Scalar α] (lower upper : α) : Prop :=
  Scalar.isFinite lower = true ∧ Scalar.isFinite upper = true ∧ lower ≤ upper

structure WellFormed [Scalar α] (m : Model α) : Prop where
  tilesQ : Tiles 0 m.nq m.slicesQ
  tilesV : Tiles 0 m.nv m.slicesV
  parent_lt : ∀ i (j : Joint α) p, m.joints[i]? = some j → j.parent = some p → p < i
  limits : ∀ j ∈ m.joints, LimitsOrdered j.lower j.upper
  jointNames_nodup : (m.joints.map Joint.name).Nodup
  frameNames_nodup : m.frameNames.Nodup
  ownFrame : ∀ i j, m.joints[i]? = some j → ⟨j.name, i⟩ ∈ m.frames
  frameParent_lt : ∀ f ∈ m.frames, f.parent < m.joints.length

section Runs

variable [Elementary α]

/-- What a builder answers: the model with the addition and its index, or why it is refused. -/
def attempt (m : Model α) : Edit α → Except (ModelError α) (Model α × Nat)
  | .joint name kind parent => m.addJoint name kind parent
  | .jointWithLimits name kind parent lower upper =>
    m.addJointWithLimits name kind parent lower upper
  | .frame name joint => m.addFrame name joint

def edit (m : Model α) (e : Edit α) : Model α :=
  match m.attempt e with
  | .ok (grown, _) => grown
  | .error _ => m

def edited (m : Model α) (es : List (Edit α)) : Model α := es.foldl edit m

end Runs

theorem frameId?_eq_none_iff (m : Model α) (name : String) :
    m.frameId? name = none ↔ name ∉ m.frameNames := by
  simp [frameId?, frameNames, List.findIdx?_eq_none_iff]

theorem findIdx?_of_nodup {β : Type} {xs : List β} {nameOf : β → String}
    (h : (xs.map nameOf).Nodup) {i : Nat} {x : β} (hx : xs[i]? = some x) :
    xs.findIdx? (fun y => nameOf y = nameOf x) = some i := by
  obtain ⟨hi, rfl⟩ := List.getElem?_eq_some_iff.mp hx
  rw [List.findIdx?_eq_some_iff_getElem]
  refine ⟨hi, by simp, ?_⟩
  intro k hk
  have hne := List.pairwise_iff_getElem.mp h k i (by simpa using Nat.lt_trans hk hi)
    (by simpa using hi) hk
  simpa using hne

theorem nodup_append_fresh {β : Type} {xs : List β} {x : β} (h : xs.Nodup) (hx : x ∉ xs) :
    (xs ++ [x]).Nodup := by
  rw [← List.concat_eq_append]
  exact h.concat hx

theorem exists_of_jointId? {m : Model α} {name : String} {i : Nat} (h : m.jointId? name = some i) :
    ∃ j, m.joints[i]? = some j ∧ j.name = name := by
  obtain ⟨hi, hName, _⟩ := List.findIdx?_eq_some_iff_getElem.mp h
  exact ⟨m.joints[i], List.getElem?_eq_getElem hi, by simpa using hName⟩

namespace WellFormed

section Scalar

variable [Scalar α] {m : Model α}

theorem frameId?_name (h : m.WellFormed) {i : Nat} {f : Frame} (hf : m.frames[i]? = some f) :
    m.frameId? f.name = some i :=
  findIdx?_of_nodup h.frameNames_nodup hf

theorem frameId?_of_jointId? (h : m.WellFormed) {name : String} {i : Nat}
    (hi : m.jointId? name = some i) :
    ∃ k f, m.frameId? name = some k ∧ m.frames[k]? = some f ∧ f.parent = i := by
  obtain ⟨j, hj, rfl⟩ := exists_of_jointId? hi
  obtain ⟨k, hk⟩ := List.getElem?_of_mem (h.ownFrame i j hj)
  exact ⟨k, _, h.frameId?_name hk, hk, rfl⟩

theorem jointId?_eq_none (h : m.WellFormed) {name : String} (hName : name ∉ m.frameNames) :
    m.jointId? name = none := by
  cases hi : m.jointId? name with
  | none => rfl
  | some i =>
    obtain ⟨k, f, hk, -, -⟩ := h.frameId?_of_jointId? hi
    rw [(frameId?_eq_none_iff m name).mpr hName] at hk
    cases hk

theorem empty : (Model.empty : Model α).WellFormed where
  tilesQ := rfl
  tilesV := rfl
  parent_lt _ _ _ h := by cases h
  limits _ h := by cases h
  jointNames_nodup := List.nodup_nil
  frameNames_nodup := List.nodup_nil
  ownFrame _ _ h := by cases h
  frameParent_lt _ h := by cases h

omit [Scalar α] in
/-- The joints of a model with one more: the old ones at their places, the new one at the end. -/
theorem getElem?_pushJoint {name : String} {kind : JointKind} {parent : Option Nat} {lower upper : α}
    {i : Nat} {j : Joint α} (h : (m.pushJoint name kind parent lower upper).joints[i]? = some j) :
    m.joints[i]? = some j ∨
      i = m.joints.length ∧ j = ⟨name, kind, parent, m.nq, m.nv, lower, upper⟩ := by
  rw [pushJoint, List.getElem?_append] at h
  split at h
  · exact Or.inl h
  · rename_i hi
    obtain ⟨hlt, rfl⟩ := List.getElem?_eq_some_iff.mp h
    simp only [List.length_singleton] at hlt
    exact Or.inr ⟨by omega, by simp⟩

theorem pushJoint (h : m.WellFormed) {name : String} (hName : name ∉ m.frameNames)
    (kind : JointKind) {parent : Option Nat} (hParent : ∀ p, parent = some p → p < m.joints.length)
    {lower upper : α} (hLimits : LimitsOrdered lower upper) :
    (m.pushJoint name kind parent lower upper).WellFormed where
  tilesQ := by simpa [slicesQ, Model.pushJoint] using h.tilesQ.append kind.nq
  tilesV := by simpa [slicesV, Model.pushJoint] using h.tilesV.append kind.nv
  parent_lt i j p hj hp := by
    rcases getElem?_pushJoint hj with hOld | ⟨rfl, rfl⟩
    · exact h.parent_lt i j p hOld hp
    · exact hParent p hp
  limits j hj := by
    rcases List.mem_append.mp hj with hOld | hNew
    · exact h.limits j hOld
    · obtain rfl := List.mem_singleton.mp hNew
      exact hLimits
  jointNames_nodup := by
    rw [Model.pushJoint, List.map_append, List.map_singleton]
    apply nodup_append_fresh h.jointNames_nodup
    intro hOld
    obtain ⟨j, hj, hEq⟩ := List.mem_map.mp hOld
    have hFresh := List.findIdx?_eq_none_iff.mp (h.jointId?_eq_none hName) j hj
    exact absurd hEq (by simpa using hFresh)
  frameNames_nodup := by
    rw [frameNames, Model.pushJoint, List.map_append, List.map_singleton]
    exact nodup_append_fresh h.frameNames_nodup hName
  ownFrame i j hj := by
    rcases getElem?_pushJoint hj with hOld | ⟨rfl, rfl⟩
    · exact List.mem_append_left _ (h.ownFrame i j hOld)
    · exact List.mem_append_right _ (List.mem_singleton_self _)
  frameParent_lt f hf := by
    simp only [Model.pushJoint, List.length_append, List.length_singleton]
    rcases List.mem_append.mp hf with hOld | hNew
    · exact Nat.lt_succ_of_lt (h.frameParent_lt f hOld)
    · obtain rfl := List.mem_singleton.mp hNew
      exact Nat.lt_succ_self _

theorem pushFrame (h : m.WellFormed) {name : String} (hName : name ∉ m.frameNames) {joint : Nat}
    (hJoint : joint < m.joints.length) : (m.pushFrame name joint).WellFormed where
  tilesQ := h.tilesQ
  tilesV := h.tilesV
  parent_lt := h.parent_lt
  limits := h.limits
  jointNames_nodup := h.jointNames_nodup
  frameNames_nodup := by
    rw [frameNames, Model.pushFrame, List.map_append, List.map_singleton]
    exact nodup_append_fresh h.frameNames_nodup hName
  ownFrame i j hj := List.mem_append_left _ (h.ownFrame i j hj)
  frameParent_lt f hf := by
    rcases List.mem_append.mp hf with hOld | hNew
    · exact h.frameParent_lt f hOld
    · obtain rfl := List.mem_singleton.mp hNew
      exact hJoint

end Scalar

end WellFormed

section Answers

variable [Elementary α] {m : Model α}

/-- All that adding a joint can answer, and when: the first reason against it, in this order, or the
model with the joint. -/
inductive JointAnswer (m : Model α) (name : String) (kind : JointKind) (parent : Option Nat)
    (lower upper : α) : Except (ModelError α) (Model α × Nat) → Prop
  | used (hName : name ∈ m.frameNames) : JointAnswer m name kind parent lower upper
      (.error (.duplicateName name))
  | orphan (hName : name ∉ m.frameNames) (p : Nat) (hp : parent = some p)
      (hRange : m.joints.length ≤ p) : JointAnswer m name kind parent lower upper
      (.error (.unknownJoint (indexName p)))
  | unordered (hName : name ∉ m.frameNames) (hParent : ∀ p, parent = some p → p < m.joints.length)
      (hLimits : ¬LimitsOrdered lower upper) : JointAnswer m name kind parent lower upper
      (.error (.invalidLimits name lower upper))
  | added (hName : name ∉ m.frameNames) (hParent : ∀ p, parent = some p → p < m.joints.length)
      (hLimits : LimitsOrdered lower upper) : JointAnswer m name kind parent lower upper
      (.ok (m.pushJoint name kind parent lower upper, m.joints.length))

omit [Elementary α] in
theorem checkParent_eq_ok {parent : Option Nat} (h : ∀ p, parent = some p → p < m.joints.length) :
    m.checkParent parent = .ok () := by
  cases parent with
  | none => rfl
  | some p => exact if_pos (h p rfl)

/-- A name of a joint is a name of a frame, so the search among the frames decides. -/
theorem nameUsed_iff (h : m.WellFormed) (name : String) :
    ((m.jointId? name).isSome || (m.frameId? name).isSome) = true ↔ name ∈ m.frameNames := by
  by_cases hName : name ∈ m.frameNames
  · have hFrame : m.frameId? name ≠ none := fun hNone =>
      (frameId?_eq_none_iff m name).mp hNone hName
    simp [hName, Option.isSome_iff_ne_none, hFrame]
  · simp [hName, h.jointId?_eq_none hName, (frameId?_eq_none_iff m name).mpr hName]

theorem addJointWithLimits_answer (h : m.WellFormed) (name : String) (kind : JointKind)
    (parent : Option Nat) (lower upper : α) : JointAnswer m name kind parent lower upper
      (m.addJointWithLimits name kind parent lower upper) := by
  unfold addJointWithLimits
  by_cases hName : name ∈ m.frameNames
  · rw [if_pos ((nameUsed_iff h name).mpr hName)]
    exact .used hName
  rw [if_neg (mt (nameUsed_iff h name).mp hName)]
  by_cases hParent : ∀ p, parent = some p → p < m.joints.length
  · rw [checkParent_eq_ok hParent]
    by_cases hLimits : LimitsOrdered lower upper
    · obtain ⟨hLower, hUpper, hLe⟩ := hLimits
      simp only [hLower, hUpper, hLe, decide_true, Bool.and_true, if_true]
      exact .added hName hParent ⟨hLower, hUpper, hLe⟩
    · have hFalse : ¬(Scalar.isFinite lower && Scalar.isFinite upper && decide (lower ≤ upper)) = true := by
        simpa [LimitsOrdered, and_assoc] using hLimits
      simp only [hFalse]
      exact .unordered hName hParent hLimits
  · obtain ⟨p, hNot⟩ := Classical.not_forall.mp hParent
    obtain ⟨rfl, hRange⟩ := Classical.not_imp.mp hNot
    simp only [checkParent, if_neg hRange]
    exact .orphan hName p rfl (Nat.le_of_not_lt hRange)

/-- Why a joint with a name, a parent and limits is refused. -/
def RefusesJoint (m : Model α) (name : String) (parent : Option Nat) (lower upper : α)
    (err : ModelError α) : Prop :=
  (name ∈ m.frameNames ∧ err = .duplicateName name) ∨
  (name ∉ m.frameNames ∧ ∃ p, parent = some p ∧ m.joints.length ≤ p ∧
    err = .unknownJoint (indexName p)) ∨
  (name ∉ m.frameNames ∧ (∀ p, parent = some p → p < m.joints.length) ∧
    ¬LimitsOrdered lower upper ∧ err = .invalidLimits name lower upper)

/-- Why a call is refused: a name in use, a joint that is not there, limits that are not finite and
ordered; of several reasons the first. -/
def Refuses (m : Model α) (err : ModelError α) : Edit α → Prop
  | .joint name kind parent =>
    m.RefusesJoint name parent kind.defaultLimits.1 kind.defaultLimits.2 err
  | .jointWithLimits name _ parent lower upper => m.RefusesJoint name parent lower upper err
  | .frame name joint =>
    (m.joints.length ≤ joint ∧ err = .unknownJoint (indexName joint)) ∨
    (joint < m.joints.length ∧ name ∈ m.frameNames ∧ err = .duplicateName name)

theorem JointAnswer.error_iff {name : String} {kind : JointKind} {parent : Option Nat}
    {lower upper : α} {answer : Except (ModelError α) (Model α × Nat)}
    (h : JointAnswer m name kind parent lower upper answer) (err : ModelError α) :
    answer = .error err ↔ m.RefusesJoint name parent lower upper err := by
  unfold RefusesJoint
  cases h with
  | used hName =>
    simp only [hName, Except.error.injEq, true_and, not_true, false_and, or_false]
    exact eq_comm
  | orphan hName p hp hRange =>
    simp only [hName, hp, Except.error.injEq, Option.some.injEq, false_and, not_false_iff, true_and,
      false_or, exists_eq_left', hRange, forall_eq', Nat.not_lt_of_le hRange, or_false]
    exact eq_comm
  | unordered hName hParent hLimits =>
    have hNone : ∀ p, parent = some p → ¬m.joints.length ≤ p := fun p hp =>
      Nat.not_le_of_lt (hParent p hp)
    simp only [hName, Except.error.injEq, false_and, not_false_iff, true_and, false_or, hLimits]
    constructor
    · rintro rfl
      exact Or.inr ⟨fun _ => hParent _, rfl⟩
    · rintro (⟨p, hp, hRange, -⟩ | ⟨-, rfl⟩)
      · exact absurd hRange (hNone p hp)
      · rfl
  | added hName hParent hLimits =>
    simp only [hName, reduceCtorEq, false_and, not_false_iff, true_and, false_or, hLimits,
      not_true, and_false, or_false, false_iff, not_exists]
    rintro p ⟨hp, hRange, -⟩
    exact Nat.not_le_of_lt (hParent p hp) hRange

theorem attempt_eq_error_iff (h : m.WellFormed) (e : Edit α) (err : ModelError α) :
    m.attempt e = .error err ↔ m.Refuses err e := by
  cases e with
  | joint name kind parent =>
    exact (addJointWithLimits_answer h name kind parent _ _).error_iff err
  | jointWithLimits name kind parent lower upper =>
    exact (addJointWithLimits_answer h name kind parent lower upper).error_iff err
  | frame name joint =>
    simp only [attempt, addFrame, Refuses]
    by_cases hRange : m.joints.length ≤ joint
    · simp only [hRange, if_true, Except.error.injEq, true_and, Nat.not_lt_of_le hRange, false_and,
        or_false]
      exact eq_comm
    · have hUsed : (m.frameId? name).isSome = true ↔ name ∈ m.frameNames := by
        rw [Option.isSome_iff_ne_none, ne_eq, frameId?_eq_none_iff, not_not]
      simp only [hRange, if_false, hUsed, false_and, false_or, Nat.lt_of_not_le hRange, true_and]
      by_cases hName : name ∈ m.frameNames
      · simp only [hName, if_true, Except.error.injEq, true_and]
        exact eq_comm
      · simp only [hName, if_false, reduceCtorEq, false_and]

omit [Elementary α] in
theorem addFrame_eq_ok_iff {name : String} {joint : Nat} {answer : Model α × Nat} :
    m.addFrame name joint = .ok answer ↔ joint < m.joints.length ∧ name ∉ m.frameNames ∧
      answer = (m.pushFrame name joint, m.frames.length) := by
  unfold addFrame
  by_cases hRange : m.joints.length ≤ joint
  · simp only [hRange, if_true, reduceCtorEq, Nat.not_lt_of_le hRange, false_and]
  · have hFree : (m.frameId? name).isSome = true ↔ ¬name ∉ m.frameNames := by
      rw [Option.isSome_iff_ne_none, ne_eq, frameId?_eq_none_iff]
    simp only [hRange, if_false, hFree, Nat.lt_of_not_le hRange, true_and]
    by_cases hName : name ∉ m.frameNames
    · simp only [hName, not_true, if_false, Except.ok.injEq, not_false_iff, true_and]
      exact eq_comm
    · simp only [hName, not_false_iff, if_true, reduceCtorEq, false_and]

theorem WellFormed.of_attempt (h : m.WellFormed) {e : Edit α} {answer : Model α × Nat}
    (hAnswer : m.attempt e = .ok answer) : answer.1.WellFormed := by
  have ofJoint : ∀ name kind parent lower upper,
      m.addJointWithLimits name kind parent lower upper = .ok answer → answer.1.WellFormed := by
    intro name kind parent lower upper hOk
    have hCases := addJointWithLimits_answer h name kind parent lower upper
    rw [hOk] at hCases
    cases hCases with
    | added hName hParent hLimits => exact h.pushJoint hName kind hParent hLimits
  cases e with
  | joint name kind parent => exact ofJoint name kind parent _ _ hAnswer
  | jointWithLimits name kind parent lower upper => exact ofJoint name kind parent lower upper hAnswer
  | frame name joint =>
    obtain ⟨hJoint, hName, rfl⟩ := addFrame_eq_ok_iff.mp hAnswer
    exact h.pushFrame hName hJoint

theorem edit_eq_self {e : Edit α} {err : ModelError α} (h : m.attempt e = .error err) :
    m.edit e = m := by
  rw [edit, h]

theorem WellFormed.edit (h : m.WellFormed) (e : Edit α) : (m.edit e).WellFormed := by
  cases hAnswer : m.attempt e with
  | error err => exact (edit_eq_self hAnswer).symm ▸ h
  | ok answer =>
    rw [Model.edit, hAnswer]
    exact h.of_attempt hAnswer

theorem WellFormed.edited (h : m.WellFormed) (es : List (Edit α)) : (m.edited es).WellFormed := by
  induction es generalizing m with
  | nil => exact h
  | cons e es ih => exact ih (h.edit e)

/-- Every model that the builders can reach has a layout without gaps, parents before their
children, ordered limits and names that identify joints and frames; and a call on it is refused for
a reason of `Refuses` and no other, and then leaves it as it was. -/
theorem edited_empty_coherent (es : List (Edit α)) :
    let m := (empty : Model α).edited es
    m.WellFormed ∧
      (∀ i f, m.frames[i]? = some f → m.frameId? f.name = some i) ∧
      (∀ name i, m.jointId? name = some i →
        ∃ k f, m.frameId? name = some k ∧ m.frames[k]? = some f ∧ f.parent = i) ∧
      ∀ e err, (m.attempt e = .error err ↔ m.Refuses err e) ∧
        (m.attempt e = .error err → m.edit e = m) := by
  intro m
  have h : m.WellFormed := WellFormed.empty.edited es
  refine ⟨h, fun _ _ => h.frameId?_name, fun _ _ => h.frameId?_of_jointId?, ?_⟩
  intro e err
  exact ⟨attempt_eq_error_iff h e err, edit_eq_self⟩

end Answers

end Model

end MultibodyCost
