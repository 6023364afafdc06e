import MultibodyCost.Model.Description
import MultibodyCost.Proofs.Model.WellFormed
import MultibodyCost.Proofs.Result

/-! # Replay of a description

A description keeps the joints and the frames of a model and forgets how their creation was
interleaved. The frames tell it: an accepted frame is attached to a joint that is there, so that
only the frame of the next joint is attached to the next index. Replaying the description of a
built model therefore repeats its run; and whatever description is accepted, the model is a built
one, with the frames that were listed and after them those of the joints whose frame was not.
-/

namespace MultibodyCost

variable {α : Type}

def Joint.described (j : Joint α) : JointDescription α :=
  ⟨j.name, j.kind, j.parent, some j.lower, some j.upper⟩

/-- The frames of joints in their order, the first of which has the index `start`. -/
def JointDescription.ownFrames (start : Nat) : List (JointDescription α) → List Frame
  | [] => []
  | j :: js => ⟨j.name, start⟩ :: ownFrames (start + 1) js

namespace JointDescription

theorem parent_of_mem_ownFrames {js : List (JointDescription α)} {start : Nat} {f : Frame}
    (h : f ∈ ownFrames start js) : start ≤ f.parent := by
  induction js generalizing start with
  | nil => cases h
  | cons j js ih =>
    rcases List.mem_cons.mp h with rfl | hRest
    · exact Nat.le_refl _
    · exact Nat.le_of_succ_le (ih hRest)

theorem filter_ownFrames_cons {f : Frame} {start : Nat} (h : f.parent < start)
    (js : List (JointDescription α)) (fs : List Frame) :
    (ownFrames start js).filter (· ∉ f :: fs) =
      (ownFrames start js).filter (· ∉ fs) := by
  apply List.filter_congr
  intro g hg
  have hNe : g ≠ f := by
    rintro rfl
    exact Nat.not_le_of_lt h (parent_of_mem_ownFrames hg)
  simp only [List.mem_cons, hNe, false_or]

end JointDescription

namespace Model

theorem description_joints (m : Model α) : m.description.joints = m.joints.map Joint.described := rfl

theorem description_frames (m : Model α) : m.description.frames = m.frames := rfl

theorem joints_length_of_description {m grown : Model α} {j : JointDescription α}
    (h : grown.description.joints = m.description.joints ++ [j]) :
    grown.joints.length = m.joints.length + 1 := by
  have hLength := congrArg List.length h
  simpa only [description_joints, List.length_map, List.length_append,
    List.length_singleton] using hLength

end Model

section Elementary

variable [Elementary α]

/-- The joint with the limits of its kind where none are given. -/
def JointDescription.completed (j : JointDescription α) : JointDescription α :=
  { j with
    lower := some (j.lower.getD j.kind.defaultLimits.1)
    upper := some (j.upper.getD j.kind.defaultLimits.2) }

namespace Model

def Built (m : Model α) : Prop := ∃ es : List (Edit α), (empty : Model α).edited es = m

theorem edited_cons (m : Model α) (e : Edit α) (es : List (Edit α)) :
    m.edited (e :: es) = (m.edit e).edited es := rfl

theorem edit_of_attempt {m : Model α} {e : Edit α} {answer : Model α × Nat}
    (h : m.attempt e = .ok answer) : m.edit e = answer.1 := by
  rw [edit, h]

/-- A model grows by a joint, or by a frame of a joint that is there, or not at all; and a step of a
replay that meets the addition repeats it. -/
inductive Grows (m : Model α) : Model α → Prop
  | refused : Grows m m
  | joint (j : Joint α) (grown : Model α) (hJoints : grown.joints = m.joints ++ [j])
      (hFrames : grown.frames = m.frames ++ [⟨j.name, m.joints.length⟩])
      (hAdd : m.addDescribed j.described = .ok grown) : Grows m grown
  | frame (f : Frame) (grown : Model α) (hParent : f.parent < m.joints.length)
      (hJoints : grown.joints = m.joints) (hFrames : grown.frames = m.frames ++ [f])
      (hAdd : m.addFrame f.name f.parent = .ok (grown, m.frames.length)) : Grows m grown

theorem grows_of_addJoint {m : Model α} (h : m.WellFormed) {name : String} {kind : JointKind}
    {parent : Option Nat} {lower upper : α} {answer : Model α × Nat}
    (hOk : m.addJointWithLimits name kind parent lower upper = .ok answer) : Grows m answer.1 := by
  have hAnswer := addJointWithLimits_answer h name kind parent lower upper
  rw [hOk] at hAnswer
  cases hAnswer with
  | added hName hParent hLimits =>
    refine .joint ⟨name, kind, parent, m.nq, m.nv, lower, upper⟩ _ rfl rfl ?_
    simp only [addDescribed, Joint.described, Option.getD_some, hOk]
    rfl

theorem grows_edit {m : Model α} (h : m.WellFormed) (e : Edit α) : Grows m (m.edit e) := by
  cases hAnswer : m.attempt e with
  | error err =>
    rw [edit_eq_self hAnswer]
    exact .refused
  | ok answer =>
    rw [edit_of_attempt hAnswer]
    cases e with
    | joint name kind parent => exact grows_of_addJoint h hAnswer
    | jointWithLimits name kind parent lower upper => exact grows_of_addJoint h hAnswer
    | frame name joint =>
      obtain ⟨hJoint, hName, rfl⟩ := addFrame_eq_ok_iff.mp hAnswer
      exact .frame ⟨name, joint⟩ _ hJoint rfl rfl hAnswer

theorem replay_joint {m grown : Model α} {j : Joint α}
    (hAdd : m.addDescribed j.described = .ok grown) (js : List (JointDescription α))
    (fs : List Frame) :
    m.replay (j.described :: js) (⟨j.name, m.joints.length⟩ :: fs) = grown.replay js fs := by
  simp only [replay, Joint.described, and_self, if_true]
  rw [Joint.described] at hAdd
  rw [hAdd]
  rfl

theorem replay_frame {m grown : Model α} {f : Frame} (hParent : f.parent < m.joints.length) {k : Nat}
    (hAdd : m.addFrame f.name f.parent = .ok (grown, k)) (js : List (JointDescription α))
    (fs : List Frame) : m.replay js (f :: fs) = grown.replay js fs := by
  cases js with
  | nil =>
    rw [replay, hAdd]
    rfl
  | cons j js =>
    simp only [replay, Nat.ne_of_lt hParent, false_and, if_false, hAdd]
    rfl

/-- A run adds joints and frames, and replaying their descriptions repeats it. -/
theorem replay_edited {m : Model α} (h : m.WellFormed) (es : List (Edit α)) :
    ∃ js fs, (m.edited es).joints = m.joints ++ js ∧ (m.edited es).frames = m.frames ++ fs ∧
      m.replay (js.map Joint.described) fs = .ok (m.edited es) := by
  induction es generalizing m with
  | nil => exact ⟨[], [], (List.append_nil _).symm, (List.append_nil _).symm, rfl⟩
  | cons e es ih =>
    obtain ⟨js, fs, hJoints, hFrames, hReplay⟩ := ih (h.edit e)
    rw [edited_cons]
    generalize hGrown : m.edit e = grown at hJoints hFrames hReplay ⊢
    have hGrows := grows_edit h e
    rw [hGrown] at hGrows
    cases hGrows with
    | refused => exact ⟨js, fs, hJoints, hFrames, hReplay⟩
    | joint j _ hNewJoint hNewFrame hAdd =>
      refine ⟨j :: js, ⟨j.name, m.joints.length⟩ :: fs, ?_, ?_, ?_⟩
      · rw [hJoints, hNewJoint, List.append_assoc, List.singleton_append]
      · rw [hFrames, hNewFrame, List.append_assoc, List.singleton_append]
      · rw [List.map_cons, replay_joint hAdd, hReplay]
    | frame f _ hParent hSame hNewFrame hAdd =>
      refine ⟨js, f :: fs, ?_, ?_, ?_⟩
      · rw [hJoints, hSame]
      · rw [hFrames, hNewFrame, List.append_assoc, List.singleton_append]
      · rw [replay_frame hParent hAdd, hReplay]

theorem build_description_edited (es : List (Edit α)) :
    ((empty : Model α).edited es).description.build = .ok ((empty : Model α).edited es) := by
  obtain ⟨js, fs, hJoints, hFrames, hReplay⟩ := replay_edited WellFormed.empty es
  rw [ModelDescription.build, description_joints, hJoints, description_frames, hFrames]
  exact hReplay

/-- What a replay of joints and frames from `m` has built: a run, with the joints and the frames
that were given and the frames of those joints whose frame was not among them. -/
structure Replayed (m : Model α) (js : List (JointDescription α)) (fs : List Frame)
    (grown : Model α) : Prop where
  run : ∃ es : List (Edit α), m.edited es = grown
  joints : grown.description.joints = m.description.joints ++ js.map JointDescription.completed
  frames : grown.frames =
    m.frames ++ fs ++ (JointDescription.ownFrames m.joints.length js).filter (· ∉ fs)

theorem addDescribed_eq_ok {m grown : Model α} (h : m.WellFormed) {j : JointDescription α}
    (hOk : m.addDescribed j = .ok grown) :
    ∃ e : Edit α, m.edit e = grown ∧
      grown.description.joints = m.description.joints ++ [j.completed] ∧
      grown.frames = m.frames ++ [⟨j.name, m.joints.length⟩] := by
  obtain ⟨answer, hAttempt, hAnswer⟩ := bind_eq_ok.mp hOk
  cases hAnswer
  refine ⟨.jointWithLimits j.name j.kind j.parent _ _, edit_of_attempt hAttempt, ?_⟩
  have hCases := addJointWithLimits_answer h j.name j.kind j.parent
    (j.lower.getD j.kind.defaultLimits.1) (j.upper.getD j.kind.defaultLimits.2)
  rw [hAttempt] at hCases
  cases hCases with
  | added hName hParent hLimits =>
    refine ⟨?_, rfl⟩
    rw [description_joints, pushJoint, List.map_append]
    rfl

theorem replayed_joints {m grown : Model α} (h : m.WellFormed) {js : List (JointDescription α)}
    (hOk : m.addAllDescribed js = .ok grown) : Replayed m js [] grown := by
  induction js generalizing m with
  | nil =>
    cases hOk
    exact ⟨⟨[], rfl⟩, (List.append_nil _).symm, by simp [JointDescription.ownFrames]⟩
  | cons j js ih =>
    obtain ⟨next, hAdd, hRest⟩ := bind_eq_ok.mp hOk
    obtain ⟨e, rfl, hJoints, hFrames⟩ := addDescribed_eq_ok h hAdd
    obtain ⟨⟨es, hRun⟩, hAllJoints, hAllFrames⟩ := ih (h.edit e) hRest
    refine ⟨⟨e :: es, hRun⟩, ?_, ?_⟩
    · rw [hAllJoints, hJoints, List.append_assoc, List.singleton_append, List.map_cons]
    · rw [hAllFrames, hFrames, joints_length_of_description hJoints]
      simp [JointDescription.ownFrames]

theorem replayed_of_replay {m grown : Model α} (h : m.WellFormed) {js : List (JointDescription α)}
    {fs : List Frame} (hOk : m.replay js fs = .ok grown) : Replayed m js fs grown := by
  induction fs generalizing m js with
  | nil => exact replayed_joints h (by simpa only [replay] using hOk)
  | cons f fs ih =>
    have ofFrame : ∀ answer, m.addFrame f.name f.parent = .ok answer →
        answer.1.replay js fs = .ok grown → Replayed m js (f :: fs) grown := by
      intro answer hAdd hRest
      obtain ⟨hParent, hName, rfl⟩ := addFrame_eq_ok_iff.mp hAdd
      have hAttempt : m.attempt (.frame f.name f.parent) = _ := hAdd
      have hEdit := edit_of_attempt hAttempt
      obtain ⟨⟨es, hRun⟩, hJoints, hFrames⟩ := ih (hEdit ▸ h.edit _) hRest
      refine ⟨⟨.frame f.name f.parent :: es, by rw [edited_cons, hEdit, hRun]⟩, hJoints, ?_⟩
      rw [hFrames, JointDescription.filter_ownFrames_cons hParent]
      simp only [pushFrame, List.append_assoc, List.cons_append, List.nil_append]
    cases js with
    | nil =>
      obtain ⟨answer, hAdd, hRest⟩ := bind_eq_ok.mp hOk
      exact ofFrame answer hAdd hRest
    | cons j js =>
      rw [replay] at hOk
      split at hOk
      · rename_i hOwn
        obtain ⟨next, hAdd, hRest⟩ := bind_eq_ok.mp hOk
        obtain ⟨e, rfl, hNewJoint, hNewFrame⟩ := addDescribed_eq_ok h hAdd
        obtain ⟨⟨es, hRun⟩, hJoints, hFrames⟩ := ih (h.edit e) hRest
        have hFrame : f = ⟨j.name, m.joints.length⟩ := by
          rw [← hOwn.1, ← hOwn.2]
        refine ⟨⟨e :: es, hRun⟩, ?_, ?_⟩
        · rw [hJoints, hNewJoint, List.append_assoc, List.singleton_append, List.map_cons]
        · rw [hFrames, hNewFrame, joints_length_of_description hNewJoint,
            JointDescription.ownFrames, ← hFrame, List.filter_cons_of_neg (by simp),
            JointDescription.filter_ownFrames_cons (by rw [hOwn.1]; exact Nat.lt_succ_self _)]
          simp only [List.append_assoc, List.cons_append, List.nil_append]
      · obtain ⟨answer, hAdd, hRest⟩ := bind_eq_ok.mp hOk
        exact ofFrame answer hAdd hRest

end Model

end Elementary

end MultibodyCost
