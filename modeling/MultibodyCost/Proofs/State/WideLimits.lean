import MultibodyCost.Proofs.Model.Text
import MultibodyCost.Proofs.State.Random

/-! # Limits that are too far apart

Limits are accepted where they are finite and in order, but what is drawn between them is scaled by
their distance, and the distance of two finite doubles may be infinite. A joint with such limits can
be added and loaded, and no state can be drawn behind it: a random state ends at the first joint of
this kind, and nowhere else for want of a finite scale.
-/

namespace MultibodyCost

namespace Sampler

def IsWide (lo hi : Float) : Prop := Scalar.isFinite ((hi - lo) / greatestFraction) = false

instance (lo hi : Float) : Decidable (IsWide lo hi) := inferInstanceAs (Decidable (_ = false))

theorem closed_of_wide {lo hi : Float} (h : IsWide lo hi) : closed lo hi = throw .span := by
  rw [IsWide] at h
  simp only [closed, h, Bool.false_eq_true, if_false]

theorem closed_of_narrow {lo hi : Float} (h : ¬IsWide lo hi) : closed lo hi = do
    let w ← word
    return fraction w * fittedScale lo hi 64 ((hi - lo) / greatestFraction) + lo := by
  rw [IsWide, Bool.not_eq_false] at h
  simp only [closed, h, if_true]

theorem runs_closed {lo hi : Float} (h : ¬IsWide lo hi) {A B : List UInt64 → Prop}
    {F : SamplingFault → Prop} (hWord : word.Runs A B (fun _ => True) F) :
    (closed lo hi).Runs A B (fun _ => True) F := by
  rw [closed_of_narrow h]
  exact hWord.bind fun w _ => runs_pure trivial

open Multibody (halfWord)

def Halves (n : Nat) (words : List UInt64) : Prop := words = List.replicate n halfWord

theorem halves_word (n : Nat) :
    word.Runs (Halves (n + 1)) (Halves n) (fun _ => True) fun _ => False := by
  rintro _ rfl
  exact ⟨trivial, rfl⟩

theorem halfOpen_half (words : List UInt64) :
    (halfOpen (-1 : Float) 1) (halfWord :: words) = .ok (0.5, words) := by
  have hHalf : (fraction halfWord * (1 - -1) + -1 : Float) = 0.5 := by decide +kernel
  have hLess : (0.5 : Float) < 1 := by decide +kernel
  change halfOpen.go (-1 : Float) 1 (halfWord :: words) = _
  unfold halfOpen.go
  simp only [hHalf, hLess, if_true]

theorem cubePoint_halves (words : List UInt64) :
    cubePoint (halfWord :: halfWord :: halfWord :: halfWord :: words) =
      .ok ((⟨0.5, 0.5, 0.5, 0.5⟩ : Quaternion Float), words) := by
  simp only [cubePoint, run_bind, halfOpen_half, Except.bind]
  rfl

/-- The point of four halves lies on the unit sphere, so the first attempt is accepted. -/
theorem acceptedPoint_halves (bound : Nat) (words : List UInt64) :
    acceptedPoint (bound + 1) (halfWord :: halfWord :: halfWord :: halfWord :: words) =
      .ok ((⟨0.5, 0.5, 0.5, 0.5⟩ : Quaternion Float), words) := by
  have hAccepts : accepts (⟨0.5, 0.5, 0.5, 0.5⟩ : Quaternion Float) = true := by decide +kernel
  rw [acceptedPoint, run_bind, cubePoint_halves]
  simp only [Except.bind, hAccepts, if_true]
  rfl

theorem halves_rotation (n : Nat) : (rotation : Sampler (Quaternion Float)).Runs
    (Halves (n + 4)) (Halves n) (fun _ => True) fun _ => False := by
  rintro _ rfl
  simp only [List.replicate_succ, run_rotation, acceptedPoint_halves]
  exact ⟨trivial, rfl⟩

end Sampler

open Sampler

def Joint.TooWide (j : Joint Float) : Prop := 0 < j.kind.limited ∧ IsWide j.lower j.upper

instance (j : Joint Float) : Decidable j.TooWide := inferInstanceAs (Decidable (_ ∧ _))

namespace Multibody

theorem randomJoint_of_tooWide {j : Joint Float} (h : j.TooWide) (words : List UInt64) :
    randomJoint j words = .error .span := by
  obtain ⟨name, kind, parent, idxQ, idxV, lower, upper⟩ := j
  obtain ⟨hLimited, hWide⟩ := h
  have hClosed := closed_of_wide hWide
  cases kind with
  | spherical => exact absurd hLimited (Nat.lt_irrefl 0)
  | revolute => simp only [randomJoint, hClosed]; rfl
  | prismatic => simp only [randomJoint, hClosed]; rfl
  | freeFlyer => simp only [randomJoint, hClosed]; rfl

section Joints

variable {A : Nat → List UInt64 → Prop} {F : SamplingFault → Prop}

/-- A joint with a finite scale runs as its draws do, each coordinate with a word of its own. -/
theorem runs_randomJoint {j : Joint Float} (h : ¬j.TooWide)
    (hWord : ∀ n, word.Runs (A (n + 1)) (A n) (fun _ => True) F)
    (hRotation : ∀ n, (rotation : Sampler (Quaternion Float)).Runs (A (n + 4)) (A n)
      (fun _ => True) F) (n : Nat) :
    (randomJoint j).Runs (A (n + j.kind.nq)) (A n) (fun _ => True) F := by
  obtain ⟨name, kind, parent, idxQ, idxV, lower, upper⟩ := j
  cases kind with
  | spherical => exact (hRotation n).bind fun q _ => runs_pure trivial
  | revolute =>
    have hNarrow : ¬IsWide lower upper := fun hWide => h ⟨Nat.zero_lt_one, hWide⟩
    exact (runs_closed hNarrow (hWord n)).bind fun q _ => runs_pure trivial
  | prismatic =>
    have hNarrow : ¬IsWide lower upper := fun hWide => h ⟨Nat.zero_lt_one, hWide⟩
    exact (runs_closed hNarrow (hWord n)).bind fun q _ => runs_pure trivial
  | freeFlyer =>
    have hNarrow : ¬IsWide lower upper := fun hWide => h ⟨Nat.zero_lt_succ 2, hWide⟩
    exact (runs_closed hNarrow (hWord (n + 6))).bind fun x _ =>
      (runs_closed hNarrow (hWord (n + 5))).bind fun y _ =>
        (runs_closed hNarrow (hWord (n + 4))).bind fun z _ =>
          (hRotation n).bind fun q _ => runs_pure trivial

theorem runs_placeRandom {js : List (Joint Float)} (h : ∀ j ∈ js, ¬j.TooWide)
    (hWord : ∀ n, word.Runs (A (n + 1)) (A n) (fun _ => True) F)
    (hRotation : ∀ n, (rotation : Sampler (Quaternion Float)).Runs (A (n + 4)) (A n)
      (fun _ => True) F) (n : Nat) (x : Vec Float) :
    (placeRandom js x).Runs (A (n + (js.map fun j => j.kind.nq).sum)) (A n) (fun _ => True) F := by
  induction js generalizing x with
  | nil => exact runs_pure trivial
  | cons j js ih =>
    obtain ⟨hHead, hTail⟩ := List.forall_mem_cons.mp h
    rw [List.map_cons, List.sum_cons, Nat.add_comm j.kind.nq, ← Nat.add_assoc]
    exact (runs_randomJoint hHead hWord hRotation _).bind fun q _ => ih hTail _

end Joints

theorem exhausted_randomJoint {j : Joint Float} (h : ¬j.TooWide) :
    (randomJoint j).Runs anyWords anyWords (fun _ => True) (· = .exhausted) :=
  runs_randomJoint (A := fun _ => anyWords) h (fun _ => runs_word) (fun _ => runs_rotation) 0

/-- The drawing of the joints ends at the first one that is too wide, where it comes to it. -/
theorem placeRandom_eq_span_iff {js : List (Joint Float)} {x : Vec Float} {words : List UInt64} :
    placeRandom js x words = .error .span ↔ ∃ before j after, js = before ++ j :: after ∧
      (∀ i ∈ before, ¬i.TooWide) ∧ j.TooWide ∧ ∃ drawn, placeRandom before x words = .ok drawn := by
  induction js generalizing x words with
  | nil =>
    constructor
    · nofun
    · rintro ⟨before, j, after, hSplit, -⟩
      cases before <;> cases hSplit
  | cons j js ih =>
    have hRun : ∀ js' : List (Joint Float), placeRandom (j :: js') x words =
        (randomJoint j words).bind fun drawn => placeRandom js' (x.place j.idxQ drawn.1) drawn.2 :=
      fun _ => rfl
    by_cases hWide : j.TooWide
    · have hFirst := randomJoint_of_tooWide hWide words
      rw [hRun, hFirst]
      refine ⟨fun _ => ⟨[], j, js, rfl, nofun, hWide, (x, words), rfl⟩, fun _ => rfl⟩
    · rw [hRun, bind_eq_error]
      constructor
      · rintro (hFirst | ⟨⟨q, rest⟩, hFirst, hRest⟩)
        · cases (exhausted_randomJoint hWide).of_eq_error trivial hFirst
        · obtain ⟨before, i, after, rfl, hBefore, hi, drawn, hDrawn⟩ := ih.mp hRest
          refine ⟨j :: before, i, after, rfl, List.forall_mem_cons.mpr ⟨hWide, hBefore⟩, hi, drawn, ?_⟩
          rw [hRun, hFirst]
          exact hDrawn
      · rintro ⟨before, i, after, hSplit, hBefore, hi, drawn, hDrawn⟩
        cases before with
        | nil =>
          obtain ⟨rfl, -⟩ := List.cons_eq_cons.mp hSplit
          exact absurd hi hWide
        | cons k before =>
          obtain ⟨rfl, rfl⟩ := List.cons_eq_cons.mp hSplit
          rw [hRun] at hDrawn
          obtain ⟨⟨q, rest⟩, hFirst, hRest⟩ := bind_eq_ok.mp hDrawn
          exact .inr ⟨(q, rest), hFirst,
            ih.mpr ⟨before, i, after, rfl, (List.forall_mem_cons.mp hBefore).2, hi, drawn, hRest⟩⟩

theorem exhausted_velocities (x : Vec Float) (nq nv : Nat) :
    (do
      let v ← replicate nv (closed (-1) 1)
      return x.place nq v.toArray : Sampler (Vec Float)).Runs anyWords anyWords (fun _ => True)
        (· = .exhausted) := by
  have hNarrow : ¬IsWide (-1) 1 := by decide +kernel
  have hDraws := runs_replicate (A := fun _ => anyWords) (fun _ => runs_closed hNarrow runs_word) nv
  exact hDraws.bind fun v _ => runs_pure trivial

variable {s : Multibody Float}

theorem random_eq_span_iff {words : List UInt64} : s.random words = .error .span ↔
    placeRandom s.model.joints (Vec.zeros s.nx) words = .error .span := by
  change (placeRandom s.model.joints (Vec.zeros s.nx) words).bind _ = _ ↔ _
  rw [bind_eq_error]
  constructor
  · rintro (hJoints | ⟨⟨x, rest⟩, -, hSpan⟩)
    · exact hJoints
    · cases (exhausted_velocities x s.nq s.nv).of_eq_error trivial hSpan
  · exact .inl

/-- The limits given in the call, if there are any, are not too far apart. -/
def IsNarrow : Model.Edit Float → Prop
  | .jointWithLimits _ _ _ lower upper => ¬IsWide lower upper
  | _ => True

theorem narrow_addJoint {m : Model Float} (h : m.WellFormed)
    (hJoints : ∀ j ∈ m.joints, ¬IsWide j.lower j.upper) {name : String} {kind : JointKind}
    {parent : Option Nat} {lower upper : Float} (hLimits : ¬IsWide lower upper)
    {answer : Model Float × Nat} (hOk : m.addJointWithLimits name kind parent lower upper = .ok answer) :
    ∀ j ∈ answer.1.joints, ¬IsWide j.lower j.upper := by
  have hAnswer := Model.addJointWithLimits_answer h name kind parent lower upper
  rw [hOk] at hAnswer
  cases hAnswer with
  | added =>
    intro j hj
    rcases List.mem_append.mp hj with hOld | hNew
    · exact hJoints j hOld
    · obtain rfl := List.mem_singleton.mp hNew
      exact hLimits

theorem narrow_edit {m : Model Float} (h : m.WellFormed)
    (hJoints : ∀ j ∈ m.joints, ¬IsWide j.lower j.upper) {e : Model.Edit Float} (he : IsNarrow e) :
    ∀ j ∈ (m.edit e).joints, ¬IsWide j.lower j.upper := by
  cases hAttempt : m.attempt e with
  | error err => rwa [Model.edit_eq_self hAttempt]
  | ok answer =>
    rw [Model.edit_of_attempt hAttempt]
    cases e with
    | joint name kind parent =>
      refine narrow_addJoint h hJoints ?_ hAttempt
      cases kind <;> decide +kernel
    | jointWithLimits name kind parent lower upper => exact narrow_addJoint h hJoints he hAttempt
    | frame name joint =>
      obtain ⟨-, -, rfl⟩ := Model.addFrame_eq_ok_iff.mp hAttempt
      exact hJoints

theorem narrow_edited {m : Model Float} (h : m.WellFormed)
    (hJoints : ∀ j ∈ m.joints, ¬IsWide j.lower j.upper) {es : List (Model.Edit Float)}
    (hEdits : ∀ e ∈ es, IsNarrow e) : ∀ j ∈ (m.edited es).joints, ¬IsWide j.lower j.upper := by
  induction es generalizing m with
  | nil => exact hJoints
  | cons e es ih =>
    obtain ⟨hHead, hTail⟩ := List.forall_mem_cons.mp hEdits
    exact ih (h.edit e) (narrow_edit h hJoints hHead) hTail

/-- A model of joints with the limits of their kinds, or with given ones that are not too far apart,
has a random state wherever the words suffice. -/
theorem exhausted_random_edited {es : List (Model.Edit Float)} (h : ∀ e ∈ es, IsNarrow e) :
    (random ⟨Model.empty.edited es⟩).Runs anyWords anyWords (fun _ => True) (· = .exhausted) := by
  have hNone : ∀ i ∈ (Model.empty : Model Float).joints, ¬IsWide i.lower i.upper := nofun
  have hNarrow : ∀ j ∈ (Model.empty.edited es).joints, ¬j.TooWide := fun j hj hWide =>
    narrow_edited Model.WellFormed.empty hNone h j hj hWide.2
  have hJoints := runs_placeRandom (A := fun _ => anyWords) hNarrow (fun _ => runs_word)
    (fun _ => runs_rotation) 0
  exact (hJoints _).bind fun x _ => exhausted_velocities x _ _

end Multibody

namespace Model

/-- Models that the builders reach, and those that are described or written. -/
inductive Accepted : Model Float → Prop
  | run (es : List (Edit Float)) : Accepted ((empty : Model Float).edited es)
  | description {d : ModelDescription Float} {m : Model Float} (h : d.build = .ok m) : Accepted m
  | text {text : String} {m : Model Float} (h : ofText text = .ok m) : Accepted m

theorem wellFormed_of_build {d : ModelDescription Float} {m : Model Float} (h : d.build = .ok m) :
    m.WellFormed := by
  obtain ⟨⟨es, rfl⟩, -, -⟩ := replayed_of_replay WellFormed.empty h
  exact WellFormed.empty.edited es

theorem exists_build_of_ofText {text : String} {m : Model Float} (h : ofText text = .ok m) :
    ∃ d : ModelDescription Float, d.build = .ok m := by
  unfold ofText at h
  dsimp only at h
  split at h
  · cases h
  · rename_i d _
    split at h
    · cases h
    · rename_i built hBuild
      split at h
      · cases h
      · cases h
        exact ⟨d, hBuild⟩

theorem Accepted.wellFormed {m : Model Float} (h : m.Accepted) : m.WellFormed := by
  cases h with
  | run es => exact WellFormed.empty.edited es
  | description hBuild => exact wellFormed_of_build hBuild
  | text hText =>
    obtain ⟨d, hBuild⟩ := exists_build_of_ofText hText
    exact wellFormed_of_build hBuild

end Model

namespace Multibody

theorem exists_first_tooWide {js : List (Joint Float)} (h : ∃ j ∈ js, j.TooWide) :
    ∃ before j after, js = before ++ j :: after ∧ (∀ i ∈ before, ¬i.TooWide) ∧ j.TooWide := by
  cases hFind : js.find? fun j => decide j.TooWide with
  | none =>
    obtain ⟨j, hj, hWide⟩ := h
    exact absurd (decide_eq_true hWide) (List.find?_eq_none.mp hFind j hj)
  | some j =>
    obtain ⟨hWide, before, after, hSplit, hBefore⟩ := List.find?_eq_some_iff_append.mp hFind
    refine ⟨before, j, after, hSplit, fun i hi hWideToo => ?_, of_decide_eq_true hWide⟩
    have hNot := hBefore i hi
    rw [decide_eq_true hWideToo] at hNot
    cases hNot

/-- The limits of an accepted model are finite and in order, and still a random state may end for
want of a finite scale: on the streams that come to a joint whose limits are too far apart. There
are such streams for every model with such a joint, and for no other. -/
theorem random_span_iff {m : Model Float} (hAccepted : m.Accepted) :
    let s : Multibody Float := ⟨m⟩
    (∀ j ∈ m.joints, Model.LimitsOrdered j.lower j.upper) ∧
    (∀ words, s.random words = .error .span ↔
      ∃ before j after, m.joints = before ++ j :: after ∧ (∀ i ∈ before, ¬i.TooWide) ∧ j.TooWide ∧
        ∃ drawn, placeRandom before (Vec.zeros s.nx) words = .ok drawn) ∧
    ((∃ words, s.random words = .error .span) ↔ ∃ j ∈ m.joints, j.TooWide) := by
  intro s
  have hSpan : ∀ words, s.random words = .error .span ↔
      ∃ before j after, m.joints = before ++ j :: after ∧ (∀ i ∈ before, ¬i.TooWide) ∧ j.TooWide ∧
        ∃ drawn, placeRandom before (Vec.zeros s.nx) words = .ok drawn :=
    fun words => random_eq_span_iff.trans placeRandom_eq_span_iff
  refine ⟨hAccepted.wellFormed.limits, hSpan, fun ⟨words, hRun⟩ => ?_, fun hWide => ?_⟩
  · obtain ⟨before, j, after, hSplit, -, hWide, -⟩ := (hSpan words).mp hRun
    exact ⟨j, hSplit ▸ List.mem_append_right before List.mem_cons_self, hWide⟩
  · obtain ⟨before, j, after, hSplit, hBefore, hFirst⟩ := exists_first_tooWide hWide
    have hDraws := runs_placeRandom hBefore halves_word halves_rotation 0 (Vec.zeros s.nx)
    cases hRun : placeRandom before (Vec.zeros s.nx) (List.replicate _ halfWord) with
    | error e => exact (hDraws.of_eq_error rfl hRun).elim
    | ok drawn => exact ⟨_, (hSpan _).mpr ⟨before, j, after, hSplit, hBefore, hFirst, drawn, hRun⟩⟩

def longSlide (parent : Option Nat) : Model.Edit Float :=
  .jointWithLimits "slide" .prismatic parent (-1e308) 1e308

/-- The slide is accepted, and no stream gives a state of it. -/
theorem longSlide_unsampled :
    (∃ answer, Model.empty.attempt (longSlide none) = .ok answer) ∧
    ∀ words, random ⟨Model.empty.edit (longSlide none)⟩ words = .error .span := by
  have hJoints : (Model.empty.edit (longSlide none)).joints =
      [⟨"slide", .prismatic, none, 0, 0, -1e308, 1e308⟩] := by decide +kernel
  constructor
  · cases hAttempt : Model.empty.attempt (longSlide none) with
    | ok answer => exact ⟨answer, rfl⟩
    | error e =>
      rw [Model.edit_eq_self hAttempt] at hJoints
      cases hJoints
  · intro words
    rw [random_eq_span_iff, placeRandom_eq_span_iff]
    exact ⟨[], _, [], hJoints, nofun, by decide +kernel, _, rfl⟩

def longArm : Model Float := Model.empty.edited [.joint "ball" .spherical none, longSlide (some 0)]

theorem random_span_iff_longArm :
    longArm.Accepted ∧ ∃ words, random ⟨longArm⟩ words = .error .span := by
  have hAccepted : longArm.Accepted := .run _
  have hWide : ∃ j ∈ longArm.joints, j.TooWide := by
    have hJoints : longArm.joints = [⟨"ball", .spherical, none, 0, 0, -1, 1⟩,
        ⟨"slide", .prismatic, some 0, 4, 3, -1e308, 1e308⟩] := by decide +kernel
    rw [hJoints]
    exact ⟨_, List.mem_cons_of_mem _ List.mem_cons_self, by decide +kernel⟩
  exact ⟨hAccepted, (random_span_iff hAccepted).2.2.mpr hWide⟩

end Multibody

end MultibodyCost
