import MultibodyCost.Proofs.Json.Decoding
import MultibodyCost.Proofs.Model.Replay

/-! # Model texts read back

The text of a model holds more than its description, and reading skips what is more. What is read
is the description of the model, so that the replay gives the model again.
-/

namespace MultibodyCost

variable {α : Type}

deriving instance DecidableEq for Joint

namespace JsonDecoder

theorem oneOf_kind (room : Nat) (k : JointKind) :
    oneOf JointKind.words room (.text k.word) = .ok k := by
  have hLookup : JointKind.words.lookup k.word = some k := by
    cases k <;> decide
  simp only [Json.text, oneOf, JsonText.read, oneOf.choose, bind, Except.bind, hLookup]

end JsonDecoder

open JsonDecoder

theorem Frame.decode_toJson (room : Nat) {f : Frame} (h : f.parent < wordBound) :
    Frame.decode (room + 2) f.toJson = .ok f := by
  have hMembers : readMembers Frame.fields (room + 1)
      [(some (.whole "name"), .text f.name), (some (.whole "parent"), .natural f.parent)]
      ⟨none, none⟩ = .ok ⟨some f.name, some f.parent⟩ := by
    rw [readMembers_known rfl rfl rfl,
      readMembers_known rfl rfl (map_ok (index_natural (room + 1) h) _)]
    rfl
  exact record_bind hMembers _

variable [NumberText α]

theorem JointDescription.decode_toJson (room : Nat) {j : Joint α}
    (hParent : ∀ p, j.parent = some p → p < wordBound) (hLower : ReadsBack j.lower)
    (hUpper : ReadsBack j.upper) :
    JointDescription.decode (room + 2) j.toJson = .ok j.described := by
  have hMembers : readMembers JointDescription.fields (room + 1)
      [(some (.whole "name"), .text j.name), (some (.whole "kind"), .text j.kind.word),
        (some (.whole "parent"), .optional .natural j.parent),
        (some (.whole "idx_q"), .natural j.idxQ), (some (.whole "idx_v"), .natural j.idxV),
        (some (.whole "lower"), .scalar j.lower), (some (.whole "upper"), .scalar j.upper)]
      (⟨none, none, none, none, none⟩ : Draft α) =
      .ok ⟨some j.name, some j.kind, some j.parent, some (some j.lower), some (some j.upper)⟩ := by
    rw [readMembers_known rfl rfl rfl,
      readMembers_known rfl rfl (map_ok (oneOf_kind (room + 1) j.kind) _),
      readMembers_known rfl rfl (map_ok (optional_index (room + 1) hParent) _),
      readMembers_unknown rfl rfl, readMembers_unknown rfl rfl,
      readMembers_known rfl rfl (map_ok (optional_scalar (room + 1) hLower) _),
      readMembers_known rfl rfl (map_ok (optional_scalar (room + 1) hUpper) _)]
    rfl
  exact record_bind hMembers _

theorem ModelDescription.decode_toJson {m : Model α}
    (hFrames : ∀ f ∈ m.frames, f.parent < wordBound)
    (hParents : ∀ j ∈ m.joints, ∀ p, j.parent = some p → p < wordBound)
    (hLimits : ∀ j ∈ m.joints, ReadsBack j.lower ∧ ReadsBack j.upper) :
    ModelDescription.decode Json.fullRoom m.toJson = .ok m.description := by
  have hJoints : elements JointDescription.decode 127 (.list (m.joints.map Joint.toJson)) =
      .ok (m.joints.map Joint.described) :=
    elements_map fun j hj => JointDescription.decode_toJson 124 (hParents j hj) (hLimits j hj).1
      (hLimits j hj).2
  have hList : elements Frame.decode 127 (.list (m.frames.map Frame.toJson)) =
      .ok (m.frames.map id) :=
    elements_map fun f hf => Frame.decode_toJson 124 (hFrames f hf)
  rw [List.map_id] at hList
  have hMembers : readMembers ModelDescription.fields 127
      [(some (.whole "joints"), .list (m.joints.map Joint.toJson)),
        (some (.whole "frames"), .list (m.frames.map Frame.toJson)),
        (some (.whole "nq"), .natural m.nq), (some (.whole "nv"), .natural m.nv)]
      (⟨none, none⟩ : Draft α) = .ok ⟨some (m.joints.map Joint.described), some m.frames⟩ := by
    rw [readMembers_known rfl rfl (map_ok hJoints _), readMembers_known rfl rfl (map_ok hList _),
      readMembers_unknown rfl rfl, readMembers_unknown rfl rfl]
    rfl
  exact record_bind hMembers _

namespace Model

theorem plain_joint {j : Joint α} (hLower : ReadsBack j.lower) (hUpper : ReadsBack j.upper) :
    Json.Plain j.toJson := by
  apply Json.plain_record
  intro member hMember
  simp only [List.mem_cons, List.not_mem_nil, or_false] at hMember
  rcases hMember with rfl | rfl | rfl | rfl | rfl | rfl | rfl
  · trivial
  · trivial
  · exact Json.plain_optional Json.plain_natural _
  · exact Json.plain_natural _
  · exact Json.plain_natural _
  · exact Json.plain_scalar hLower
  · exact Json.plain_scalar hUpper

omit [NumberText α] in
theorem plain_frame (f : Frame) : Json.Plain f.toJson := by
  apply Json.plain_record
  intro member hMember
  simp only [List.mem_cons, List.not_mem_nil, or_false] at hMember
  rcases hMember with rfl | rfl
  · trivial
  · exact Json.plain_natural _

theorem plain_toJson {m : Model α}
    (hLimits : ∀ j ∈ m.joints, ReadsBack j.lower ∧ ReadsBack j.upper) : Json.Plain m.toJson := by
  apply Json.plain_record
  intro member hMember
  simp only [List.mem_cons, List.not_mem_nil, or_false] at hMember
  rcases hMember with rfl | rfl | rfl | rfl
  · apply Json.plain_list
    intro v hv
    obtain ⟨j, hj, rfl⟩ := List.mem_map.mp hv
    exact plain_joint (hLimits j hj).1 (hLimits j hj).2
  · apply Json.plain_list
    intro v hv
    obtain ⟨f, -, rfl⟩ := List.mem_map.mp hv
    exact plain_frame f
  · exact Json.plain_natural _
  · exact Json.plain_natural _

variable [Elementary α]

/-- The text of a model whose description is replayed to it is read as the model. Indices are
machine words, so that one beyond them could not be read. -/
theorem ofText_text {m : Model α} (h : m.WellFormed) (hBuild : m.description.build = .ok m)
    (hWords : m.joints.length ≤ wordBound)
    (hLimits : ∀ j ∈ m.joints, ReadsBack j.lower ∧ ReadsBack j.upper) :
    Model.ofText m.text = .ok m := by
  have hParse : Json.parse m.text.toList = ⟨m.toJson, false⟩ :=
    Json.parse_compact (plain_toJson hLimits)
  have hFrames : ∀ f ∈ m.frames, f.parent < wordBound := fun f hf =>
    Nat.lt_of_lt_of_le (h.frameParent_lt f hf) hWords
  have hParents : ∀ j ∈ m.joints, ∀ p, j.parent = some p → p < wordBound := by
    intro j hj p hp
    obtain ⟨i, hi⟩ := List.getElem?_of_mem hj
    have hRange : i < m.joints.length := (List.getElem?_eq_some_iff.mp hi).1
    exact Nat.lt_trans (h.parent_lt i j p hi hp) (Nat.lt_of_lt_of_le hRange hWords)
  have hDecode := ModelDescription.decode_toJson hFrames hParents hLimits
  simp only [Model.ofText, hParse, hDecode, hBuild, Bool.false_eq_true, if_false]

/-- Whatever the run of builder calls, what its model leaves in a text is replayed to the model, field
for field; and whatever description is accepted, its model has the described joints, completed by
the limits of their kinds, the described frames and then the own frames that were not described, and
is one that the builders can reach. -/
theorem text_replays :
    (∀ es : List (Edit α), let m := (empty : Model α).edited es
      m.description.build = .ok m ∧
      (m.joints.length ≤ wordBound →
        (∀ j ∈ m.joints, ReadsBack j.lower ∧ ReadsBack j.upper) → Model.ofText m.text = .ok m)) ∧
    ∀ (d : ModelDescription α) (m : Model α), d.build = .ok m →
      m.description.joints = d.joints.map JointDescription.completed ∧
      m.frames = d.frames ++ (JointDescription.ownFrames 0 d.joints).filter (· ∉ d.frames) ∧
      m.Built := by
  constructor
  · intro es m
    have hBuild : m.description.build = .ok m := build_description_edited es
    exact ⟨hBuild, ofText_text (WellFormed.empty.edited es) hBuild⟩
  · intro d m hBuild
    obtain ⟨hRun, hJoints, hFrames⟩ := replayed_of_replay WellFormed.empty hBuild
    exact ⟨hJoints, hFrames, hRun⟩

/-- A leg, with a frame on the hip that was added before the knee. -/
def legRun : List (Edit Float) :=
  [.jointWithLimits "hip" .revolute none (-1) 1, .frame "tool" 0,
    .jointWithLimits "knee" .prismatic (some 0) (-0.5) 0.25]

def legDescription : ModelDescription Float where
  joints := [⟨"hip", .revolute, none, some (-1), none⟩,
    ⟨"knee", .prismatic, some 0, some (-0.5), some 0.25⟩]
  frames := [⟨"hip", 0⟩, ⟨"tool", 0⟩]

theorem joints_legRun : ((empty : Model Float).edited legRun).joints =
    [⟨"hip", .revolute, none, 0, 0, -1, 1⟩, ⟨"knee", .prismatic, some 0, 1, 1, -0.5, 0.25⟩] := by
  decide +kernel

theorem text_replays_leg :
    ((empty : Model Float).edited legRun).joints.length ≤ wordBound ∧
    (∀ j ∈ ((empty : Model Float).edited legRun).joints, ReadsBack j.lower ∧ ReadsBack j.upper) ∧
    Model.ofText ((empty : Model Float).edited legRun).text =
      .ok ((empty : Model Float).edited legRun) ∧
    ∃ m, legDescription.build = .ok m ∧
      m.frames = [⟨"hip", 0⟩, ⟨"tool", 0⟩, ⟨"knee", 1⟩] ∧ m.Built := by
  have hWords : ((empty : Model Float).edited legRun).joints.length ≤ wordBound := by
    rw [joints_legRun]
    decide
  have hLimits : ∀ j ∈ ((empty : Model Float).edited legRun).joints,
      ReadsBack j.lower ∧ ReadsBack j.upper := by
    rw [joints_legRun]
    simp only [List.forall_mem_cons, List.not_mem_nil, false_imp_iff, implies_true, and_true]
    refine ⟨⟨?_, ?_⟩, ?_, ?_⟩
    · exact ⟨⟨true, [1], [0], none⟩, by decide +kernel, ⟨1, [], rfl, fun _ => rfl⟩,
        by decide +kernel⟩
    · exact ⟨⟨false, [1], [0], none⟩, by decide +kernel, ⟨1, [], rfl, fun _ => rfl⟩,
        by decide +kernel⟩
    · exact ⟨⟨true, [0], [5], none⟩, by decide +kernel, ⟨0, [], rfl, fun _ => rfl⟩,
        by decide +kernel⟩
    · exact ⟨⟨false, [0], [2, 5], none⟩, by decide +kernel, ⟨0, [], rfl, fun _ => rfl⟩,
        by decide +kernel⟩
  refine ⟨hWords, hLimits, (text_replays.1 legRun).2 hWords hLimits, ?_⟩
  have hAccepted : legDescription.build.toOption.isSome = true := by decide +kernel
  cases hBuild : legDescription.build with
  | error e =>
    rw [hBuild] at hAccepted
    cases hAccepted
  | ok m =>
    obtain ⟨-, hFrames, hBuilt⟩ := text_replays.2 legDescription m hBuild
    exact ⟨m, rfl, hFrames.trans (by decide), hBuilt⟩

end Model

end MultibodyCost
