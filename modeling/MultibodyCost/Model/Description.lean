import MultibodyCost.Json.Decode
import MultibodyCost.Json.Encode
import MultibodyCost.Json.Place
import MultibodyCost.Json.Printer
import MultibodyCost.Model.Basic

/-!
# Model texts

A model is written to JSON with all its fields, and read back through a description that keeps the
joints and frames but not the offsets and dimensions. `Description.build` replays a description
through the operations that build models, so that a model that was read satisfies what every built
model does. Frames are listed in the order of their creation: a frame that has the name of the next
joint and is attached to it tells where that joint was added.
-/

namespace MultibodyCost

/-- A joint as it is described: without offsets, and perhaps without limits. -/
structure JointDescription (α : Type) where
  name : String
  kind : JointKind
  parent : Option Nat
  lower : Option α
  upper : Option α

structure ModelDescription (α : Type) where
  joints : List (JointDescription α)
  frames : List Frame

variable {α : Type}

section Build

variable [Elementary α]

def Model.addDescribed (m : Model α) (j : JointDescription α) :
    Except (ModelError α) (Model α) := do
  let (m, _) ← m.addJointWithLimits j.name j.kind j.parent
    (j.lower.getD j.kind.defaultLimits.1) (j.upper.getD j.kind.defaultLimits.2)
  return m

def Model.addAllDescribed (m : Model α) : List (JointDescription α) → Except (ModelError α) (Model α)
  | [] => .ok m
  | j :: js => do (← m.addDescribed j).addAllDescribed js

def Model.replay (m : Model α) (joints : List (JointDescription α)) :
    List Frame → Except (ModelError α) (Model α)
  | [] => m.addAllDescribed joints
  | f :: fs =>
    match joints with
    | [] => do (← m.addFrame f.name f.parent).1.replay [] fs
    | j :: js =>
      if f.parent = m.joints.length ∧ f.name = j.name then do
        (← m.addDescribed j).replay js fs
      else do
        (← m.addFrame f.name f.parent).1.replay (j :: js) fs

def ModelDescription.build (d : ModelDescription α) : Except (ModelError α) (Model α) :=
  Model.empty.replay d.joints d.frames

/-- The description that a model leaves behind when its offsets are forgotten. -/
def Model.description (m : Model α) : ModelDescription α where
  joints := m.joints.map fun j => ⟨j.name, j.kind, j.parent, some j.lower, some j.upper⟩
  frames := m.frames

end Build

def JointKind.word : JointKind → String
  | .revolute => "revolute"
  | .prismatic => "prismatic"
  | .spherical => "spherical"
  | .freeFlyer => "free_flyer"

def JointKind.words : List (String × JointKind) :=
  [.revolute, .prismatic, .spherical, .freeFlyer].map fun k => (k.word, k)

def Frame.toJson (f : Frame) : Json :=
  .record [("name", .text f.name), ("parent", .natural f.parent)]

variable [NumberText α]

def Joint.toJson (j : Joint α) : Json :=
  .record
    [("name", .text j.name), ("kind", .text j.kind.word), ("parent", .optional .natural j.parent),
      ("idx_q", .natural j.idxQ), ("idx_v", .natural j.idxV), ("lower", .scalar j.lower),
      ("upper", .scalar j.upper)]

def Model.toJson (m : Model α) : Json :=
  .record
    [("joints", .list (m.joints.map Joint.toJson)), ("frames", .list (m.frames.map Frame.toJson)),
      ("nq", .natural m.nq), ("nv", .natural m.nv)]

def Model.text (m : Model α) : String := m.toJson.compact

namespace JointDescription

/-- The members read so far; the outer option says whether a member was there. -/
structure Draft (α : Type) where
  name : Option String
  kind : Option JointKind
  parent : Option (Option Nat)
  lower : Option (Option α)
  upper : Option (Option α)

open JsonDecoder in
def fields : List (RecordField (Draft α)) :=
  [⟨"name", fun d => d.name.isSome, false, fun room j =>
      (string room j).map fun x d => { d with name := some x }⟩,
    ⟨"kind", fun d => d.kind.isSome, false, fun room j =>
      (oneOf JointKind.words room j).map fun x d => { d with kind := some x }⟩,
    ⟨"parent", fun d => d.parent.isSome, true, fun room j =>
      (optional index room j).map fun x d => { d with parent := some x }⟩,
    ⟨"lower", fun d => d.lower.isSome, false, fun room j =>
      (optional scalar room j).map fun x d => { d with lower := some x }⟩,
    ⟨"upper", fun d => d.upper.isSome, false, fun room j =>
      (optional scalar room j).map fun x d => { d with upper := some x }⟩]

def decode : JsonDecoder (JointDescription α) := fun room j => do
  let d ← JsonDecoder.record fields (⟨none, none, none, none, none⟩ : Draft α) room j
  let name ← JsonDecoder.required d.name
  let kind ← JsonDecoder.required d.kind
  return ⟨name, kind, d.parent.join, d.lower.join, d.upper.join⟩

end JointDescription

namespace Frame

structure Draft where
  name : Option String
  parent : Option Nat

open JsonDecoder in
def fields : List (RecordField Draft) :=
  [⟨"name", fun d => d.name.isSome, false, fun room j =>
      (string room j).map fun x d => { d with name := some x }⟩,
    ⟨"parent", fun d => d.parent.isSome, false, fun room j =>
      (index room j).map fun x d => { d with parent := some x }⟩]

def decode : JsonDecoder Frame := fun room j => do
  let d ← JsonDecoder.record fields (⟨none, none⟩ : Draft) room j
  let name ← JsonDecoder.required d.name
  let parent ← JsonDecoder.required d.parent
  return ⟨name, parent⟩

end Frame

namespace ModelDescription

structure Draft (α : Type) where
  joints : Option (List (JointDescription α))
  frames : Option (List Frame)

open JsonDecoder in
def fields : List (RecordField (Draft α)) :=
  [⟨"joints", fun d => d.joints.isSome, false, fun room j =>
      (elements JointDescription.decode room j).map fun x d => { d with joints := some x }⟩,
    ⟨"frames", fun d => d.frames.isSome, true, fun room j =>
      (elements Frame.decode room j).map fun x d => { d with frames := some x }⟩]

def decode : JsonDecoder (ModelDescription α) := fun room j => do
  let d ← JsonDecoder.record fields (⟨none, none⟩ : Draft α) room j
  let joints ← JsonDecoder.required d.joints
  return ⟨joints, d.frames.getD []⟩

end ModelDescription

inductive ModelTextError (α : Type) where
  | text (fault : JsonFault)
  | model (e : ModelError α)

/-- What a reader of a text is told: the message of a refused model, or the kind of a fault in the
text. Where the message ends in a place, the fault counts as one of the text. -/
def ModelTextError.message? : ModelTextError Float → Except JsonFault String
  | .text fault => .error fault
  | .model e =>
    let placed := PlacedMessage.ofMessage e.message
    if placed.line = 0 then .ok (String.ofList placed.message) else .error .mismatched

/-- The model of a text. The checks of the model come before the look at what follows it. -/
def Model.ofText [Elementary α] (s : String) : Except (ModelTextError α) (Model α) :=
  let doc := Json.parse s.toList
  match ModelDescription.decode Json.fullRoom doc.value with
  | .error fault => .error (.text fault)
  | .ok d =>
    match d.build with
    | .error e => .error (.model e)
    | .ok m => if doc.trailing then .error (.text .malformed) else .ok m

end MultibodyCost
