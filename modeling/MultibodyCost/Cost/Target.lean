import MultibodyCost.Activation
import MultibodyCost.Geometry.Placement
import MultibodyCost.Json.Decode
import MultibodyCost.Json.Encode
import MultibodyCost.Json.Printer

/-!
# Texts of frame targets and bounds

A target is a frame, by its index, with the placement, position or motion wanted for it. Targets are
written to JSON and read back; the rotation of a placement is taken as it stands, without being
normalized. Bounds are written, as they are after narrowing, and not read.
-/

namespace MultibodyCost

structure FrameTarget (β : Type) where
  frame : Nat
  value : β

variable {α β : Type} [NumberText α]

def Vec.toJson (v : Vec α) : Json := .list (v.toList.map .scalar)

def Placement.toJson (m : Placement α) : Json :=
  .record [("rotation", m.rotation.toVec.toJson), ("translation", m.translation.toVec.toJson)]

namespace FrameTarget

def toJson (key : String) (f : β → Json) (t : FrameTarget β) : Json :=
  .record [("frame", .natural t.frame), (key, f t.value)]

def placementText (t : FrameTarget (Placement α)) : String :=
  (t.toJson "placement" Placement.toJson).compact

def translationText (t : FrameTarget (Vec3 α)) : String :=
  (t.toJson "translation" fun v => v.toVec.toJson).compact

def motionText (t : FrameTarget (Motion α)) : String :=
  (t.toJson "motion" fun m => m.toVec.toJson).compact

end FrameTarget

/-- A vector with its dimensions: entries, number of rows, and nothing for its single column. -/
def Vec.sizedJson (v : Vec α) : Json := .list [v.toJson, .natural v.size, .null]

def Bounds.text [Scalar α] (b : Bounds α) : String :=
  (Json.record [("lb", b.lower.sizedJson), ("ub", b.upper.sizedJson),
    ("beta", .scalar b.beta)]).compact

open JsonDecoder

def decodeVec (n : Nat) : JsonDecoder (Vec α) := fun room j =>
  (exactly n scalar room j).map List.toArray

variable [Scalar α]

namespace Placement

structure Draft (α : Type) where
  rotation : Option (Quaternion α)
  translation : Option (Vec3 α)

def fields : List (RecordField (Draft α)) :=
  [⟨"rotation", fun d => d.rotation.isSome, false, fun room j =>
      (decodeVec 4 room j).map fun v d =>
        { d with rotation := some ⟨v.entry 0, v.entry 1, v.entry 2, v.entry 3⟩ }⟩,
    ⟨"translation", fun d => d.translation.isSome, false, fun room j =>
      (decodeVec 3 room j).map fun v d => { d with translation := some (Vec3.ofVec v 0) }⟩]

def decode : JsonDecoder (Placement α) := fun room j => do
  let d ← record fields (⟨none, none⟩ : Draft α) room j
  let rotation ← required d.rotation
  let translation ← required d.translation
  return ⟨translation, rotation⟩

end Placement

namespace FrameTarget

structure Draft (β : Type) where
  frame : Option Nat
  value : Option β

def fields (key : String) (d : JsonDecoder β) : List (RecordField (Draft β)) :=
  [⟨"frame", fun t => t.frame.isSome, false, fun room j =>
      (index room j).map fun x t => { t with frame := some x }⟩,
    ⟨key, fun t => t.value.isSome, false, fun room j =>
      (d room j).map fun x t => { t with value := some x }⟩]

def decode (key : String) (d : JsonDecoder β) : JsonDecoder (FrameTarget β) := fun room j => do
  let t ← record (fields key d) (⟨none, none⟩ : Draft β) room j
  let frame ← required t.frame
  let value ← required t.value
  return ⟨frame, value⟩

def placementOfText (s : String) : Except JsonFault (FrameTarget (Placement α)) :=
  readText (decode "placement" Placement.decode) s

def translationOfText (s : String) : Except JsonFault (FrameTarget (Vec3 α)) :=
  readText (decode "translation" fun room j =>
    (decodeVec 3 room j).map fun v => Vec3.ofVec v 0) s

def motionOfText (s : String) : Except JsonFault (FrameTarget (Motion α)) :=
  readText (decode "motion" fun room j => (decodeVec 6 room j).map fun v => Motion.ofVec v 0) s

end FrameTarget

end MultibodyCost
