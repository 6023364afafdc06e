import MultibodyCost.Config.Basic
import MultibodyCost.Json.Decode
import MultibodyCost.Json.Encode
import MultibodyCost.Json.Printer

/-!
# Configuration texts

Configurations are written to JSON with all their fields and read back with defaults: no control
dimension, weight one, the quadratic activation, factor one, no reference, zero velocities.
Activations and residuals are told apart by their `type`.
-/

namespace MultibodyCost

variable {α : Type}

section Writing

variable [NumberText α]

def Json.scalars (xs : List α) : Json := .list (xs.map .scalar)

def Vec3.toJson (v : Vec3 α) : Json := .scalars [v.x, v.y, v.z]

def Quaternion.toJson (q : Quaternion α) : Json := .scalars [q.x, q.y, q.z, q.w]

def ActivationConfig.toJson : ActivationConfig α → Json
  | quadratic => .record [("type", .text "quadratic")]
  | weighted ws => .record [("type", .text "weighted_quadratic"), ("weights", .scalars ws)]
  | barrier lower upper beta =>
    .record [("type", .text "quadratic_barrier"), ("lower", .scalars lower),
      ("upper", .scalars upper), ("beta", .scalar beta)]

def ResidualConfig.toJson : ResidualConfig α → Json
  | state ref => .record [("type", .text "state"), ("reference", .optional .scalars ref)]
  | control ref => .record [("type", .text "control"), ("reference", .optional .scalars ref)]
  | com ref => .record [("type", .text "com_position"), ("reference", ref.toJson)]
  | placement frame t q =>
    .record [("type", .text "frame_placement"), ("frame", .text frame),
      ("translation", t.toJson), ("rotation", q.toJson)]
  | translation frame ref =>
    .record [("type", .text "frame_translation"), ("frame", .text frame),
      ("reference", ref.toJson)]
  | velocity frame linear angular =>
    .record [("type", .text "frame_velocity"), ("frame", .text frame),
      ("linear", linear.toJson), ("angular", angular.toJson)]

def ConfigEntry.toJson (e : ConfigEntry α) : Json :=
  .record [("name", .text e.name), ("weight", .scalar e.weight),
    ("activation", e.activation.toJson), ("residual", e.residual.toJson)]

def Config.toJson (c : Config α) : Json :=
  .record [("nu", .optional .natural c.nu), ("costs", .list (c.entries.map ConfigEntry.toJson))]

def Config.text (c : Config α) : String := c.toJson.pretty

end Writing

section Reading

variable [NumberText α] [Scalar α]

open JsonDecoder

def decodeScalars : JsonDecoder (List α) := elements scalar

def decodeVec3 : JsonDecoder (Vec3 α) := fun room j => do
  match ← exactly 3 scalar room j with
  | [x, y, z] => return ⟨x, y, z⟩
  | _ => .error .mismatched

def decodeQuaternion : JsonDecoder (Quaternion α) := fun room j => do
  match ← exactly 4 scalar room j with
  | [x, y, z, w] => return ⟨x, y, z, w⟩
  | _ => .error .mismatched

namespace ActivationConfig

inductive Tag where
  | quadratic
  | weighted
  | barrier

def tags : List (String × Tag) :=
  [("quadratic", .quadratic), ("weighted_quadratic", .weighted), ("quadratic_barrier", .barrier)]

structure Draft (α : Type) where
  weights : Option (List α)
  lower : Option (List α)
  upper : Option (List α)
  beta : Option α

def weightsField : RecordField (Draft α) :=
  ⟨"weights", fun d => d.weights.isSome, false, fun room j =>
    (decodeScalars room j).map fun x d => { d with weights := some x }⟩

def lowerField : RecordField (Draft α) :=
  ⟨"lower", fun d => d.lower.isSome, false, fun room j =>
    (decodeScalars room j).map fun x d => { d with lower := some x }⟩

def upperField : RecordField (Draft α) :=
  ⟨"upper", fun d => d.upper.isSome, false, fun room j =>
    (decodeScalars room j).map fun x d => { d with upper := some x }⟩

def betaField : RecordField (Draft α) :=
  ⟨"beta", fun d => d.beta.isSome, true, fun room j =>
    (scalar room j).map fun x d => { d with beta := some x }⟩

def emptyDraft : Draft α := ⟨none, none, none, none⟩

def decodeBody : Tag → JsonDecoder (ActivationConfig α)
  | .quadratic => fun _ j =>
    match j with
    | .array (_ :: _) _ => .error .mismatched
    | _ => .ok .quadratic
  | .weighted => fun room j => do
    let d ← record [weightsField] emptyDraft room j
    return .weighted (← required d.weights)
  | .barrier => fun room j => do
    let d ← record [lowerField, upperField, betaField] emptyDraft room j
    return .barrier (← required d.lower) (← required d.upper) (d.beta.getD 1)

def decode : JsonDecoder (ActivationConfig α) := tagged tags decodeBody

end ActivationConfig

namespace ResidualConfig

inductive Tag where
  | state
  | control
  | com
  | placement
  | translation
  | velocity

def tags : List (String × Tag) :=
  [("state", .state), ("control", .control), ("com_position", .com),
    ("frame_placement", .placement), ("frame_translation", .translation),
    ("frame_velocity", .velocity)]

structure Draft (α : Type) where
  frame : Option String
  vector : Option (Option (List α))
  point : Option (Vec3 α)
  translation : Option (Vec3 α)
  rotation : Option (Quaternion α)
  linear : Option (Vec3 α)
  angular : Option (Vec3 α)

def frameField : RecordField (Draft α) :=
  ⟨"frame", fun d => d.frame.isSome, false, fun room j =>
    (JsonDecoder.string room j).map fun x d => { d with frame := some x }⟩

def vectorField : RecordField (Draft α) :=
  ⟨"reference", fun d => d.vector.isSome, true, fun room j =>
    (optional decodeScalars room j).map fun x d => { d with vector := some x }⟩

def pointField : RecordField (Draft α) :=
  ⟨"reference", fun d => d.point.isSome, false, fun room j =>
    (decodeVec3 room j).map fun x d => { d with point := some x }⟩

def translationField : RecordField (Draft α) :=
  ⟨"translation", fun d => d.translation.isSome, false, fun room j =>
    (decodeVec3 room j).map fun x d => { d with translation := some x }⟩

def rotationField : RecordField (Draft α) :=
  ⟨"rotation", fun d => d.rotation.isSome, false, fun room j =>
    (decodeQuaternion room j).map fun x d => { d with rotation := some x }⟩

def linearField : RecordField (Draft α) :=
  ⟨"linear", fun d => d.linear.isSome, true, fun room j =>
    (decodeVec3 room j).map fun x d => { d with linear := some x }⟩

def angularField : RecordField (Draft α) :=
  ⟨"angular", fun d => d.angular.isSome, true, fun room j =>
    (decodeVec3 room j).map fun x d => { d with angular := some x }⟩

def emptyDraft : Draft α := ⟨none, none, none, none, none, none, none⟩

def decodeBody : Tag → JsonDecoder (ResidualConfig α)
  | .state => fun room j => do
    let d ← record [vectorField] emptyDraft room j
    return .state d.vector.join
  | .control => fun room j => do
    let d ← record [vectorField] emptyDraft room j
    return .control d.vector.join
  | .com => fun room j => do
    let d ← record [pointField] emptyDraft room j
    return .com (← required d.point)
  | .placement => fun room j => do
    let d ← record [frameField, translationField, rotationField] emptyDraft room j
    return .placement (← required d.frame) (← required d.translation) (← required d.rotation)
  | .translation => fun room j => do
    let d ← record [frameField, pointField] emptyDraft room j
    return .translation (← required d.frame) (← required d.point)
  | .velocity => fun room j => do
    let d ← record [frameField, linearField, angularField] emptyDraft room j
    return .velocity (← required d.frame) (d.linear.getD .zero) (d.angular.getD .zero)

def decode : JsonDecoder (ResidualConfig α) := tagged tags decodeBody

end ResidualConfig

namespace ConfigEntry

structure Draft (α : Type) where
  name : Option String
  weight : Option α
  activation : Option (ActivationConfig α)
  residual : Option (ResidualConfig α)

def fields : List (RecordField (Draft α)) :=
  [⟨"name", fun d => d.name.isSome, false, fun room j =>
      (JsonDecoder.string room j).map fun x d => { d with name := some x }⟩,
    ⟨"weight", fun d => d.weight.isSome, true, fun room j =>
      (scalar room j).map fun x d => { d with weight := some x }⟩,
    ⟨"activation", fun d => d.activation.isSome, true, fun room j =>
      (ActivationConfig.decode room j).map fun x d => { d with activation := some x }⟩,
    ⟨"residual", fun d => d.residual.isSome, false, fun room j =>
      (ResidualConfig.decode room j).map fun x d => { d with residual := some x }⟩]

def decode : JsonDecoder (ConfigEntry α) := fun room j => do
  let d ← record fields (⟨none, none, none, none⟩ : Draft α) room j
  let name ← required d.name
  let residual ← required d.residual
  return ⟨name, d.weight.getD 1, d.activation.getD .quadratic, residual⟩

end ConfigEntry

namespace Config

structure Draft (α : Type) where
  nu : Option (Option Nat)
  entries : Option (List (ConfigEntry α))

def fields : List (RecordField (Draft α)) :=
  [⟨"nu", fun d => d.nu.isSome, true, fun room j =>
      (optional index room j).map fun x d => { d with nu := some x }⟩,
    ⟨"costs", fun d => d.entries.isSome, false, fun room j =>
      (elements ConfigEntry.decode room j).map fun x d => { d with entries := some x }⟩]

def decode : JsonDecoder (Config α) := fun room j => do
  let d ← record fields (⟨none, none⟩ : Draft α) room j
  let entries ← required d.entries
  return ⟨d.nu.join, entries⟩

def ofText (s : String) : Except JsonFault (Config α) := readText decode s

end Config

end Reading

end MultibodyCost
