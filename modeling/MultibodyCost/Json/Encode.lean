import MultibodyCost.Decimal.Reading
import MultibodyCost.Json.Value

/-!
# Writing of typed values

The JSON values of scalars and of values that may be absent. A scalar without a literal, one that
is not finite, is written as null and so cannot be read back.
-/

namespace MultibodyCost.Json

def scalar {α : Type} [NumberText α] (x : α) : Json :=
  match NumberText.literal? x with
  | some l => .number l
  | none => .null

def optional {β : Type} (f : β → Json) : Option β → Json
  | some x => f x
  | none => .null

end MultibodyCost.Json
