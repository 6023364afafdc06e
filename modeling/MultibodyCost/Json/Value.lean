import MultibodyCost.Decimal.Literal

/-!
# JSON values that may break off

A text is read into a `Json` value even where it is not JSON: the value then breaks off at the first
place that is wrong. Typed readers walk the value in the order of the text and so meet either a
value of the wrong type or the break, whichever stands first; that order decides which fault a
reader reports.

A reader may also skip a value without looking into it. Some texts can be skipped and not read (a
string with half of a surrogate pair, a number out of range), and some break in another way for
who skips them; the leaves of `Json` record both.
-/

namespace MultibodyCost

/-- Why a text gives no value of the wanted type. -/
inductive JsonFault where
  | malformed
  | truncated
  | mismatched
deriving DecidableEq

inductive JsonText where
  | whole (s : String)
  /-- An escape stands for half of a surrogate pair: such a string can be skipped, not read. -/
  | unpaired
  /-- The string breaks off; `skipped` is the fault for who does not look into it. -/
  | cut (read skipped : JsonFault)

inductive Json where
  | null
  | bool (b : Bool)
  | number (l : Literal)
  /-- A number that breaks off; who skips it always finds it malformed. -/
  | cutNumber (fault : JsonFault)
  | string (t : JsonText)
  /-- A word that breaks off or is none of the three words. -/
  | cutWord (fault : JsonFault)
  /-- Nothing that begins a value stands here. -/
  | missing (fault : JsonFault)
  /-- The elements; `stop` is the fault after the last of them, `none` where the list is closed. -/
  | array (items : List Json) (stop : Option JsonFault)
  /-- The members; a key that is no string is `none`, with the value that stands in its place.
  `stop` is as for arrays. -/
  | object (members : List (Option JsonText × Json)) (stop : Option JsonFault)

namespace Json

def text (s : String) : Json := .string (.whole s)

def record (members : List (String × Json)) : Json :=
  .object (members.map fun (key, value) => (some (.whole key), value)) none

def list (items : List Json) : Json := .array items none

def natural (n : Nat) : Json := .number (.ofNat n)

def get? (j : Json) (key : String) : Option Json :=
  match j with
  | .object members _ => members.findSome? fun
    | (some (.whole k), value) => if k = key then some value else none
    | _ => none
  | _ => none

end Json

end MultibodyCost
