import MultibodyCost.Json.Parser

/-!
# Messages that end in a place

A fault in a text has a place, and its message ends in it: ` at line L column C`. A message of
another origin has none and counts as line zero. The two are told apart by the end of the message
alone, so a message that quotes a name with such an end is taken at its word: the end is split off
and its line counts.
-/

namespace MultibodyCost

/-- A message without its place, and the line and column of the place; line zero is no place. -/
structure PlacedMessage where
  message : List Char
  line : Nat
  column : Nat

namespace PlacedMessage

def afterFront? : (front s : List Char) → Option (List Char)
  | [], s => some s
  | _ :: _, [] => none
  | c :: cs, d :: s => if c = d then afterFront? cs s else none

def splitAtLast? (mark : List Char) : List Char → Option (List Char × List Char)
  | [] => (afterFront? mark []).map ([], ·)
  | c :: s =>
    match splitAtLast? mark s with
    | some (before, after) => some (c :: before, after)
    | none => (afterFront? mark (c :: s)).map ([], ·)

/-- The number at the front of a text, at least one digit and below `wordBound`, and the rest. -/
def number? (s : List Char) : Option (Nat × List Char) :=
  match Json.Parser.spanDigits s with
  | ([], _) => none
  | (ds, rest) => if Digit.toNat ds < wordBound then some (Digit.toNat ds, rest) else none

def lineMark : List Char := " at line ".toList

def columnMark : List Char := " column ".toList

/-- The message, line and column where a text ends in a place. -/
def split? (s : List Char) : Option PlacedMessage := do
  let (message, rest) ← splitAtLast? lineMark s
  let (line, rest) ← number? rest
  let (column, rest) ← number? (← afterFront? columnMark rest)
  if rest.isEmpty then some ⟨message, line, column⟩ else none

def ofMessage (s : String) : PlacedMessage := (split? s.toList).getD ⟨s.toList, 0, 0⟩

end PlacedMessage

end MultibodyCost
