import MultibodyCost.Json.Value

/-!
# From JSON values to text

Two layouts: `compact` without any blanks, and `pretty` with every element and member on a line of
its own, indented by two blanks for each level; an empty list or object stays on one line.

Strings escape the quote, the backslash and the control characters, by a letter where there is one
and else by four hexadecimal digits; all other characters stand for themselves. Only values
without a break have a text, and a part that has none is written as `null`.
-/

namespace MultibodyCost.Json

def hexChar (n : Nat) : Char := Char.ofNat (if n < 10 then 48 + n else 87 + n)

def escape (c : Char) : List Char :=
  if c = '"' then ['\\', '"']
  else if c = '\\' then ['\\', '\\']
  else if c = '\x08' then ['\\', 'b']
  else if c = '\x0c' then ['\\', 'f']
  else if c = '\n' then ['\\', 'n']
  else if c = '\r' then ['\\', 'r']
  else if c = '\t' then ['\\', 't']
  else if c.toNat < 32 then ['\\', 'u', '0', '0', hexChar (c.toNat / 16), hexChar (c.toNat % 16)]
  else [c]

def quoted (s : String) : List Char := '"' :: s.toList.flatMap escape ++ ['"']

def nullChars : List Char := ['n', 'u', 'l', 'l']

def leaf : Json → List Char
  | .bool true => ['t', 'r', 'u', 'e']
  | .bool false => ['f', 'a', 'l', 's', 'e']
  | .number l => l.chars true
  | .string (.whole s) => quoted s
  | _ => nullChars

def keyChars : Option JsonText → List Char
  | some (.whole s) => quoted s
  | _ => quoted ""

mutual

def compactChars : Json → List Char
  | .array items _ => '[' :: compactItems items
  | .object members _ => '\x7b' :: compactMembers members
  | j => leaf j

def compactItems : List Json → List Char
  | [] => [']']
  | [j] => compactChars j ++ [']']
  | j :: js => compactChars j ++ ',' :: compactItems js

def compactMembers : List (Option JsonText × Json) → List Char
  | [] => ['\x7d']
  | [(k, j)] => keyChars k ++ ':' :: compactChars j ++ ['\x7d']
  | (k, j) :: ms => keyChars k ++ ':' :: compactChars j ++ ',' :: compactMembers ms

end

def newline (level : Nat) : List Char := '\n' :: List.replicate (2 * level) ' '

mutual

def prettyChars (level : Nat) : Json → List Char
  | .array [] _ => ['[', ']']
  | .array (j :: js) _ =>
    '[' :: newline (level + 1) ++ prettyChars (level + 1) j ++ prettyItems level js
  | .object [] _ => ['\x7b', '\x7d']
  | .object ((k, j) :: ms) _ =>
    '\x7b' :: newline (level + 1) ++ keyChars k ++ [':', ' '] ++ prettyChars (level + 1) j ++
      prettyMembers level ms
  | j => leaf j

/-- Elements after the first, each on its own line, then the closing bracket. -/
def prettyItems (level : Nat) : List Json → List Char
  | [] => newline level ++ [']']
  | j :: js => ',' :: newline (level + 1) ++ prettyChars (level + 1) j ++ prettyItems level js

def prettyMembers (level : Nat) : List (Option JsonText × Json) → List Char
  | [] => newline level ++ ['\x7d']
  | (k, j) :: ms =>
    ',' :: newline (level + 1) ++ keyChars k ++ [':', ' '] ++ prettyChars (level + 1) j ++
      prettyMembers level ms

end

def compact (j : Json) : String := String.ofList (compactChars j)

def pretty (j : Json) : String := String.ofList (prettyChars 0 j)

end MultibodyCost.Json
