import MultibodyCost.Json.Value

/-!
# From text to JSON values

`Json.parse` reads one value and says whether anything but blanks follows it. It never fails: what
is wrong in the text becomes a break in the value, and nothing after a break is read.

Every step returns the rest of the text, or `none` after a break.
-/

namespace MultibodyCost.Json

namespace Parser

def isBlank (c : Char) : Bool := c = ' ' || c = '\n' || c = '\t' || c = '\r'

def skipBlanks (s : List Char) : List Char := s.dropWhile isBlank

def escaped? : Char → Option Char
  | '"' => some '"'
  | '\\' => some '\\'
  | '/' => some '/'
  | 'b' => some '\x08'
  | 'f' => some '\x0c'
  | 'n' => some '\n'
  | 'r' => some '\r'
  | 't' => some '\t'
  | _ => none

def hexDigit? (c : Char) : Option Nat :=
  let n := c.toNat
  if 48 ≤ n ∧ n < 58 then some (n - 48)
  else if 65 ≤ n ∧ n < 71 then some (n - 55)
  else if 97 ≤ n ∧ n < 103 then some (n - 87)
  else none

def hex? (a b c d : Char) : Option Nat := do
  let a ← hexDigit? a
  let b ← hexDigit? b
  let c ← hexDigit? c
  let d ← hexDigit? d
  return ((a * 16 + b) * 16 + c) * 16 + d

def isHighSurrogate (n : Nat) : Bool := 0xD800 ≤ n && n < 0xDC00

def isLowSurrogate (n : Nat) : Bool := 0xDC00 ≤ n && n < 0xE000

def surrogatePair (high low : Nat) : Char :=
  Char.ofNat (0x10000 + (high - 0xD800) * 0x400 + (low - 0xDC00))

/-- The string read so far, last character first; `none` once it cannot be read any more. -/
abbrev Gathered := Option (List Char)

def Gathered.push (acc : Gathered) (c : Char) : Gathered := acc.map (c :: ·)

def Gathered.close : Gathered → JsonText
  | some cs => .whole (String.ofList cs.reverse)
  | none => .unpaired

/-- The string breaks off with a fault; who reads it stops before that where it cannot be read. -/
def Gathered.cut (acc : Gathered) (fault : JsonFault) : JsonText :=
  match acc with
  | some _ => .cut fault fault
  | none => .cut .malformed fault

/-- Fewer than four bytes are left, too few for the digits of an escape. -/
def tooShort (s : List Char) : Bool := (s.take 4).foldl (fun n c => n + c.utf8Size) 0 < 4

inductive Piece where
  | char (c : Char)
  /-- Half of a surrogate pair, alone. -/
  | half
  | close
  | cut (fault : JsonFault)

def hexDigits (s : List Char) : Except JsonFault (Nat × List Char) :=
  match s with
  | a :: b :: c :: d :: rest =>
    match hex? a b c d with
    | some n => .ok (n, rest)
    | none => .error .malformed
  | short => .error (if tooShort short then .truncated else .malformed)

/-- The second half of a surrogate pair whose first half is `high`. Where the second half is
absent, the first one stands alone and nothing after it is taken. -/
def secondHalf (high : Nat) (s : List Char) : Piece × List Char :=
  match s with
  | [] => (.cut .truncated, [])
  | '\\' :: [] => (.cut .truncated, [])
  | '\\' :: 'u' :: digits =>
    match hexDigits digits with
    | .error fault => (.cut fault, [])
    | .ok (low, rest) =>
      if isLowSurrogate low then (.char (surrogatePair high low), rest) else (.half, s)
  | _ => (.half, s)

def escapePiece (s : List Char) : Piece × List Char :=
  match s with
  | [] => (.cut .truncated, [])
  | 'u' :: digits =>
    match hexDigits digits with
    | .error fault => (.cut fault, [])
    | .ok (n, rest) =>
      if isLowSurrogate n then (.half, rest)
      else if isHighSurrogate n then secondHalf n rest
      else (.char (Char.ofNat n), rest)
  | c :: rest =>
    match escaped? c with
    | some ch => (.char ch, rest)
    | none => (.cut .malformed, [])

def nextPiece (s : List Char) : Piece × List Char :=
  match s with
  | [] => (.cut .truncated, [])
  | '"' :: rest => (.close, rest)
  | '\\' :: rest => escapePiece rest
  | c :: rest => if c.toNat < 32 then (.cut .malformed, []) else (.char c, rest)

/-- The string that goes on with `s`, up to its closing quote. Every piece takes a character, so
one more than the length of the text is `fuel` enough. -/
def stringTail (fuel : Nat) (acc : Gathered) (s : List Char) : JsonText × Option (List Char) :=
  match fuel with
  | 0 => (acc.cut .truncated, none)
  | fuel + 1 =>
    match nextPiece s with
    | (.char c, rest) => stringTail fuel (acc.push c) rest
    | (.half, rest) => stringTail fuel none rest
    | (.close, rest) => (acc.close, some rest)
    | (.cut fault, _) => (acc.cut fault, none)

def string (fuel : Nat) (s : List Char) : JsonText × Option (List Char) :=
  stringTail fuel (some []) s

def spanDigits : List Char → List Digit × List Char
  | [] => ([], [])
  | c :: rest =>
    match Digit.ofChar? c with
    | some d => let (ds, rest') := spanDigits rest; (d :: ds, rest')
    | none => ([], c :: rest)

def digitFault (rest : List Char) : JsonFault := if rest.isEmpty then .truncated else .malformed

/-- The exponent at the front of a text, if there is one. -/
def exponent (s : List Char) : Except JsonFault (Option Int × List Char) :=
  match s with
  | c :: rest =>
    if c = 'e' ∨ c = 'E' then
      let (negative, rest) := match rest with
        | '-' :: rest => (true, rest)
        | '+' :: rest => (false, rest)
        | rest => (false, rest)
      match spanDigits rest with
      | ([], rest) => .error (digitFault rest)
      | (ds, rest) =>
        .ok (some (if negative then -(Digit.toNat ds : Int) else Digit.toNat ds), rest)
    else .ok (none, s)
  | [] => .ok (none, s)

def fraction (s : List Char) : Except JsonFault (List Digit × List Char) :=
  match s with
  | '.' :: rest =>
    match spanDigits rest with
    | ([], rest) => .error (digitFault rest)
    | found => .ok found
  | _ => .ok ([], s)

/-- A number after its sign. A zero at the front is the only digit before the point. -/
def unsigned (negative : Bool) (s : List Char) : Except JsonFault (Literal × List Char) := do
  let (whole, rest) ← match spanDigits s with
    | ([], rest) => .error (digitFault rest)
    | (0 :: _ :: _, _) => .error .malformed
    | found => .ok found
  let (fraction, rest) ← fraction rest
  let (exponent, rest) ← exponent rest
  return (⟨negative, whole, fraction, exponent⟩, rest)

def number (s : List Char) : Json × Option (List Char) :=
  let found := match s with
    | '-' :: rest => unsigned true rest
    | _ => unsigned false s
  match found with
  | .ok (l, rest) => (.number l, some rest)
  | .error fault => (.cutNumber fault, none)

def word (value : Json) : List Char → List Char → Json × Option (List Char)
  | [], rest => (value, some rest)
  | _ :: _, [] => (.cutWord .truncated, none)
  | c :: cs, d :: rest => if c = d then word value cs rest else (.cutWord .malformed, none)

mutual

/-- The value at the front of a text. Every two nested calls take a character, so twice the length
of the text is `fuel` enough. -/
def value (fuel : Nat) (s : List Char) : Json × Option (List Char) :=
  match fuel with
  | 0 => (.missing .malformed, none)
  | fuel + 1 =>
    match skipBlanks s with
    | [] => (.missing .truncated, none)
    | 'n' :: rest => word .null ['u', 'l', 'l'] rest
    | 't' :: rest => word (.bool true) ['r', 'u', 'e'] rest
    | 'f' :: rest => word (.bool false) ['a', 'l', 's', 'e'] rest
    | '"' :: rest => let (t, rest) := string fuel rest; (.string t, rest)
    | '[' :: rest =>
      match skipBlanks rest with
      | ']' :: rest => (.array [] none, some rest)
      | [] => (.array [] (some .truncated), none)
      | rest => let (items, stop, rest) := items fuel rest; (.array items stop, rest)
    | '\x7b' :: rest =>
      match skipBlanks rest with
      | '\x7d' :: rest => (.object [] none, some rest)
      | [] => (.object [] (some .truncated), none)
      | rest => let (members, stop, rest) := members fuel rest; (.object members stop, rest)
    | c :: rest =>
      if c = '-' ∨ (Digit.ofChar? c).isSome then number (c :: rest) else (.missing .malformed, none)

def items (fuel : Nat) (s : List Char) :
    List Json × Option JsonFault × Option (List Char) :=
  match fuel with
  | 0 => ([], some .malformed, none)
  | fuel + 1 =>
    match value fuel s with
    | (j, none) => ([j], none, none)
    | (j, some rest) =>
      match skipBlanks rest with
      | ',' :: rest => let (js, stop, rest) := items fuel rest; (j :: js, stop, rest)
      | ']' :: rest => ([j], none, some rest)
      | [] => ([j], some .truncated, none)
      | _ => ([j], some .malformed, none)

def members (fuel : Nat) (s : List Char) :
    List (Option JsonText × Json) × Option JsonFault × Option (List Char) :=
  match fuel with
  | 0 => ([], some .malformed, none)
  | fuel + 1 =>
    match skipBlanks s with
    | '"' :: rest =>
      match string fuel rest with
      | (key, none) => ([(some key, .missing .malformed)], none, none)
      | (key, some rest) =>
        match skipBlanks rest with
        | ':' :: rest =>
          match value fuel rest with
          | (j, none) => ([(some key, j)], none, none)
          | (j, some rest) =>
            match skipBlanks rest with
            | ',' :: rest =>
              let (ms, stop, rest) := members fuel rest; ((some key, j) :: ms, stop, rest)
            | '\x7d' :: rest => ([(some key, j)], none, some rest)
            | [] => ([(some key, j)], some .truncated, none)
            | _ => ([(some key, j)], some .malformed, none)
        | [] => ([(some key, .missing .truncated)], none, none)
        | _ => ([(some key, .missing .malformed)], none, none)
    | _ => ([(none, (value fuel s).1)], none, none)

end

end Parser

structure Document where
  value : Json
  trailing : Bool

def parse (s : List Char) : Document :=
  match Parser.value (2 * s.length + 2) s with
  | (j, none) => ⟨j, false⟩
  | (j, some rest) => ⟨j, !(Parser.skipBlanks rest).isEmpty⟩

end MultibodyCost.Json
