/-!
# Decimal literals

A literal is what a decimal number looks like on paper: a sign, the digits before and after the
point, and perhaps an exponent. It keeps the difference between `1` and `1.0`, which are one number
but not one literal. The text of a literal is defined here; what number it denotes depends on the
scalar type that reads it.
-/

namespace MultibodyCost

/-- Whole numbers are read into words of 64 bits: they are below this bound. -/
def wordBound : Nat := 18446744073709551616

abbrev Digit := Fin 10

namespace Digit

def zero : Digit := ⟨0, by decide⟩

def char (d : Digit) : Char := Char.ofNat (48 + d.val)

def ofChar? (c : Char) : Option Digit :=
  if h : 48 ≤ c.toNat ∧ c.toNat < 58 then some ⟨c.toNat - 48, by omega⟩ else none

theorem ofChar?_char (d : Digit) : ofChar? d.char = some d := by
  revert d
  decide

def ofNat (n : Nat) : List Digit :=
  go n []
where
  go (n : Nat) (tail : List Digit) : List Digit :=
    let digits := ⟨n % 10, Nat.mod_lt n (by decide)⟩ :: tail
    if h : n < 10 then digits else go (n / 10) digits
  termination_by n
  decreasing_by omega

def toNat (ds : List Digit) : Nat := ds.foldl (fun n d => 10 * n + d.val) 0

end Digit

structure Literal where
  negative : Bool
  whole : List Digit
  /-- The digits after the point; without any there is no point. -/
  fraction : List Digit
  exponent : Option Int
deriving DecidableEq

namespace Literal

def ofNat (n : Nat) : Literal := ⟨false, Digit.ofNat n, [], none⟩

def ofInt (n : Int) : Literal := ⟨decide (n < 0), Digit.ofNat n.natAbs, [], none⟩

/-- The text of an exponent; `plus` asks for a sign before one that is not negative. -/
def exponentChars (plus : Bool) (e : Int) : List Char :=
  'e' :: (if e < 0 then ['-'] else if plus then ['+'] else []) ++
    (Digit.ofNat e.natAbs).map Digit.char

def chars (plus : Bool) (l : Literal) : List Char :=
  (if l.negative then ['-'] else []) ++ l.whole.map Digit.char ++
    (if l.fraction.isEmpty then [] else '.' :: l.fraction.map Digit.char) ++
    (match l.exponent with
      | none => []
      | some e => exponentChars plus e)

/-- The natural number that a literal without sign, point and exponent writes, where it fits in a
word. -/
def natural? (l : Literal) : Option Nat :=
  if l.negative = false ∧ l.fraction = [] ∧ l.exponent = none ∧
      Digit.toNat l.whole < wordBound then
    some (Digit.toNat l.whole)
  else none

end Literal

end MultibodyCost
