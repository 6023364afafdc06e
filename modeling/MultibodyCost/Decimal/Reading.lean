import MultibodyCost.Decimal.Spelling
import MultibodyCost.Scalar

/-!
# Reading doubles

The double of a literal is found in two steps that each round. First the digits are gathered into
a significand that fits in a word: digits before the point that no longer fit only count as powers of
ten, and digits after the point that no longer fit are dropped. Then the significand, as a double,
is multiplied or divided by one power of ten. A product beyond the range of doubles has no value.

`NumberText` is what a scalar type needs to be read from and written to JSON.
-/

namespace MultibodyCost

/-- Scalars that have literals: the literal of each finite value, and the value of each literal in
range. -/
class NumberText (α : Type) where
  literal? : α → Option Literal
  value? : Literal → Option α

namespace Literal

/-- Appends digits to a significand for as long as it fits in a word. -/
def gather (n : Nat) : List Digit → Nat × List Digit
  | [] => (n, [])
  | d :: ds => if 10 * n + d.val < wordBound then gather (10 * n + d.val) ds else (n, d :: ds)

def significand (l : Literal) : Nat × Int :=
  let (n, uncounted) := gather 0 l.whole
  let (m, dropped) := gather n l.fraction
  (m, uncounted.length - (l.fraction.length - dropped.length) + l.exponent.getD 0)

def powerOfTen (n : Nat) : Float := Float.ofScientific 1 false n

/-- Multiplies by a power of ten; `none` beyond the range of doubles. Divisors are at most
`10 ^ 308`, so a lower exponent takes more than one division, after which little is left: `fuel`
divisions by the greatest divisor leave zero. -/
def scaleByTen (fuel : Nat) (x : Float) (e : Int) : Option Float :=
  if 308 < e then if x == 0.0 then some x else none
  else if 0 ≤ e then
    let y := x * powerOfTen e.toNat
    if y.isInf then none else some y
  else if -308 ≤ e then some (x / powerOfTen (-e).toNat)
  else
    match fuel with
    | 0 => some 0.0
    | fuel + 1 => if x == 0.0 then some x else scaleByTen fuel (x / powerOfTen 308) (e + 308)

def toFloat? (l : Literal) : Option Float :=
  let (m, e) := l.significand
  (scaleByTen 4 (Float.ofScientific m false 0) e).map fun x => if l.negative then -x else x

/-- The literal denotes a number in the range of doubles. -/
def inRange (l : Literal) : Bool := l.toFloat?.isSome

end Literal

instance : NumberText Float where
  literal? := Spelling.json.literal?
  value? := Literal.toFloat?

end MultibodyCost
