import MultibodyCost.Decimal.Literal

/-!
# Shortest decimals of doubles

A finite double is `m * 2 ^ q` with a whole `m`. The decimals that round to it fill an interval
around it, whose ends belong to it when `m` is even. `shortest` is the decimal in that interval with
the fewest digits and, of those, the nearest to the double. All of it is exact arithmetic on
natural numbers.
-/

namespace MultibodyCost

inductive Binary where
  | undefined
  | infinite (negative : Bool)
  /-- The number `m * 2 ^ q`, with its sign. -/
  | finite (negative : Bool) (m : Nat) (q : Int)

def unitBits : Nat := 4503599627370496

def Binary.ofFloat (x : Float) : Binary :=
  let bits := x.toBits.toNat
  let negative := decide (9223372036854775808 ≤ bits)
  let field : Nat := bits / unitBits % 2048
  let low := bits % unitBits
  if field = 2047 then if low = 0 then .infinite negative else .undefined
  else if field = 0 then .finite negative low (-1074)
  else .finite negative (unitBits + low) ((field : Int) - 1075)

/-- The positive decimal `d₁.d₂d₃… * 10 ^ exponent`. -/
structure Decimal where
  digits : List Digit
  exponent : Int

namespace Decimal

/-- The numerator and denominator of `n * 10 ^ g`. -/
def scaled (n : Nat) (g : Int) : Nat × Nat :=
  if 0 ≤ g then (n * Nat.pow 10 g.toNat, 1) else (n, Nat.pow 10 (-g).toNat)

/-- The greatest `k` with `10 ^ k ≤ num / den`, for a positive quotient. -/
def log10 (num den : Nat) : Int :=
  if den ≤ num then ((Digit.ofNat (num / den)).length : Int) - 1
  else
    let k := (Digit.ofNat (den / num)).length
    if den ≤ num * Nat.pow 10 (k - 1) then -((k : Int) - 1) else -(k : Int)

def ofScaled (n : Nat) (g : Int) : Decimal :=
  let ds := Digit.ofNat n
  ⟨(ds.reverse.dropWhile (· = .zero)).reverse, g + ds.length - 1⟩

/-- Of the two neighbours of `v / den` among the multiples of `10 ^ g` that lie in the interval
from `lo / den` to `hi / den`, the nearer; `closed` says that the ends belong to the interval, and
`up` where an exact tie goes, up or to the even neighbour. -/
def onGrid? (up closed : Bool) (lo v hi den : Nat) (g : Int) : Option Nat :=
  let (num, unit) := if 0 ≤ g then (1, Nat.pow 10 g.toNat) else (Nat.pow 10 (-g).toNat, 1)
  let step := den * unit
  let floor := v * num / step
  let inside (n : Nat) : Bool :=
    if closed then lo * num ≤ n * step ∧ n * step ≤ hi * num
    else lo * num < n * step ∧ n * step < hi * num
  let twice := 2 * (v * num % step)
  let upper := step < twice ∨ step = twice ∧ (up ∨ floor % 2 = 1)
  match inside floor, inside (floor + 1) with
  | true, true => some (if upper then floor + 1 else floor)
  | true, false => some floor
  | false, true => some (floor + 1)
  | false, false => none

/-- The shortest decimal that rounds to `m * 2 ^ q`, for a positive `m`. Seventeen digits always
suffice. -/
def shortest (up : Bool) (m : Nat) (q : Int) : Decimal :=
  let narrow := m = unitBits ∧ -1074 < q
  let (num, den) := if 2 ≤ q then (Nat.pow 2 (q - 2).toNat, 1) else (1, Nat.pow 2 (2 - q).toNat)
  let v := 4 * m * num
  let lo := (4 * m - if narrow then 1 else 2) * num
  let hi := (4 * m + 2) * num
  let k := log10 v den
  let grid (n : Nat) : Int := k - n
  match (List.range 17).findSome? fun n =>
      (onGrid? up (m % 2 = 0) lo v hi den (grid n)).map fun d => ofScaled d (grid n) with
  | some d => d
  | none => ofScaled (v / den) 0

end Decimal

end MultibodyCost
