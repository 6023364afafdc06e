import MultibodyCost.Decimal.Shortest

/-!
# Spellings of doubles

Three texts write doubles by their shortest digits and differ in the rest: where positional
notation ends, whether a whole number keeps its point, and how an exponent is signed. A `Spelling`
records these decisions; the three spellings of this library are its values.
-/

namespace MultibodyCost

structure Spelling where
  /-- Least and greatest decimal exponent written without an exponent, or no limits. -/
  positional : Option (Int × Int)
  keepsPoint : Bool
  plus : Bool
  /-- An exact tie between two shortest decimals goes up, not to the even one. -/
  tieUp : Bool

namespace Spelling

def json : Spelling := ⟨some (-5, 15), true, true, false⟩

/-- Doubles in messages to a reader: positional, whatever the size. -/
def message : Spelling := ⟨none, false, false, true⟩

/-- Doubles in event logs and in listings of components. -/
def log : Spelling := ⟨some (-4, 15), true, false, true⟩

def positionalLiteral (s : Spelling) (negative : Bool) (d : Decimal) : Literal :=
  let point := (if s.keepsPoint then [.zero] else [] : List Digit)
  if 0 ≤ d.exponent then
    let n := d.exponent.toNat + 1
    let whole := d.digits.take n ++ List.replicate (n - d.digits.length) .zero
    let fraction := d.digits.drop n
    ⟨negative, whole, if fraction.isEmpty then point else fraction, none⟩
  else
    ⟨negative, [.zero], List.replicate ((-d.exponent).toNat - 1) .zero ++ d.digits, none⟩

def literal (s : Spelling) (negative : Bool) (d : Decimal) : Literal :=
  match s.positional with
  | none => s.positionalLiteral negative d
  | some (least, greatest) =>
    if least ≤ d.exponent ∧ d.exponent ≤ greatest then s.positionalLiteral negative d
    else ⟨negative, d.digits.take 1, d.digits.drop 1, some d.exponent⟩

def literal? (s : Spelling) (x : Float) : Option Literal :=
  match Binary.ofFloat x with
  | .finite negative 0 _ => some ⟨negative, [.zero], if s.keepsPoint then [.zero] else [], none⟩
  | .finite negative m q => some (s.literal negative (Decimal.shortest s.tieUp m q))
  | _ => none

def text (s : Spelling) (x : Float) : String :=
  match s.literal? x with
  | some l => String.ofList (l.chars s.plus)
  | none =>
    match Binary.ofFloat x with
    | .infinite true => "-inf"
    | .infinite false => "inf"
    | _ => "NaN"

end Spelling

end MultibodyCost
