/-!
# Scalars

Every numeric definition of this library is written once, over a scalar type given by its
operations: arithmetic, decimal literals and the order here, the elementary functions of geometry
in `Elementary`, the spacing of representable values in `Sampled`. Double precision is the
instance that runs; exact fields satisfy the same interface and are what laws are stated over.

Nothing here assumes a law. In particular comparisons are two independent tests, because a value
that is not a number satisfies neither an inequality nor its converse.
-/

namespace MultibodyCost

/-- Arithmetic, literals, order and a finiteness test. -/
class Scalar (α : Type) extends
    Zero α, One α, Add α, Sub α, Mul α, Div α, Neg α, OfScientific α, LT α, LE α where
  decLt : DecidableLT α
  decLe : DecidableLE α
  isFinite : α → Bool

-- A type with operations of its own is read with those; the interface gives them to all others.
attribute [instance (100)] Scalar.toZero Scalar.toOne Scalar.toAdd Scalar.toSub Scalar.toMul
  Scalar.toDiv Scalar.toNeg Scalar.toOfScientific Scalar.toLT Scalar.toLE

instance (priority := 100) Scalar.decidableLt {α : Type} [Scalar α] (a b : α) :
    Decidable (a < b) := Scalar.decLt a b

instance (priority := 100) Scalar.decidableLe {α : Type} [Scalar α] (a b : α) :
    Decidable (a ≤ b) := Scalar.decLe a b

/-- A scalar type with the functions that rotations need. -/
class Elementary (α : Type) extends Scalar α where
  sqrt : α → α
  sin : α → α
  cos : α → α
  /-- The angle of the point with second coordinate `y` and first coordinate `x`. -/
  atan2 : (y x : α) → α
  pi : α

/-- A scalar type from which values are drawn at random. -/
class Sampled (α : Type) extends Elementary α where
  /-- The greatest representable value under a positive one; the value itself where there are no
  gaps between values. -/
  below : α → α

namespace Scalar

variable {α : Type} [Scalar α]

def ofNat (n : Nat) : α := OfScientific.ofScientific n false 0

/-- Absolute value; a value that is not a number stays what it is. -/
def abs (x : α) : α := if x < 0 then -x else x

/-- The term `f 0 + f 1 + … + f (n - 1)`, summed from the left. -/
def sum (n : Nat) (f : Nat → α) : α :=
  match n with
  | 0 => 0
  | n + 1 => sum n f + f n

@[simp] theorem sum_zero (f : Nat → α) : sum 0 f = 0 := rfl

@[simp] theorem sum_succ (n : Nat) (f : Nat → α) : sum (n + 1) f = sum n f + f n := rfl

theorem sum_congr {n : Nat} {f g : Nat → α} (h : ∀ i, i < n → f i = g i) :
    sum n f = sum n g := by
  induction n with
  | zero => rfl
  | succ n ih =>
    rw [sum_succ, sum_succ, ih fun i hi => h i (Nat.lt_succ_of_lt hi), h n (Nat.lt_succ_self n)]

end Scalar

instance : Scalar Float where
  decLt := inferInstance
  decLe := inferInstance
  isFinite := Float.isFinite

instance : Elementary Float where
  sqrt := Float.sqrt
  sin := Float.sin
  cos := Float.cos
  atan2 := Float.atan2
  pi := 3.141592653589793

/-- Positive doubles are ordered as their bit patterns are. -/
instance : Sampled Float where
  below x := Float.ofBits (x.toBits - 1)

end MultibodyCost
