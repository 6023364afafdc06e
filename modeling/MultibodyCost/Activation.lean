import MultibodyCost.Error
import MultibodyCost.Linear.Mat

/-!
# Activations

An activation turns a residual `r` into a scalar `a(r)` with a gradient and a Hessian. There are
three: half the squared norm, half the weighted squared norm, and a barrier that is zero inside a
box and half the squared distance outside.

Evaluation writes into data that it may not rewrite completely: the Hessian of the two quadratic
activations is constant and set only where the data is created.

Weights and bounds are accepted once, when they are built; the values of `Weights` and `Bounds` are
the accepted ones.
-/

namespace MultibodyCost

variable {α : Type} [Scalar α]

def Weights.fault? (values : Vec α) : Option α :=
  values.find? fun w => !(Scalar.isFinite w && decide ((0 : α) ≤ w))

structure Weights (α : Type) [Scalar α] where
  values : Vec α
  accepted : Weights.fault? values = none

def Weights.make (values : Vec α) : Except (ModelError α) (Weights α) :=
  match h : Weights.fault? values with
  | some w => .error (.invalidWeight w)
  | none => .ok ⟨values, h⟩

/-- Why bounds are refused: their lengths differ, one is above the other or incomparable, or the
factor is not in `(0, 1]`. -/
def Bounds.fault? (lower upper : Vec α) (beta : α) : Option (BoundsFault α) :=
  if lower.size ≠ upper.size then some (.lengths lower.size upper.size)
  else if (List.range lower.size).any fun i => !decide (lower.entry i ≤ upper.entry i) then
    some .crossed
  else if 0 < beta ∧ beta ≤ 1 then none
  else some (.factor beta)

/-- A box given by its lower and upper bounds and a factor by which it is narrowed. -/
structure Bounds (α : Type) [Scalar α] where
  givenLower : Vec α
  givenUpper : Vec α
  beta : α
  accepted : Bounds.fault? givenLower givenUpper beta = none

namespace Bounds

def make (lower upper : Vec α) (beta : α) : Except (ModelError α) (Bounds α) :=
  match h : fault? lower upper beta with
  | some fault => .error (.invalidBounds fault)
  | none => .ok ⟨lower, upper, beta, h⟩

/-- The interval from `l` to `u` narrowed about its midpoint; an interval with an infinite end is
kept. -/
def narrow (beta l u : α) : α × α :=
  if Scalar.isFinite l && Scalar.isFinite u then
    let m := 0.5 * (l + u)
    let d := 0.5 * (u - l)
    (m - beta * d, m + beta * d)
  else (l, u)

def effective (b : Bounds α) (i : Nat) : α × α :=
  narrow b.beta (b.givenLower.entry i) (b.givenUpper.entry i)

def size (b : Bounds α) : Nat := b.givenLower.size

def lower (b : Bounds α) : Vec α := Vec.ofFn b.size fun i => (b.effective i).1

def upper (b : Bounds α) : Vec α := Vec.ofFn b.size fun i => (b.effective i).2

/-- How far `x` is above the interval or, negative, below it; zero inside. -/
def excess (bounds : α × α) (x : α) : α :=
  if bounds.2 < x then x - bounds.2
  else if x < bounds.1 then x - bounds.1
  else 0

/-- The excess of every component of a residual over the narrowed box. -/
def violation (b : Bounds α) (r : Vec α) : Vec α :=
  Vec.ofFn r.size fun i => excess (b.effective i) (r.entry i)

/-- The component lies on a bound of the narrowed box or outside. -/
def reaches (b : Bounds α) (r : Vec α) (i : Nat) : Bool :=
  r.entry i ≤ (b.effective i).1 || (b.effective i).2 ≤ r.entry i

end Bounds

inductive Activation (α : Type) [Scalar α] where
  | quadratic (nr : Nat)
  | weighted (weights : Weights α)
  | barrier (bounds : Bounds α)

structure ActivationData (α : Type) where
  value : α
  gradient : Vec α
  hessian : Mat α

def ActivationData.zeros (nr : Nat) : ActivationData α := ⟨0, Vec.zeros nr, Mat.zeros nr nr⟩

namespace Activation

def nr : Activation α → Nat
  | quadratic n => n
  | weighted w => w.values.size
  | barrier b => b.size

def createData : Activation α → ActivationData α
  | quadratic n => { ActivationData.zeros n with hessian := Mat.identity n }
  | weighted w => { ActivationData.zeros w.values.size with hessian := Mat.diagonal w.values }
  | barrier b => ActivationData.zeros b.size

def value (a : Activation α) (r : Vec α) : α :=
  match a with
  | quadratic _ => 0.5 * r.normSq
  | weighted w => 0.5 * r.dot (w.values.mulEntries r)
  | barrier b => 0.5 * (b.violation r).normSq

def gradient (a : Activation α) (r : Vec α) : Vec α :=
  match a with
  | quadratic _ => r
  | weighted w => w.values.mulEntries r
  | barrier b => b.violation r

def evaluate (a : Activation α) (d : ActivationData α) (r : Vec α) : ActivationData α :=
  { d with value := a.value r }

/-- The Hessian that `differentiate` leaves where `old` was. -/
def hessian (a : Activation α) (old : Mat α) (r : Vec α) : Mat α :=
  match a with
  | quadratic _ => old
  | weighted _ => old
  | barrier b =>
    Mat.ofFn old.rows old.cols fun i j => if i = j ∧ i < r.size ∧ b.reaches r i then 1 else 0

def differentiate (a : Activation α) (d : ActivationData α) (r : Vec α) (recalc : Bool) :
    ActivationData α where
  value := if recalc then a.value r else d.value
  gradient := a.gradient r
  hessian := a.hessian d.hessian r

end Activation

end MultibodyCost
