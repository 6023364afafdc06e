import MultibodyCost.Cost.Basic
import MultibodyCost.Sum.Named

/-!
# Weighted sums of costs

A sum holds named costs with weights, in the order of their names, for one state and one control
dimension, and counts the dimensions of their residuals. Adding and removing items tells what was
done as events; a refused change leaves the sum as it was.
-/

namespace MultibodyCost

structure SumItem (α : Type) [Scalar α] where
  cost : Cost α
  weight : α

structure CostSum (α : Type) [Scalar α] where
  state : Multibody α
  items : Named (SumItem α)
  nu : Nat
  /-- The dimension of the stacked residual. -/
  nr : Nat

/-- What a change of a sum leaves behind: the sum, a result, and the events in order. -/
structure Change (α : Type) [Scalar α] (β : Type) where
  sum : CostSum α
  result : Except (CostError α) β
  events : List (Event α)

namespace CostSum

variable {α : Type} [Scalar α]

def empty (s : Multibody α) (nu : Nat) : CostSum α := ⟨s, [], nu, 0⟩

def addFault? (s : CostSum α) (name : String) (cost : Cost α) (weight : α) :
    Option (CostError α) :=
  if (s.items.find? name).isSome then some (.alreadyExists name)
  else if cost.nu ≠ s.nu then some (.controlDimension name s.nu cost.nu)
  else if !Scalar.isFinite weight || weight < 0 then some (.invalidWeight name weight)
  else none

def insertItem (s : CostSum α) (name : String) (cost : Cost α) (weight : α) : CostSum α :=
  { s with items := s.items.insert name ⟨cost, weight⟩, nr := s.nr + cost.nr }

/-- Adds a cost under a name that is not in use. Its control must be that of the sum, and its
weight finite and not negative. -/
def add (s : CostSum α) (name : String) (cost : Cost α) (weight : α) : Change α Unit :=
  match s.addFault? name cost weight with
  | some (.alreadyExists n) => ⟨s, .error (.alreadyExists n), [.itemExists name]⟩
  | some e => ⟨s, .error e, []⟩
  | none =>
    let added := s.insertItem name cost weight
    ⟨added, .ok (), (if weight ≤ 0 then [.zeroWeight name] else []) ++
      [.addedItem name weight cost.nr added.nr]⟩

/-- Removes the cost of a name, and gives it with its weight. -/
def remove (s : CostSum α) (name : String) : Change α (SumItem α) :=
  match s.items.find? name with
  | none => ⟨s, .error (.notFound name), [.itemMissing name]⟩
  | some item =>
    let removed := { s with items := s.items.erase name, nr := s.nr - item.cost.nr }
    ⟨removed, .ok item, [.removedItem name removed.nr]⟩

end CostSum

end MultibodyCost
