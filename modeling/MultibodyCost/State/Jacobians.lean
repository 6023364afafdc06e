import MultibodyCost.Linear.Mat

/-!
# Jacobians of operations with two arguments

A caller asks for the derivative by the first argument, by the second, or for both; a block that
was not asked for is left without rows and columns.
-/

namespace MultibodyCost

inductive Wanted where
  | both
  | first
  | second
deriving DecidableEq

namespace Wanted

def wantsFirst : Wanted → Bool
  | both => true
  | first => true
  | second => false

def wantsSecond : Wanted → Bool
  | both => true
  | first => false
  | second => true

end Wanted

structure Jacobians (α : Type) where
  first : Mat α
  second : Mat α

def Jacobians.select {α : Type} [Scalar α] (wanted : Wanted) (first second : Mat α) :
    Jacobians α where
  first := if wanted.wantsFirst then first else .zeros 0 0
  second := if wanted.wantsSecond then second else .zeros 0 0

end MultibodyCost
