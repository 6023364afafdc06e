import MultibodyCost.Model.Basic

/-!
# A humanoid

A floating base with two legs of six joints, a chest of two, and on the chest two arms of seven
joints and a head of two: 31 joints, 37 configuration and 36 velocity coordinates.
-/

namespace MultibodyCost.Model

variable {α : Type} [Elementary α]

/-- Adds `length` revolute joints one after another, numbered from `k`, and gives the last. -/
def addChain (m : Model α) (stem : String) (parent k : Nat) :
    (length : Nat) → Except (ModelError α) (Model α × Nat)
  | 0 => .ok (m, parent)
  | length + 1 => do
    let (m, last) ← m.addJoint (stem ++ s!"{k}_joint") .revolute (some parent)
    m.addChain stem last (k + 1) length

def humanoid : Except (ModelError α) (Model α) := do
  let (m, root) ← (empty : Model α).addJoint "root_joint" .freeFlyer none
  let (m, _) ← m.addChain "lleg" root 1 6
  let (m, _) ← m.addChain "rleg" root 1 6
  let (m, chest) ← m.addChain "chest" root 1 2
  let (m, _) ← m.addChain "larm" chest 1 7
  let (m, _) ← m.addChain "rarm" chest 1 7
  let (m, _) ← m.addChain "head" chest 1 2
  return m

end MultibodyCost.Model
