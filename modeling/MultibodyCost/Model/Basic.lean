import MultibodyCost.Error
import MultibodyCost.Event

/-!
# Multibody models

A model lists the joints of a kinematic tree and the named frames attached to them. It fixes the
layout of configurations and velocities: each joint owns a slice of either, and the slices follow
one another in the order of the joints. There is no inertia and no geometry here.

Models grow by `addJoint` and `addFrame`, which refuse names in use, joints that are not there and
limits that are not finite and ordered. Adding a joint also adds a frame of its name.
-/

namespace MultibodyCost

/-- What a joint lets move, and so the manifold of its configurations. -/
inductive JointKind where
  | revolute
  | prismatic
  | spherical
  | freeFlyer
deriving DecidableEq

namespace JointKind

def nq : JointKind → Nat
  | revolute => 1
  | prismatic => 1
  | spherical => 4
  | freeFlyer => 7

def nv : JointKind → Nat
  | revolute => 1
  | prismatic => 1
  | spherical => 3
  | freeFlyer => 6

/-- The limits of the Euclidean coordinates where none are given. -/
def defaultLimits {α : Type} [Elementary α] : JointKind → α × α
  | revolute => (-Elementary.pi, Elementary.pi)
  | _ => (-1, 1)

/-- Where the real part of a joint's quaternion stands in its slice, if it has one. -/
def realPart? : JointKind → Option Nat
  | spherical => some 3
  | freeFlyer => some 6
  | _ => none

def title : JointKind → String
  | revolute => "Revolute"
  | prismatic => "Prismatic"
  | spherical => "Spherical"
  | freeFlyer => "FreeFlyer"

end JointKind

structure Joint (α : Type) where
  name : String
  kind : JointKind
  /-- The joint it hangs on; none where it is attached to the world. -/
  parent : Option Nat
  idxQ : Nat
  idxV : Nat
  lower : α
  upper : α

structure Frame where
  name : String
  parent : Nat
deriving DecidableEq

structure Model (α : Type) where
  joints : List (Joint α)
  frames : List Frame
  nq : Nat
  nv : Nat

namespace Model

variable {α : Type}

def empty : Model α := ⟨[], [], 0, 0⟩

def jointId? (m : Model α) (name : String) : Option Nat :=
  m.joints.findIdx? fun j => j.name = name

def frameId? (m : Model α) (name : String) : Option Nat :=
  m.frames.findIdx? fun f => f.name = name

/-- The model with a joint at the end of the layout, and a frame of its name. -/
def pushJoint (m : Model α) (name : String) (kind : JointKind) (parent : Option Nat)
    (lower upper : α) : Model α where
  joints := m.joints ++ [⟨name, kind, parent, m.nq, m.nv, lower, upper⟩]
  frames := m.frames ++ [⟨name, m.joints.length⟩]
  nq := m.nq + kind.nq
  nv := m.nv + kind.nv

def pushFrame (m : Model α) (name : String) (joint : Nat) : Model α :=
  { m with frames := m.frames ++ [⟨name, joint⟩] }

def indexName (i : Nat) : String := s!"#{i}"

/-- Refuses a joint index that is out of range. -/
def checkParent (m : Model α) : Option Nat → Except (ModelError α) Unit
  | none => .ok ()
  | some p => if p < m.joints.length then .ok () else .error (.unknownJoint (indexName p))

variable [Elementary α]

/-- Adds a joint with limits and gives the model with it and the joint's index. -/
def addJointWithLimits (m : Model α) (name : String) (kind : JointKind) (parent : Option Nat)
    (lower upper : α) : Except (ModelError α) (Model α × Nat) := do
  if (m.jointId? name).isSome || (m.frameId? name).isSome then
    .error (.duplicateName name)
  else
    m.checkParent parent
    if Scalar.isFinite lower && Scalar.isFinite upper && lower ≤ upper then
      return (m.pushJoint name kind parent lower upper, m.joints.length)
    else .error (.invalidLimits name lower upper)

def addJoint (m : Model α) (name : String) (kind : JointKind) (parent : Option Nat) :
    Except (ModelError α) (Model α × Nat) :=
  m.addJointWithLimits name kind parent kind.defaultLimits.1 kind.defaultLimits.2

omit [Elementary α] in
def addedEvent (m : Model α) (name : String) (kind : JointKind) : Event α :=
  .addedJoint name kind.title m.nq m.nv

omit [Elementary α] in
/-- Attaches a frame to a joint and gives the model with it and the frame's index. -/
def addFrame (m : Model α) (name : String) (joint : Nat) :
    Except (ModelError α) (Model α × Nat) :=
  if m.joints.length ≤ joint then .error (.unknownJoint (indexName joint))
  else if (m.frameId? name).isSome then .error (.duplicateName name)
  else .ok (m.pushFrame name joint, m.frames.length)

end Model

end MultibodyCost
