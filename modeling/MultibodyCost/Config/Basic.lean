import MultibodyCost.Sum.Basic

/-!
# Configurations of cost sums

A configuration describes a sum: named entries with a weight, an activation and a residual. Frames
are referred to by name and sizes may depend on the state, so a description becomes a sum only on
the states of a model; `Config.build` does that, entry by entry, and stops at the first that is
refused.
-/

namespace MultibodyCost

inductive ActivationConfig (α : Type) where
  | quadratic
  | weighted (weights : List α)
  | barrier (lower upper : List α) (beta : α)

inductive ResidualConfig (α : Type) where
  /-- The state at rest is the reference where none is given. -/
  | state (reference : Option (List α))
  /-- The zero control is the reference where none is given. -/
  | control (reference : Option (List α))
  | com (reference : Vec3 α)
  /-- The rotation need not be normalized. -/
  | placement (frame : String) (translation : Vec3 α) (rotation : Quaternion α)
  | translation (frame : String) (reference : Vec3 α)
  | velocity (frame : String) (linear angular : Vec3 α)

structure ConfigEntry (α : Type) where
  name : String
  weight : α
  activation : ActivationConfig α
  residual : ResidualConfig α

structure Config (α : Type) where
  nu : Option Nat
  entries : List (ConfigEntry α)

variable {α : Type}

def ResidualConfig.nr (s : Multibody α) (nu : Nat) : ResidualConfig α → Nat
  | state _ => s.ndx
  | control none => nu
  | control (some ref) => ref.length
  | com _ => 3
  | placement _ _ _ => 6
  | translation _ _ => 3
  | velocity _ _ _ => 6

def CostError.ofModel {β : Type} : Except (ModelError α) β → Except (CostError α) β
  | .ok x => .ok x
  | .error e => .error (.model e)

section Scalar

variable [Scalar α]

/-- The activation for residuals of dimension `nr`; only the quadratic one adapts to it. -/
def ActivationConfig.build (nr : Nat) : ActivationConfig α → Except (CostError α) (Activation α)
  | quadratic => .ok (.quadratic nr)
  | weighted ws => CostError.ofModel ((Weights.make ws.toArray).map .weighted)
  | barrier lower upper beta =>
    CostError.ofModel ((Bounds.make lower.toArray upper.toArray beta).map .barrier)

def frameNamed (s : Multibody α) (name : String) : Except (CostError α) Nat :=
  match s.model.frameId? name with
  | some id => .ok id
  | none => .error (.unknownFrame name)

end Scalar

variable [Elementary α]

/-- The rotation along a quaternion that is not too near zero. -/
def unitRotation (q : Quaternion α) : Except (CostError α) (Quaternion α) :=
  if 1e-9 < q.norm then .ok q.normalized else .error (.invalidRotation q)

def ResidualConfig.build (s : Multibody α) (nu : Nat) :
    ResidualConfig α → Except (CostError α) (Residual α)
  | state none => .ok (.state s.zero)
  | state (some ref) => .ok (.state ref.toArray)
  | control none => .ok (.control (Vec.zeros nu))
  | control (some ref) => do
    Dimension.check [⟨.controlReference, nu, ref.length⟩]
    return .control ref.toArray
  | com ref => .ok (.com ref)
  | placement frame t q => do
    let id ← frameNamed s frame
    let q ← unitRotation q
    return .placement id ⟨t, q⟩
  | translation frame ref => do
    let id ← frameNamed s frame
    return .translation id ref
  | velocity frame linear angular => do
    let id ← frameNamed s frame
    return .velocity id ⟨linear, angular⟩

def ConfigEntry.build (s : Multibody α) (nu : Nat) (e : ConfigEntry α) :
    Except (CostError α) (Cost α) := do
  let activation ← e.activation.build (e.residual.nr s nu)
  let residual ← e.residual.build s nu
  let cost ← ResidualCost.make s activation nu residual
  return .residual cost

namespace Config

def addEntries (sum : CostSum α) : List (ConfigEntry α) →
    Except (CostError α) (CostSum α) × List (Event α)
  | [] => (.ok sum, [])
  | e :: es =>
    match e.build sum.state sum.nu with
    | .error err => (.error err, [])
    | .ok cost =>
      let change := sum.add e.name cost e.weight
      match change.result with
      | .error err => (.error err, change.events)
      | .ok () =>
        let (result, events) := addEntries change.sum es
        (result, change.events ++ events)

/-- The sum that a configuration describes on the states of a model, and the events of building
it. -/
def build (c : Config α) (s : Multibody α) : Except (CostError α) (CostSum α) × List (Event α) :=
  let nu := c.nu.getD s.nv
  match addEntries (.empty s nu) c.entries with
  | (.ok sum, events) => (.ok sum, events ++ [.builtSum sum.items.length nu sum.nr])
  | (.error e, events) => (.error e, events)

end Config

end MultibodyCost
