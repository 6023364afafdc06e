import MultibodyCost.Cost.Data
import MultibodyCost.Cost.Outcome
import MultibodyCost.Snapshot
import MultibodyCost.State.Multibody

/-!
# Residual costs

Six residuals on the state, the control and the kinematics of a multibody system, each with its
reference. A cost joins a residual to an activation and the dimension of the control; it is
accepted only if its reference fits the state and the activation fits the residual.

Evaluation has two phases: `evaluate` computes the residual and the cost, `differentiate` the
Jacobians and the derivatives of the cost. Both first compare the dimensions of the state, the
control, the snapshot and every buffer with those of the cost, and touch nothing if one differs. What
is read behind that may fail too, and then the data stays as it is by then.
-/

namespace MultibodyCost

variable {α : Type}

/-- What is measured, and against which reference. -/
inductive Residual (α : Type) where
  | state (reference : Vec α)
  | control (reference : Vec α)
  | com (reference : Vec3 α)
  /-- The motion that takes a placement of reference to that of a frame. -/
  | placement (frame : Nat) (reference : Placement α)
  | translation (frame : Nat) (reference : Vec3 α)
  | velocity (frame : Nat) (reference : Motion α)

namespace Residual

def nr (s : Multibody α) : Residual α → Nat
  | state _ => s.ndx
  | control ref => ref.size
  | com _ => 3
  | placement _ _ => 6
  | translation _ _ => 3
  | velocity _ _ => 6

/-- The dimension of the control where none is chosen. -/
def defaultNu (s : Multibody α) : Residual α → Nat
  | control ref => ref.size
  | _ => s.nv

def referenceFault? (s : Multibody α) : Residual α → Option (CostError α)
  | state ref => (Dimension.mismatch? [⟨.stateReference, s.nx, ref.size⟩]).map .dimension
  | control _ => none
  | com _ => none
  | placement id _ => frameFault? s id
  | translation id _ => frameFault? s id
  | velocity id _ => frameFault? s id
where
  frameFault? (s : Multibody α) (id : Nat) : Option (CostError α) :=
    if id < s.model.frames.length then none else some (.model (.unknownFrame id))

variable [Scalar α]

def fault? (s : Multibody α) (a : Activation α) (residual : Residual α) : Option (CostError α) :=
  match residual.referenceFault? s with
  | some e => some e
  | none =>
    if a.nr = residual.nr s then none else some (.activationDimension (residual.nr s) a.nr)

end Residual

/-- A residual with its activation, on the states of a model, for controls of dimension `nu`. The
residual of a control fixes that dimension. -/
structure ResidualCost (α : Type) [Scalar α] where
  state : Multibody α
  activation : Activation α
  nu : Nat
  residual : Residual α
  accepted : residual.fault? state activation = none
  nu_eq : ∀ ref, residual = .control ref → nu = ref.size

namespace ResidualCost

section Scalar

variable [Scalar α]

def make (s : Multibody α) (a : Activation α) (nu : Nat) (residual : Residual α) :
    Except (CostError α) (ResidualCost α) :=
  match h : residual.fault? s a with
  | some e => .error e
  | none =>
    let width : { n : Nat // ∀ ref, residual = .control ref → n = ref.size } :=
      match residual with
      | .control ref => ⟨ref.size, by rintro _ ⟨⟩; rfl⟩
      | .state _ => ⟨nu, nofun⟩
      | .com _ => ⟨nu, nofun⟩
      | .placement _ _ => ⟨nu, nofun⟩
      | .translation _ _ => ⟨nu, nofun⟩
      | .velocity _ _ => ⟨nu, nofun⟩
    .ok ⟨s, a, width.val, residual, h, width.property⟩

def quadratic (s : Multibody α) (residual : Residual α) : Except (CostError α) (ResidualCost α) :=
  make s (.quadratic (residual.nr s)) (residual.defaultNu s) residual

def nr (c : ResidualCost α) : Nat := c.activation.nr

def createData (c : ResidualCost α) : CostData α := .zeros c.state.ndx c.nu c.activation

end Scalar

end ResidualCost

structure Arguments (α : Type) where
  snapshot : Snapshot α
  x : Vec α
  u : Vec α

/-- The arguments at the end of a horizon, where the control is zero. -/
def Arguments.terminal [Scalar α] (snapshot : Snapshot α) (x : Vec α) (nu : Nat) : Arguments α :=
  ⟨snapshot, x, Vec.zeros nu⟩

/-- The dimensions that the arguments and the data of an evaluation must have. -/
def Arguments.dimensions (args : Arguments α) (s : Multibody α) (nr nu : Nat) (d : CostData α) :
    List Dimension :=
  [⟨.state, s.nx, args.x.size⟩, ⟨.control, nu, args.u.size⟩,
    ⟨.snapshotVelocity, s.nv, args.snapshot.nv⟩, ⟨.dataResidual, nr, d.r.size⟩,
    ⟨.dataActivation, nr, d.activation.gradient.size⟩, ⟨.dataStateJacobianRows, nr, d.rx.rows⟩,
    ⟨.dataStateJacobianCols, s.ndx, d.rx.cols⟩, ⟨.dataControlJacobianRows, nr, d.ru.rows⟩,
    ⟨.dataControlJacobianCols, nu, d.ru.cols⟩, ⟨.dataTangent, s.ndx, d.lx.size⟩,
    ⟨.dataControl, nu, d.lu.size⟩]

abbrev Evaluation (α : Type) : Type := Outcome (Fault α) (CostData α)

def Arguments.check (args : Arguments α) (s : Multibody α) (nr nu : Nat) (d : CostData α) :
    Except (Fault α) Unit :=
  match Dimension.mismatch? (args.dimensions s nr nu d) with
  | some m => .error (.refused (.dimension m))
  | none => .ok ()

def Fault.ofModel {β : Type} : Except (ModelError α) β → Except (Fault α) β
  | .ok x => .ok x
  | .error e => .error (.refused (.model e))

def Fault.ofShapes {β : Type} : Option β → Except (Fault α) β
  | some x => .ok x
  | none => .error .shapes

namespace CostData

variable [Scalar α]

def clearState (d : CostData α) : CostData α := { d with rx := .zeros d.rx.rows d.rx.cols }

def writeColumns (d : CostData α) (c n : Nat) (block : Mat α) : Evaluation α :=
  .reading d (Fault.ofShapes (d.rx.placeColumns? c n block)) fun rx => .done { d with rx := rx }

end CostData

namespace Residual

variable [Elementary α]

/-- The motion from a placement of reference to another. -/
def placementError (reference actual : Placement α) : Motion α :=
  (reference.inverse * actual).log

def value (s : Multibody α) (args : Arguments α) : Residual α → Except (Fault α) (Vec α)
  | state ref => Fault.ofModel (s.diff ref args.x)
  | control ref => .ok (args.u.sub ref)
  | com ref => .ok (args.snapshot.com - ref).toVec
  | placement id ref => do
    let f ← Fault.ofModel (args.snapshot.frame id)
    return (placementError ref f.placement).toVec
  | translation id ref => do
    let f ← Fault.ofModel (args.snapshot.frame id)
    return (f.placement.translation - ref).toVec
  | velocity id ref => do
    let f ← Fault.ofModel (args.snapshot.frame id)
    return (f.velocity - ref).toVec

/-- Writes the Jacobians of the residual. A residual that does not depend on the control leaves `ru`,
one that does not depend on the state leaves `rx`. -/
def linearize (s : Multibody α) (nu : Nat) (args : Arguments α) (d : CostData α) :
    Residual α → Evaluation α
  | state ref =>
    .reading d (Fault.ofModel (s.jdiff ref args.x .second)) fun j =>
    .done { d with rx := j.second }
  | control _ => .done { d with ru := .identity nu }
  | com _ => d.clearState.writeColumns 0 s.nv args.snapshot.comJacobian
  | placement id ref =>
    .reading d (Fault.ofModel (args.snapshot.frame id)) fun f =>
    let j := (Placement.inverseJacobian (placementError ref f.placement)).toMat
    d.clearState.writeColumns 0 s.nv (j.mul f.jacobian)
  | translation id _ =>
    .reading d (Fault.ofModel (args.snapshot.frame id)) fun f =>
    d.clearState.writeColumns 0 s.nv
      (f.placement.rotation.toMat3.toMat.mul (f.jacobian.topRows 3))
  | velocity id _ =>
    .reading d (Fault.ofModel (args.snapshot.frame id)) fun f =>
    (d.writeColumns 0 s.nv f.velocityByConfiguration).andThen fun d =>
    d.writeColumns s.nv s.nv f.velocityByVelocity

end Residual

namespace ResidualCost

variable [Elementary α]

def evaluate (c : ResidualCost α) (args : Arguments α) (d : CostData α) : Evaluation α :=
  .reading d (args.check c.state c.nr c.nu d) fun _ =>
  .reading d (c.residual.value c.state args) fun r =>
  .done (d.activate c.activation r)

/-- What comes before the Jacobians: with `recalc` the residual and the cost are computed, else they
are taken from the data, which is checked. -/
def start (c : ResidualCost α) (args : Arguments α) (recalc : Bool) (d : CostData α) : Evaluation α :=
  if recalc then c.evaluate args d
  else .reading d (args.check c.state c.nr c.nu d) fun _ => .done d

@[simp] theorem start_true (c : ResidualCost α) (args : Arguments α) (d : CostData α) :
    c.start args true d = c.evaluate args d := rfl

@[simp] theorem start_false (c : ResidualCost α) (args : Arguments α) (d : CostData α) :
    c.start args false d = .reading d (args.check c.state c.nr c.nu d) fun _ => .done d := rfl

def differentiate (c : ResidualCost α) (args : Arguments α) (recalc : Bool) (d : CostData α) :
    Evaluation α :=
  (c.start args recalc d).andThen fun d =>
  (c.residual.linearize c.state c.nu args d).andThen fun d =>
  .attempt d (Fault.ofShapes (d.assemble? c.activation))

end ResidualCost

end MultibodyCost
