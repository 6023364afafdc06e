import MultibodyCost.Cost.Residual

/-!
# Costs

A cost is a residual cost or a cost whose residual Jacobians are replaced by forward differences on
the state manifold, with a step `h`:

* column `i` of `rx` is `(r(x ⊕ h eᵢ, u) - r(x, u)) / h`,
* column `j` of `ru` is `(r(x, u + h eⱼ) - r(x, u)) / h`.

The derivatives of the cost are then assembled as for a residual cost. The residual and the cost of
such a cost are those of the cost it is made of, whatever the step.
-/

namespace MultibodyCost

inductive Cost (α : Type) [Scalar α] where
  | residual (c : ResidualCost α)
  /-- Differences of a cost. With an update, the snapshot is renewed at every perturbed state; else
  the snapshot of the call serves for all. -/
  | differences (of : Cost α) (update? : Option (KinematicsUpdate α)) (step : α)

namespace Cost

variable {α : Type}

section Scalar

variable [Scalar α]

def base : Cost α → ResidualCost α
  | residual c => c
  | differences c _ _ => c.base

def state (c : Cost α) : Multibody α := c.base.state

def activation (c : Cost α) : Activation α := c.base.activation

def nu (c : Cost α) : Nat := c.base.nu

def nr (c : Cost α) : Nat := c.activation.nr

def createData (c : Cost α) : CostData α := .zeros c.state.ndx c.nu c.activation

end Scalar

variable [Elementary α]

/-- The step where none is chosen: the root of twice the spacing of doubles at one. -/
def defaultStep : α := Elementary.sqrt (2.0 * (1 / 4503599627370496.0))

def evaluate (c : Cost α) (args : Arguments α) (d : CostData α) : Evaluation α :=
  match c with
  | residual c => c.evaluate args d
  | differences c _ _ => c.evaluate args d

/-- The arguments at a perturbed state, with the snapshot renewed if there is an update. -/
def perturbed (s : Multibody α) (update? : Option (KinematicsUpdate α)) (args : Arguments α)
    (x : Vec α) : Except (Fault α) (Arguments α) :=
  match update? with
  | none => .ok { args with x := x }
  | some update => do
    let (q, v) ← Fault.ofModel (s.split x)
    let snapshot ← Fault.ofModel (update s.model args.snapshot q v)
    return { args with snapshot := snapshot, x := x }

def residualAt (c : Cost α) (args : Arguments α) : Except (Fault α) (Vec α) :=
  match c.evaluate args c.createData with
  | .done d => .ok d.r
  | .stopped _ fault => .error fault

def quotient (h : α) (r r0 : Vec α) : Vec α := (r.sub r0).unscale h

def stateQuotient (c : Cost α) (update? : Option (KinematicsUpdate α)) (h : α) (args : Arguments α)
    (r0 : Vec α) (i : Nat) : Except (Fault α) (Vec α) := do
  let x ← Fault.ofModel (c.state.integrate args.x ((Vec.zeros c.state.ndx).put i h))
  let args ← perturbed c.state update? args x
  let r ← c.residualAt args
  return quotient h r r0

def controlQuotient (c : Cost α) (h : α) (args : Arguments α) (r0 : Vec α) (j : Nat) :
    Except (Fault α) (Vec α) := do
  let r ← c.residualAt { args with u := args.u.put j (args.u.entry j + h) }
  return quotient h r r0

def fillQuotients (c : Cost α) (update? : Option (KinematicsUpdate α)) (h : α)
    (args : Arguments α) (d : CostData α) : Evaluation α :=
  let r0 := d.r
  (Outcome.forEach (List.range c.state.ndx) d fun i d =>
    .attempt d ((stateQuotient c update? h args r0 i).map fun col =>
      { d with rx := d.rx.putColumn i col })).andThen fun d =>
  Outcome.forEach (List.range args.u.size) d fun j d =>
    .attempt d ((controlQuotient c h args r0 j).map fun col =>
      { d with ru := d.ru.putColumn j col })

/-- Computes the Jacobians of the residual and the derivatives of the cost; with `recalc` the
residual and the cost are computed first, else they are taken from the data. -/
def differentiate (c : Cost α) (args : Arguments α) (recalc : Bool) (d : CostData α) :
    Evaluation α :=
  match c with
  | residual c => c.differentiate args recalc d
  | differences c update? h =>
    match args.check c.state c.nr c.nu d with
    | .error fault => .stopped d fault
    | .ok () =>
      (if recalc then c.evaluate args d else .done d).andThen fun d =>
      (fillQuotients c update? h args d).andThen fun d =>
      .attempt d (Fault.ofShapes (d.assemble? c.activation))

end Cost

end MultibodyCost
