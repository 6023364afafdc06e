import MultibodyCost.Activation

/-!
# Data of a cost

Values and derivatives that an evaluation leaves behind, with the assembly of the derivatives of the
cost from those of the residual. The assembly uses the Gauss-Newton approximation: the Hessian of
the cost is that of the activation between two residual Jacobians.
-/

namespace MultibodyCost

structure CostData (α : Type) where
  activation : ActivationData α
  cost : α
  r : Vec α
  /-- The Jacobian of the residual by the tangent of the state. -/
  rx : Mat α
  ru : Mat α
  /-- The gradient of the cost by the tangent of the state. -/
  lx : Vec α
  lu : Vec α
  lxx : Mat α
  lxu : Mat α
  luu : Mat α

namespace CostData

variable {α : Type} [Scalar α]

def zeros (ndx nu : Nat) (a : Activation α) : CostData α where
  activation := a.createData
  cost := 0
  r := Vec.zeros a.nr
  rx := Mat.zeros a.nr ndx
  ru := Mat.zeros a.nr nu
  lx := Vec.zeros ndx
  lu := Vec.zeros nu
  lxx := Mat.zeros ndx ndx
  lxu := Mat.zeros ndx nu
  luu := Mat.zeros nu nu

def activate (d : CostData α) (a : Activation α) (r : Vec α) : CostData α :=
  let activation := a.evaluate d.activation r
  { d with activation := activation, r := r, cost := activation.value }

def Fits (d : CostData α) (activation : ActivationData α) : Prop :=
  activation.hessian.cols = d.rx.rows ∧ activation.hessian.cols = d.ru.rows ∧
    activation.hessian.rows = d.rx.rows ∧ activation.gradient.size = d.rx.rows

instance (d : CostData α) (activation : ActivationData α) : Decidable (d.Fits activation) :=
  inferInstanceAs (Decidable (_ ∧ _))

/-- Assembles the derivatives from the residual and its Jacobians; `none` where the shapes of the
factors do not fit. The value of the activation is not renewed. -/
def assemble? (d : CostData α) (a : Activation α) : Option (CostData α) :=
  let act := a.differentiate d.activation d.r false
  if d.Fits act then
    let hx := act.hessian.mul d.rx
    let hu := act.hessian.mul d.ru
    some { d with
      activation := act
      lx := d.rx.trMulVec act.gradient
      lu := d.ru.trMulVec act.gradient
      lxx := d.rx.trMul hx
      lxu := d.rx.trMul hu
      luu := d.ru.trMul hu }
  else none

end CostData

end MultibodyCost
