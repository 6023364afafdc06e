/-!
# Quantities with a dimension

The vectors, matrices and buffers whose dimensions are checked, and the words for them in messages.
-/

namespace MultibodyCost

inductive Quantity where
  | state
  | tangent
  | control
  | stateReference
  | controlReference
  | frameJacobian
  | frameVelocityByConfiguration
  | frameVelocityByVelocity
  | comJacobianRows
  | comJacobianCols
  | snapshotVelocity
  | dataResidual
  | dataActivation
  | dataStateJacobianRows
  | dataStateJacobianCols
  | dataControlJacobianRows
  | dataControlJacobianCols
  | dataTangent
  | dataControl
deriving DecidableEq

def Quantity.words : Quantity → String
  | .state => "x"
  | .tangent => "dx"
  | .control => "u"
  | .stateReference => "xref"
  | .controlReference => "control reference"
  | .frameJacobian => "frame jacobian"
  | .frameVelocityByConfiguration => "frame dv_dq"
  | .frameVelocityByVelocity => "frame dv_dv"
  | .comJacobianRows => "com jacobian rows"
  | .comJacobianCols => "com jacobian cols"
  | .snapshotVelocity => "kinematic data nv"
  | .dataResidual => "cost data residual"
  | .dataActivation => "cost data activation"
  | .dataStateJacobianRows => "cost data rx rows"
  | .dataStateJacobianCols => "cost data rx cols"
  | .dataControlJacobianRows => "cost data ru rows"
  | .dataControlJacobianCols => "cost data ru cols"
  | .dataTangent => "cost data ndx"
  | .dataControl => "cost data nu"

structure Dimension where
  quantity : Quantity
  expected : Nat
  got : Nat
deriving DecidableEq

namespace Dimension

def words (d : Dimension) : String :=
  s!"Invalid dimension for {d.quantity.words}: expected {d.expected}, got {d.got}"

def mismatch? : List Dimension → Option Dimension
  | [] => none
  | d :: ds => if d.expected = d.got then mismatch? ds else some d

theorem mismatch?_eq_none_iff {ds : List Dimension} :
    mismatch? ds = none ↔ ∀ d ∈ ds, d.expected = d.got := by
  induction ds with
  | nil => simp [mismatch?]
  | cons d ds ih =>
    by_cases h : d.expected = d.got
    · simp [mismatch?, h, ih]
    · simp [mismatch?, h]

end Dimension

end MultibodyCost
