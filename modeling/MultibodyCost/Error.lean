import MultibodyCost.Decimal.Spelling
import MultibodyCost.Geometry.Quaternion
import MultibodyCost.Quantity

/-!
# Errors

Two kinds of errors, each a cause with the values it is about: `ModelError` for models, states,
snapshots and activations, and `CostError` for costs, sums and configurations, which may pass on a
model error. Messages are a function of the cause, with scalars written by their shortest digits.

`Fault` is what stops an evaluation: an error that is reported to the caller, or matrices whose
shapes do not fit where no check has excluded it.
-/

namespace MultibodyCost

inductive BoundsFault (α : Type) where
  | lengths (lower upper : Nat)
  | crossed
  | factor (beta : α)

inductive ModelError (α : Type) where
  | dimension (d : Dimension)
  | unknownJoint (name : String)
  | unknownFrame (id : Nat)
  | duplicateName (name : String)
  | invalidLimits (joint : String) (lower upper : α)
  | invalidBounds (fault : BoundsFault α)
  | invalidWeight (weight : α)

inductive DataFault where
  | items (held summed : Nat)
  | residual (held summed : Nat)

inductive CostError (α : Type) where
  | model (e : ModelError α)
  | dimension (d : Dimension)
  | activationDimension (expected got : Nat)
  | unknownFrame (name : String)
  | alreadyExists (name : String)
  | notFound (name : String)
  | controlDimension (name : String) (expected got : Nat)
  | invalidWeight (name : String) (weight : α)
  | dataMismatch (fault : DataFault)
  | invalidRotation (rotation : Quaternion α)

/-- What stops an evaluation. -/
inductive Fault (α : Type) where
  | refused (e : CostError α)
  /-- A block is to be copied, added or multiplied where its shape does not fit. -/
  | shapes

def BoundsFault.words : BoundsFault Float → String
  | .lengths lower upper =>
    s!"lower bound has {lower} components, upper bound has {upper}"
  | .crossed => "lower bound exceeds upper bound"
  | .factor beta => "beta " ++ Spelling.message.text beta ++ " must lie in (0, 1]"

def ModelError.message : ModelError Float → String
  | .dimension d => d.words
  | .unknownJoint name => "Unknown joint: " ++ name
  | .unknownFrame id => s!"Unknown frame id {id}"
  | .duplicateName name => "Name already used in model: " ++ name
  | .invalidLimits joint lower upper =>
    "Invalid limits for joint " ++ joint ++ ": [" ++ Spelling.message.text lower ++ ", " ++
      Spelling.message.text upper ++ "] must be finite and ordered"
  | .invalidBounds fault => "Invalid activation bounds: " ++ fault.words
  | .invalidWeight weight =>
    "Invalid activation weights: weight " ++ Spelling.message.text weight ++
      " must be finite and non-negative"

def DataFault.words : DataFault → String
  | .items held summed => s!"data holds {held} items, the sum holds {summed}"
  | .residual held summed => s!"data residual has dimension {held}, the sum has nr = {summed}"

def Quaternion.words (q : Quaternion Float) : String :=
  "[" ++ Spelling.log.text q.x ++ ", " ++ Spelling.log.text q.y ++ ", " ++
    Spelling.log.text q.z ++ ", " ++ Spelling.log.text q.w ++ "]"

def CostError.message : CostError Float → String
  | .model e => e.message
  | .dimension d => d.words
  | .activationDimension expected got =>
    s!"Activation has nr = {got}, but the residual has dimension {expected}"
  | .unknownFrame name => "Unknown frame: " ++ name
  | .alreadyExists name => "Cost item '" ++ name ++ "' already exists"
  | .notFound name => "Cost item '" ++ name ++ "' does not exist"
  | .controlDimension name expected got =>
    "Cost item '" ++ name ++ s!"' has nu = {got}, but the sum expects {expected}"
  | .invalidWeight name weight =>
    "Invalid weight " ++ Spelling.message.text weight ++ " for cost item '" ++ name ++ "'"
  | .dataMismatch fault => "Cost data does not match the model: " ++ fault.words
  | .invalidRotation q =>
    "Invalid cost configuration: rotation " ++ q.words ++ " is not a valid quaternion"

def Dimension.check {α : Type} (ds : List Dimension) : Except (CostError α) Unit :=
  match Dimension.mismatch? ds with
  | some d => .error (.dimension d)
  | none => .ok ()

def ModelError.check {α : Type} (ds : List Dimension) : Except (ModelError α) Unit :=
  match Dimension.mismatch? ds with
  | some d => .error (.dimension d)
  | none => .ok ()

end MultibodyCost
