import MultibodyCost.Decimal.Spelling

/-!
# Events

Operations that change a model or a sum tell what they did, and what they refused where that is
worth a warning, as a list of events in order. An event is data; `Event.line` is its text.
-/

namespace MultibodyCost

inductive Event (α : Type) where
  /-- A joint was added; the dimensions are those of the model with it. -/
  | addedJoint (joint kind : String) (nq nv : Nat)
  | addedItem (cost : String) (weight : α) (nr totalNr : Nat)
  | removedItem (cost : String) (totalNr : Nat)
  | itemExists (cost : String)
  | itemMissing (cost : String)
  | zeroWeight (cost : String)
  | builtSum (costs nu nr : Nat)

namespace Event

/-- The text of an event: level, message, then the fields. -/
def line : Event Float → String
  | .addedJoint joint kind nq nv =>
    "DEBUG message=added joint joint=" ++ joint ++ " kind=" ++ kind ++ s!" nq={nq} nv={nv}"
  | .addedItem cost weight nr totalNr =>
    "DEBUG message=added cost item cost=" ++ cost ++ " weight=" ++ Spelling.log.text weight ++
      s!" nr={nr} total_nr={totalNr}"
  | .removedItem cost totalNr =>
    "DEBUG message=removed cost item cost=" ++ cost ++ s!" total_nr={totalNr}"
  | .itemExists cost => "WARN message=cost item already exists cost=" ++ cost
  | .itemMissing cost => "WARN message=cost item does not exist cost=" ++ cost
  | .zeroWeight cost => "WARN message=cost item added with zero weight cost=" ++ cost
  | .builtSum costs nu nr =>
    s!"DEBUG message=built cost sum from configuration costs={costs} nu={nu} nr={nr}"

end Event

end MultibodyCost
