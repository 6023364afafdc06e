import MultibodyCost.Sum.Basic

/-!
# Evaluation of sums

The data of a sum holds the data of every item and the totals. The total cost and its derivatives
are the weighted sums of those of the items; the residuals and their Jacobians are stacked in the
order of the names, each scaled by the root of its weight, so that half the squared norm of the
stacked residual is the total of quadratic costs.

Items are evaluated in order, each in its own data. A fault stops the evaluation where it arises and
leaves what was done before it.
-/

namespace MultibodyCost

structure Totals (α : Type) where
  cost : α
  r : Vec α
  rx : Mat α
  ru : Mat α
  lx : Vec α
  lu : Vec α
  lxx : Mat α
  lxu : Mat α
  luu : Mat α

structure SumData (α : Type) where
  items : Named (CostData α)
  totals : Totals α

variable {α : Type}

namespace Totals

section Scalar

variable [Scalar α]

def zeros (nr ndx nu : Nat) : Totals α where
  cost := 0
  r := Vec.zeros nr
  rx := Mat.zeros nr ndx
  ru := Mat.zeros nr nu
  lx := Vec.zeros ndx
  lu := Vec.zeros nu
  lxx := Mat.zeros ndx ndx
  lxu := Mat.zeros ndx nu
  luu := Mat.zeros nu nu

def clear (t : Totals α) : Totals α :=
  { t with
    lx := Vec.zeros t.lx.size
    lu := Vec.zeros t.lu.size
    lxx := Mat.zeros t.lxx.rows t.lxx.cols
    lxu := Mat.zeros t.lxu.rows t.lxu.cols
    luu := Mat.zeros t.luu.rows t.luu.cols }

end Scalar

variable [Elementary α]

/-- Adds the cost of an item and stacks its residual from row `row` on; `none` where it does not
fit. -/
def addValue? (t : Totals α) (row : Nat) (weight : α) (d : CostData α) : Option (Totals α) := do
  let r ← t.r.place? row (d.r.scale (Elementary.sqrt weight))
  return { t with cost := t.cost + weight * d.cost, r := r }

def addDerivatives? (t : Totals α) (row : Nat) (weight : α) (d : CostData α) :
    Option (Totals α) := do
  let root := Elementary.sqrt weight
  let rx ← t.rx.placeRows? row (d.rx.scale root)
  let ru ← t.ru.placeRows? row (d.ru.scale root)
  let lx ← t.lx.add? (d.lx.scale weight)
  let lu ← t.lu.add? (d.lu.scale weight)
  let lxx ← t.lxx.add? (d.lxx.scale weight)
  let lxu ← t.lxu.add? (d.lxu.scale weight)
  let luu ← t.luu.add? (d.luu.scale weight)
  return { t with rx := rx, ru := ru, lx := lx, lu := lu, lxx := lxx, lxu := lxu, luu := luu }

end Totals

namespace CostSum

section Scalar

variable [Scalar α]

def createData (s : CostSum α) : SumData α where
  items := s.items.map fun (name, item) => (name, item.cost.createData)
  totals := .zeros s.nr s.state.ndx s.nu

/-- Why data or arguments do not belong to a sum: the lengths of the state and the control, the
names of the items, or the dimension of the stacked residual. -/
def fault? (s : CostSum α) (args : Arguments α) (d : SumData α) : Option (CostError α) :=
  match Dimension.mismatch? [⟨.state, s.state.nx, args.x.size⟩, ⟨.control, s.nu, args.u.size⟩] with
  | some m => some (.dimension m)
  | none =>
    if d.items.names ≠ s.items.names then
      some (.dataMismatch (.items d.items.length s.items.length))
    else if d.totals.r.size ≠ s.nr then
      some (.dataMismatch (.residual d.totals.r.size s.nr))
    else none

def checked (s : CostSum α) (args : Arguments α) (d : SumData α)
    (work : Outcome (Fault α) (SumData α)) : Outcome (Fault α) (SumData α) :=
  match s.fault? args d with
  | some e => .stopped d (.refused e)
  | none => work

end Scalar

/-- One pass over the items of a sum: each is evaluated by `evaluate` in its own data and then
entered into the totals by `enter`, at the row where its part of the stack begins. -/
def pass [Scalar α] (evaluate : Cost α → CostData α → Outcome (Fault α) (CostData α))
    (enter : Totals α → Nat → α → CostData α → Option (Totals α)) :
    List (SumItem α × String × CostData α) → (row : Nat) → Totals α →
      Outcome (Fault α) (SumData α)
  | [], _, t => .done ⟨[], t⟩
  | (item, name, d) :: rest, row, t =>
    match evaluate item.cost d with
    | .stopped d fault => .stopped ⟨(name, d) :: rest.map Prod.snd, t⟩ fault
    | .done d =>
      match enter t row item.weight d with
      | none => .stopped ⟨(name, d) :: rest.map Prod.snd, t⟩ .shapes
      | some t =>
        (pass evaluate enter rest (row + item.cost.nr) t).map fun done =>
          { done with items := (name, d) :: done.items }

variable [Elementary α]

def zipData (s : CostSum α) (d : SumData α) : List (SumItem α × String × CostData α) :=
  (s.items.map Prod.snd).zip d.items

def evaluate (s : CostSum α) (args : Arguments α) (d : SumData α) :
    Outcome (Fault α) (SumData α) :=
  s.checked args d <|
    pass (fun c => c.evaluate args) Totals.addValue? (s.zipData d) 0 { d.totals with cost := 0 }

/-- Computes the stacked Jacobians and the summed derivatives; with `recalc` the cost and the
residual are computed first. -/
def differentiate (s : CostSum α) (args : Arguments α) (recalc : Bool) (d : SumData α) :
    Outcome (Fault α) (SumData α) :=
  (if recalc then s.evaluate args d else s.checked args d (.done d)).andThen fun d =>
    pass (fun c => c.differentiate args false) Totals.addDerivatives? (s.zipData d) 0
      d.totals.clear

end CostSum

end MultibodyCost
