import MultibodyCost.Proofs.Double
import MultibodyCost.Proofs.Sum.Bookkeeping
import MultibodyCost.Proofs.Sum.Preserved

/-! # The events of a sum tell its story

A reader of the events alone keeps a book of names: an item that was added is entered with the weight
and the dimension that the event names, an item that was removed is struck out. After every run of
changes and calls, refused or not, that book holds what the sum holds. Changes that are made are told
at the level of debugging, those that are refused because of a name as warnings; other refusals and
all calls are silent.
-/

namespace MultibodyCost

namespace Event

variable {α : Type}

inductive Level where
  | debug
  | warning

def Level.word : Level → String
  | debug => "DEBUG"
  | warning => "WARN"

def level : Event α → Level
  | .itemExists _ => .warning
  | .itemMissing _ => .warning
  | .zeroWeight _ => .warning
  | _ => .debug

/-- The line begins with the level and then the message. -/
def Level.Heads (l : Level) (line : String) : Prop := ∃ rest, line = l.word ++ " message=" ++ rest

theorem Level.Heads.append {l : Level} {line : String} (h : l.Heads line) (more : String) :
    l.Heads (line ++ more) := by
  obtain ⟨rest, rfl⟩ := h
  exact ⟨rest ++ more, String.append_assoc ..⟩

theorem heads_line (e : Event Float) : e.level.Heads e.line := by
  cases e with
  | addedJoint joint kind nq nv =>
    have hStart : Level.debug.Heads "DEBUG message=added joint joint=" := ⟨"added joint joint=", rfl⟩
    exact (((hStart.append _).append _).append _).append _
  | addedItem cost weight nr totalNr =>
    have hStart : Level.debug.Heads "DEBUG message=added cost item cost=" :=
      ⟨"added cost item cost=", rfl⟩
    exact (((hStart.append _).append _).append _).append _
  | removedItem cost totalNr =>
    have hStart : Level.debug.Heads "DEBUG message=removed cost item cost=" :=
      ⟨"removed cost item cost=", rfl⟩
    exact (hStart.append _).append _
  | itemExists cost =>
    exact Level.Heads.append ⟨"cost item already exists cost=", rfl⟩ cost
  | itemMissing cost =>
    exact Level.Heads.append ⟨"cost item does not exist cost=", rfl⟩ cost
  | zeroWeight cost =>
    exact Level.Heads.append ⟨"cost item added with zero weight cost=", rfl⟩ cost
  | builtSum costs nu nr =>
    have hStart : Level.debug.Heads "DEBUG message=built cost sum from configuration costs=" :=
      ⟨"built cost sum from configuration costs=", rfl⟩
    exact ((((hStart.append _).append _).append _).append _).append _

/-- The dimension of the sum after the change that is told. -/
def totalNr? : Event α → Option Nat
  | .addedItem _ _ _ totalNr => some totalNr
  | .removedItem _ totalNr => some totalNr
  | _ => none

structure Noted (α : Type) where
  weight : α
  nr : Nat

abbrev Book (α : Type) := String → Option (Noted α)

def Book.note (b : Book α) : Event α → Book α
  | .addedItem name weight nr _ => Function.update b name (some ⟨weight, nr⟩)
  | .removedItem name _ => Function.update b name none
  | _ => b

/-- The book of who has read these events and nothing else. -/
def replay (log : List (Event α)) : Book α := log.foldl Book.note fun _ => none

def lastTotal (log : List (Event α)) : Nat := (log.filterMap totalNr?).getLast?.getD 0

theorem replay_concat (log : List (Event α)) (e : Event α) :
    replay (log ++ [e]) = (replay log).note e := List.foldl_concat ..

theorem lastTotal_concat (log : List (Event α)) (e : Event α) :
    lastTotal (log ++ [e]) = e.totalNr?.getD (lastTotal log) := by
  rw [lastTotal, List.filterMap_append, lastTotal]
  cases hTotal : e.totalNr? with
  | none => simp [hTotal]
  | some n => simp [hTotal]

end Event

namespace CostSum

variable {α : Type}

section Changes

variable [Scalar α]

def told (s : CostSum α) : Edit α → List (Event α)
  | .add name cost weight => (s.add name cost weight).events
  | .remove name => (s.remove name).events

/-- The names of a sum with what a log says of their items. -/
def noted (s : CostSum α) : Event.Book α := fun name =>
  (s.items.find? name).map fun item => ⟨item.weight, item.cost.nr⟩

theorem add_of_none {s : CostSum α} {name : String} {cost : Cost α} {weight : α}
    (h : s.addFault? name cost weight = none) : s.add name cost weight =
      ⟨s.insertItem name cost weight, .ok (), (if weight ≤ 0 then [.zeroWeight name] else []) ++
        [.addedItem name weight cost.nr (s.insertItem name cost weight).nr]⟩ := by
  rw [add, h]

theorem remove_of_some {s : CostSum α} {name : String} {item : SumItem α}
    (h : s.items.find? name = some item) : s.remove name =
      ⟨s.eraseItem name item, .ok item, [.removedItem name (s.eraseItem name item).nr]⟩ := by
  rw [remove, h]
  rfl

theorem remove_of_none {s : CostSum α} {name : String} (h : s.items.find? name = none) :
    s.remove name = ⟨s, .error (.notFound name), [.itemMissing name]⟩ := by
  rw [remove, h]

theorem add_of_some {s : CostSum α} {name : String} {cost : Cost α} {weight : α} {e : CostError α}
    (h : s.addFault? name cost weight = some e) : ∃ events,
      s.add name cost weight = ⟨s, .error e, events⟩ ∧
        (e = .alreadyExists name ∧ events = [.itemExists name] ∨
          (e = .controlDimension name s.nu cost.nu ∨ e = .invalidWeight name weight) ∧ events = []) := by
  rw [add, h]
  cases addFault?_eq_some_iff.mp h with
  | name hUsed => exact ⟨_, rfl, .inl ⟨rfl, rfl⟩⟩
  | control hFree hNu => exact ⟨_, rfl, .inr ⟨.inl rfl, rfl⟩⟩
  | weight hFree hNu hInvalid => exact ⟨_, rfl, .inr ⟨.inr rfl, rfl⟩⟩

theorem noted_insertItem (s : CostSum α) (name : String) (cost : Cost α) (weight : α) :
    (s.insertItem name cost weight).noted =
      Function.update s.noted name (some ⟨weight, cost.nr⟩) := by
  funext n
  rw [noted, insertItem, Named.find?_insert, Function.update_apply]
  split
  · rfl
  · rfl

theorem noted_eraseItem (s : CostSum α) (name : String) (item : SumItem α) :
    (s.eraseItem name item).noted = Function.update s.noted name none := by
  funext n
  rw [noted, eraseItem, Named.find?_erase, Function.update_apply]
  split
  · rfl
  · rfl

/-- A log that tells what a sum holds. -/
structure Follows (s : CostSum α) (log : List (Event α)) : Prop where
  book : Event.replay log = s.noted
  total : Event.lastTotal log = s.nr

theorem follows_empty (state : Multibody α) (nu : Nat) : (empty state nu).Follows [] := ⟨rfl, rfl⟩

theorem Follows.warned {s : CostSum α} {log : List (Event α)} (h : s.Follows log) {e : Event α}
    (hLevel : e.level = .warning) : s.Follows (log ++ [e]) := by
  have hSilent : (∀ b : Event.Book α, b.note e = b) ∧ e.totalNr? = none := by
    cases e with
    | itemExists => exact ⟨fun _ => rfl, rfl⟩
    | itemMissing => exact ⟨fun _ => rfl, rfl⟩
    | zeroWeight => exact ⟨fun _ => rfl, rfl⟩
    | _ => cases hLevel
  constructor
  · rw [Event.replay_concat, hSilent.1, h.book]
  · rw [Event.lastTotal_concat, hSilent.2, h.total]
    rfl

theorem Follows.insertItem {s : CostSum α} {log : List (Event α)} (h : s.Follows log) (name : String)
    (cost : Cost α) (weight : α) : (s.insertItem name cost weight).Follows
      (log ++ [.addedItem name weight cost.nr (s.insertItem name cost weight).nr]) := by
  constructor
  · rw [Event.replay_concat, h.book, noted_insertItem]
    rfl
  · exact Event.lastTotal_concat ..

theorem Follows.eraseItem {s : CostSum α} {log : List (Event α)} (h : s.Follows log) (name : String)
    (item : SumItem α) : (s.eraseItem name item).Follows
      (log ++ [.removedItem name (s.eraseItem name item).nr]) := by
  constructor
  · rw [Event.replay_concat, h.book, noted_eraseItem]
    rfl
  · exact Event.lastTotal_concat ..

/-- The log with the events of a change tells what the changed sum holds. -/
theorem Follows.edit {s : CostSum α} {log : List (Event α)} (h : s.Follows log) (e : Edit α) :
    (s.edit e).Follows (log ++ s.told e) := by
  cases e with
  | add name cost weight =>
    rw [CostSum.edit, told]
    cases hFault : s.addFault? name cost weight with
    | none =>
      rw [add_of_none hFault]
      split
      · rw [← List.append_assoc]
        exact (h.warned rfl).insertItem name cost weight
      · exact h.insertItem name cost weight
    | some fault =>
      obtain ⟨events, hAdd, ⟨-, rfl⟩ | ⟨-, rfl⟩⟩ := add_of_some hFault
      · rw [hAdd]
        exact h.warned rfl
      · rw [hAdd, List.append_nil]
        exact h
  | remove name =>
    rw [CostSum.edit, told]
    cases hFind : s.items.find? name with
    | none =>
      rw [remove_of_none hFind]
      exact h.warned rfl
    | some item =>
      rw [remove_of_some hFind]
      exact h.eraseItem name item

end Changes

/-- What is done with a sum: it is changed, some data is taken up, or a call is made on the data that
was taken up last. -/
inductive Action (α : Type) [Scalar α] where
  | edit (e : Edit α)
  | take (d : SumData α)
  | call (c : Call α)

/-- A sum in use, with the data that calls work on and all events so far. -/
structure Session (α : Type) [Scalar α] where
  sum : CostSum α
  data : SumData α
  log : List (Event α)

namespace Session

def start [Scalar α] (state : Multibody α) (nu : Nat) : Session α :=
  ⟨empty state nu, (empty state nu).createData, []⟩

variable [Elementary α]

/-- Only changes have events; a call works on the data and leaves the sum. -/
def step (t : Session α) : Action α → Session α
  | .edit e => { t with sum := t.sum.edit e, log := t.log ++ t.sum.told e }
  | .take d => { t with data := d }
  | .call c => { t with data := (t.sum.call t.data c).data }

def run (t : Session α) (ds : List (Action α)) : Session α := ds.foldl step t

theorem log_run_prefix (t : Session α) (ds : List (Action α)) : t.log <+: (t.run ds).log := by
  induction ds generalizing t with
  | nil => exact List.prefix_refl _
  | cons d ds ih =>
    refine List.IsPrefix.trans ?_ (ih (t.step d))
    cases d with
    | edit e => exact List.prefix_append _ _
    | take d => exact List.prefix_refl _
    | call c => exact List.prefix_refl _

theorem follows_step {t : Session α} (h : t.sum.Follows t.log) (d : Action α) :
    (t.step d).sum.Follows (t.step d).log := by
  cases d with
  | edit e => exact h.edit e
  | take d => exact h
  | call c => exact h

theorem follows_run {t : Session α} (h : t.sum.Follows t.log) (ds : List (Action α)) :
    (t.run ds).sum.Follows (t.run ds).log := by
  induction ds generalizing t with
  | nil => exact h
  | cons d ds ih => exact ih (follows_step h d)

end Session

theorem le_zero_iff_of_valid {w : Float} (h : ValidWeight w) : w ≤ 0 ↔ w = 0 ∨ w = -0 := by
  constructor
  · intro hLe
    obtain ⟨hFinite, hNotNegative⟩ := h
    rw [lt_zero_iff] at hNotNegative
    rw [Double.le_iff, unpack_zero] at hLe
    change w.toModel.unpack.isFinite = true at hFinite
    cases hUnpack : w.toModel.unpack with
    | zero sign => exact Double.eq_zero_of_unpack hUnpack
    | finite sign mantissa exponent hPos =>
      rw [hUnpack] at hNotNegative hLe
      cases sign with
      | negative => exact absurd rfl hNotNegative
      | positive => cases hLe
    | notANumber =>
      rw [hUnpack] at hFinite
      cases hFinite
    | infinity sign =>
      rw [hUnpack] at hFinite
      cases hFinite
  · rintro (rfl | rfl)
    · decide +kernel
    · decide +kernel

open Event.Level in
inductive AddTold (s : CostSum Float) (name : String) (cost : Cost Float) (weight : Float) :
    Change Float Unit → List Event.Level → Prop
  | added (after : CostSum Float) (h : ¬(weight = 0 ∨ weight = -0)) : AddTold s name cost weight
    ⟨after, .ok (), [.addedItem name weight cost.nr after.nr]⟩ [debug]
  | addedZero (after : CostSum Float) (h : weight = 0 ∨ weight = -0) : AddTold s name cost weight
    ⟨after, .ok (), [.zeroWeight name, .addedItem name weight cost.nr after.nr]⟩ [warning, debug]
  | existing : AddTold s name cost weight
    ⟨s, .error (.alreadyExists name), [.itemExists name]⟩ [warning]
  | control : AddTold s name cost weight
    ⟨s, .error (.controlDimension name s.nu cost.nu), []⟩ []
  | weight : AddTold s name cost weight
    ⟨s, .error (.invalidWeight name weight), []⟩ []

open Event.Level in
inductive RemoveTold (s : CostSum Float) (name : String) :
    Change Float (SumItem Float) → List Event.Level → Prop
  | removed (after : CostSum Float) (item : SumItem Float) : RemoveTold s name
    ⟨after, .ok item, [.removedItem name after.nr]⟩ [debug]
  | missing : RemoveTold s name ⟨s, .error (.notFound name), [.itemMissing name]⟩ [warning]

theorem addTold (s : CostSum Float) (name : String) (cost : Cost Float) (weight : Float) :
    s.AddTold name cost weight (s.add name cost weight)
      ((s.add name cost weight).events.map Event.level) := by
  cases hFault : s.addFault? name cost weight with
  | none =>
    have hValid : ValidWeight weight := (addFault?_eq_none_iff.mp hFault).2.2
    rw [add_of_none hFault]
    split
    · rename_i hZero
      exact .addedZero _ ((le_zero_iff_of_valid hValid).mp hZero)
    · rename_i hPositive
      exact .added _ fun hZero => hPositive ((le_zero_iff_of_valid hValid).mpr hZero)
  | some e =>
    obtain ⟨events, hAdd, ⟨rfl, rfl⟩ | ⟨rfl | rfl, rfl⟩⟩ := add_of_some hFault
    · rw [hAdd]
      exact .existing
    · rw [hAdd]
      exact .control
    · rw [hAdd]
      exact .weight

theorem removeTold (s : CostSum Float) (name : String) :
    s.RemoveTold name (s.remove name) ((s.remove name).events.map Event.level) := by
  cases hFind : s.items.find? name with
  | none =>
    rw [remove_of_none hFind]
    exact .missing
  | some item =>
    rw [remove_of_some hFind]
    exact .removed _ item

/-- Whatever was done with a sum that was empty, the events so far tell which items it holds, with
their weights and dimensions, and the last of its changes its dimension. What is done next adds to the
log: a change by its result, a call nothing. -/
theorem log_tells_story (state : Multibody Float) (nu : Nat) (ds more : List (Action Float)) :
    let t := (Session.start state nu).run ds
    Event.replay t.log = t.sum.noted ∧ Event.lastTotal t.log = t.sum.nr ∧
      t.log <+: ((Session.start state nu).run (ds ++ more)).log ∧
      (∀ name cost weight, t.sum.AddTold name cost weight (t.sum.add name cost weight)
        ((t.sum.told (.add name cost weight)).map Event.level)) ∧
      (∀ name, t.sum.RemoveTold name (t.sum.remove name) ((t.sum.told (.remove name)).map Event.level)) ∧
      (∀ e, (t.step (.edit e)).log = t.log ++ t.sum.told e) ∧
      (∀ c, (t.step (.call c)).log = t.log ∧ (t.step (.call c)).sum = t.sum) ∧
      ∀ e : Event Float, e.level.Heads e.line := by
  intro t
  have hFollows : t.sum.Follows t.log := Session.follows_run (follows_empty state nu) ds
  refine ⟨hFollows.book, hFollows.total, ?_, t.sum.addTold, t.sum.removeTold, fun e => rfl,
    fun c => ⟨rfl, rfl⟩, Event.heads_line⟩
  rw [Session.run, List.foldl_append]
  exact Session.log_run_prefix t more

end CostSum

end MultibodyCost
