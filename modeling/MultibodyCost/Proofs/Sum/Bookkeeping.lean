import MultibodyCost.Proofs.Sum.Interrupted
import MultibodyCost.Proofs.Sum.Order

/-! # A sum is a ledger

A run of changes is followed on a map from names to weighted costs that knows nothing of lists and
of counters: a cost is entered under a free name if its control and its weight are admitted, and a
removal empties its name. The items of the sum are that map in the order of the names, and its
counter is the dimension of their residuals. A change is refused exactly where the map says so, and
then nothing has changed; a removal takes back the addition before it.
-/

namespace MultibodyCost

namespace Named

variable {β : Type}

theorem erase_cons (x : String × β) (xs : Named β) (name : String) :
    erase (x :: xs) name = if x.1 = name then erase xs name else x :: erase xs name := by
  rw [erase, List.filter_cons, erase]
  split
  · rename_i h
    rw [if_neg (of_decide_eq_true h)]
  · rename_i h
    rw [if_pos (by simpa using h)]

theorem erase_of_not_mem {xs : Named β} {name : String} (h : name ∉ xs.names) : erase xs name = xs := by
  apply List.filter_eq_self.mpr
  intro x hx
  have hNe : x.1 ≠ name := fun hEq => h (hEq ▸ List.mem_map_of_mem hx)
  exact decide_eq_true hNe

theorem find?_cons (x : String × β) (xs : Named β) (name : String) :
    find? (x :: xs) name = if name = x.1 then some x.2 else find? xs name := by
  rw [find?, List.lookup_cons, find?]
  split
  · rename_i h
    rw [if_pos (beq_iff_eq.mp h)]
  · rename_i h
    rw [if_neg (beq_eq_false_iff_ne.mp h)]

theorem find?_insert (xs : Named β) (name : String) (value : β) (n : String) :
    find? (insert xs name value) n = if n = name then some value else find? xs n := by
  induction xs with
  | nil => exact find?_cons _ _ n
  | cons x xs ih =>
    obtain ⟨m, v⟩ := x
    rw [insert]
    split
    · exact find?_cons _ _ n
    · split
      · rename_i hSame
        subst hSame
        rw [find?_cons, find?_cons]
        split <;> rfl
      · rename_i hOther
        rw [find?_cons, find?_cons, ih]
        split
        · rename_i hHead
          rw [if_neg fun hEq => hOther (hEq.symm.trans hHead)]
        · rfl

theorem find?_erase (xs : Named β) (name n : String) :
    find? (erase xs name) n = if n = name then none else find? xs n := by
  induction xs with
  | nil => exact (ite_self _).symm
  | cons x xs ih =>
    rw [erase_cons, find?_cons]
    split
    · rename_i hDropped
      rw [ih, hDropped]
      split <;> rfl
    · rename_i hKept
      rw [find?_cons, ih]
      split
      · rename_i hHead
        rw [if_neg fun hEq => hKept (hHead.symm.trans hEq)]
      · rfl

theorem erase_insert {xs : Named β} {name : String} (h : name ∉ xs.names) (value : β) :
    erase (insert xs name value) name = xs := by
  induction xs with
  | nil => exact (erase_cons _ _ name).trans (if_pos rfl)
  | cons x xs ih =>
    obtain ⟨m, v⟩ := x
    have hHead : m ≠ name := fun hEq => h (hEq ▸ List.mem_cons_self)
    have hTail : name ∉ names xs := fun hMem => h (List.mem_cons_of_mem m hMem)
    rw [insert]
    split
    · rw [erase_cons, if_pos rfl, erase_of_not_mem h]
    · rw [if_neg hHead.symm, erase_cons, if_neg hHead, ih hTail]

end Named

namespace CostSum

section Ledger

variable {α : Type} [Scalar α]

abbrev Ledger (α : Type) [Scalar α] := String → Option (SumItem α)

def Ledger.edit (nu : Nat) (m : Ledger α) : Edit α → Ledger α
  | .add name cost weight =>
    if m name = none ∧ cost.nu = nu ∧ ValidWeight weight then
      Function.update m name (some ⟨cost, weight⟩)
    else m
  | .remove name => Function.update m name none

/-- The map after a run of changes of a sum that was empty. -/
def ledger (nu : Nat) (es : List (Edit α)) : Ledger α := es.foldl (Ledger.edit nu) fun _ => none

theorem find?_edit {s : CostSum α} {m : Ledger α} (h : s.items.find? = m) (e : Edit α) :
    (s.edit e).items.find? = m.edit s.nu e := by
  subst h
  funext n
  cases e with
  | add name cost weight =>
    rw [edit, Ledger.edit]
    cases hFault : s.addFault? name cost weight with
    | none =>
      obtain ⟨hFree, hAdmitted⟩ := addFault?_eq_none_iff.mp hFault
      rw [(add_eq_ok hFault).2, if_pos ⟨Named.find?_eq_none_iff.mpr hFree, hAdmitted⟩]
      rw [insertItem, Named.find?_insert, Function.update_apply]
    | some fault =>
      rw [(add_eq_error hFault).2, if_neg]
      rintro ⟨hFree, hAdmitted⟩
      cases hFault.symm.trans
        (addFault?_eq_none_iff.mpr ⟨Named.find?_eq_none_iff.mp hFree, hAdmitted⟩)
  | remove name =>
    rw [edit, Ledger.edit, Function.update_apply]
    cases hFind : s.items.find? name with
    | none =>
      rw [(remove_eq_error hFind).2]
      split
      · rename_i hSame
        rw [hSame, hFind]
      · rfl
    | some item => rw [(remove_eq_ok hFind).2, eraseItem, Named.find?_erase]

theorem find?_edited (state : Multibody α) (nu : Nat) (es : List (Edit α)) :
    ((empty state nu).edited es).items.find? = ledger nu es := by
  have hRun : ∀ (s : CostSum α) (m : Ledger α), s.nu = nu → s.items.find? = m →
      (s.edited es).items.find? = es.foldl (Ledger.edit nu) m := by
    induction es with
    | nil => exact fun s m _ h => h
    | cons e es ih =>
      rintro s m rfl h
      exact ih (s.edit e) _ (s.edit_fixed e).2 (find?_edit h e)
  exact hRun _ _ rfl rfl

theorem Counted.residual_le {s : CostSum α} (h : s.Counted) {name : String} {item : SumItem α}
    (hItem : s.items.find? name = some item) : item.cost.nr ≤ s.nr := by
  have hMem : (name, item) ∈ s.items := (Named.mem_iff_find? h.names_nodup).mpr hItem
  rw [h.nr_eq]
  exact List.le_sum_of_mem (List.mem_map_of_mem hMem)

theorem remove_insertItem {s : CostSum α} {name : String} (h : name ∉ s.items.names)
    (cost : Cost α) (weight : α) :
    ((s.insertItem name cost weight).remove name).result = .ok ⟨cost, weight⟩ ∧
      ((s.insertItem name cost weight).remove name).sum = s := by
  have hFind : (s.insertItem name cost weight).items.find? name = some ⟨cost, weight⟩ :=
    (Named.find?_insert _ _ _ _).trans (if_pos rfl)
  obtain ⟨hResult, hSum⟩ := remove_eq_ok hFind
  refine ⟨hResult, ?_⟩
  rw [hSum, eraseItem, insertItem, Named.erase_insert h]
  dsimp only
  rw [Nat.add_sub_cancel]

/-- The items of a sum are those of a map, which its counter counts and its control and its weights
admit. -/
structure Books (s : CostSum α) (nu : Nat) (m : Ledger α) : Prop where
  items : s.items.find? = m
  order : s.items.Sorted
  counter : s.nr = (residuals s.items).sum
  nu_eq : s.nu = nu
  control : ∀ x ∈ s.items, x.2.cost.nu = s.nu
  weights : ∀ x ∈ s.items, ValidWeight x.2.weight

theorem books_edited (state : Multibody α) (nu : Nat) (es : List (Edit α)) :
    ((empty state nu).edited es).Books nu (ledger nu es) where
  items := find?_edited state nu es
  order := sorted_edited (sorted_empty state nu) es
  counter := (counted_edited state nu es).nr_eq
  nu_eq := (edited_fixed (empty state nu) es).2
  control x hx := (admits_edited state nu es x hx).control
  weights x hx := (admits_edited state nu es x hx).weight

/-- The changes that a sum makes are those that a map has room for. -/
structure Changes (s : CostSum α) (nu : Nat) (m : Ledger α) : Prop where
  add_refused : ∀ name cost weight e, (s.add name cost weight).result = .error e ↔
    Refusal (fun name => m name ≠ none) nu name cost weight e
  add_kept : ∀ name cost weight e, (s.add name cost weight).result = .error e →
    (s.add name cost weight).sum = s
  add_undone : ∀ name cost weight, (s.add name cost weight).result = .ok () →
    ((s.add name cost weight).sum.remove name).result = .ok ⟨cost, weight⟩ ∧
      ((s.add name cost weight).sum.remove name).sum = s
  remove_refused : ∀ name e, (s.remove name).result = .error e ↔ m name = none ∧ e = .notFound name
  remove_kept : ∀ name e, (s.remove name).result = .error e → (s.remove name).sum = s
  removed : ∀ name item, (s.remove name).result = .ok item ↔ m name = some item
  -- What a removal takes from the counter is there.
  covered : ∀ name item, m name = some item → item.cost.nr ≤ s.nr

theorem add_eq_error_iff {s : CostSum α} {name : String} {cost : Cost α} {weight : α}
    {e : CostError α} :
    (s.add name cost weight).result = .error e ↔ s.addFault? name cost weight = some e := by
  cases hFault : s.addFault? name cost weight with
  | none =>
    rw [(add_eq_ok hFault).1]
    exact ⟨nofun, nofun⟩
  | some e' => rw [(add_eq_error hFault).1, Except.error.injEq, Option.some.injEq]

theorem add_eq_ok_iff {s : CostSum α} {name : String} {cost : Cost α} {weight : α} :
    (s.add name cost weight).result = .ok () ↔ s.addFault? name cost weight = none := by
  refine ⟨fun h => ?_, fun h => (add_eq_ok h).1⟩
  cases hFault : s.addFault? name cost weight with
  | none => rfl
  | some e => cases (add_eq_error hFault).1.symm.trans h

theorem remove_eq_error_iff {s : CostSum α} {name : String} {e : CostError α} :
    (s.remove name).result = .error e ↔ s.items.find? name = none ∧ e = .notFound name := by
  cases hFind : s.items.find? name with
  | none =>
    rw [(remove_eq_error hFind).1, Except.error.injEq, eq_comm]
    exact (and_iff_right rfl).symm
  | some item =>
    rw [(remove_eq_ok hFind).1]
    exact ⟨nofun, nofun⟩

theorem remove_eq_ok_iff {s : CostSum α} {name : String} {item : SumItem α} :
    (s.remove name).result = .ok item ↔ s.items.find? name = some item := by
  cases hFind : s.items.find? name with
  | none =>
    rw [(remove_eq_error hFind).1]
    exact ⟨nofun, nofun⟩
  | some item' => rw [(remove_eq_ok hFind).1, Except.ok.injEq, Option.some.injEq]

theorem Books.changes {s : CostSum α} {nu : Nat} {m : Ledger α} (h : s.Books nu m) :
    s.Changes nu m := by
  obtain ⟨rfl, hSorted, hNr, rfl, -, -⟩ := h
  have hUsed : (fun name => s.items.find? name ≠ none) = fun name => name ∈ s.items.names := by
    funext name
    rw [ne_eq, Named.find?_eq_none_iff, Classical.not_not]
  constructor
  · intro name cost weight e
    rw [add_eq_error_iff, addFault?_eq_some_iff, hUsed]
  · intro name cost weight e hError
    exact (add_eq_error (add_eq_error_iff.mp hError)).2
  · intro name cost weight hOk
    have hNone := add_eq_ok_iff.mp hOk
    rw [(add_eq_ok hNone).2]
    exact remove_insertItem (addFault?_eq_none_iff.mp hNone).1 cost weight
  · exact fun name e => remove_eq_error_iff
  · intro name e hError
    exact (remove_eq_error (remove_eq_error_iff.mp hError).1).2
  · exact fun name item => remove_eq_ok_iff
  · exact fun name item hItem => Counted.residual_le ⟨hSorted.nodup, hNr⟩ hItem

end Ledger

section Weights

open Float.Model

theorem unpack_zero : (0 : Float).toModel.unpack = .zero .positive := rfl

theorem lt_zero_iff (w : Float) : w < 0 ↔ w.toModel.unpack.lt (.zero .positive) = true := by
  rw [← unpack_zero]
  exact decide_eq_true_iff

theorem zero_le_iff (w : Float) :
    0 ≤ w ↔ UnpackedFloat.le (.zero .positive) w.toModel.unpack = true := by
  rw [← unpack_zero]
  exact decide_eq_true_iff

/-- A value that is not a number is neither negative nor at least zero. -/
theorem validWeight_iff (w : Float) : ValidWeight w ↔ w.isInf = false ∧ 0 ≤ w := by
  rw [ValidWeight, lt_zero_iff, zero_le_iff]
  change (w.toModel.unpack.isFinite = true ∧ _) ↔ (w.toModel.unpack.isInf = false ∧ _)
  cases w.toModel.unpack with
  | notANumber => decide
  | infinity sign => cases sign <;> decide
  | zero sign => cases sign <;> decide
  | finite sign mantissa exponent h =>
    cases sign <;>
      simp [UnpackedFloat.isFinite, UnpackedFloat.isInf, UnpackedFloat.lt, UnpackedFloat.le,
        UnpackedFloat.compare]

theorem isFinite_eq_false_iff (w : Float) :
    Scalar.isFinite w = false ↔ w.isInf = true ∨ w.isNaN = true := by
  change w.toModel.unpack.isFinite = false ↔
    w.toModel.unpack.isInf = true ∨ w.toModel.unpack.isNaN = true
  cases w.toModel.unpack with
  | notANumber => decide
  | infinity sign => cases sign <;> decide
  | zero sign => cases sign <;> decide
  | finite sign mantissa exponent h => simp [UnpackedFloat.isFinite, UnpackedFloat.isInf, UnpackedFloat.isNaN]

theorem not_validWeight_iff (w : Float) :
    ¬ValidWeight w ↔ w < 0 ∨ w.isInf = true ∨ w.isNaN = true := by
  rw [← isFinite_eq_false_iff, ValidWeight, Classical.not_and_iff_not_or_not, Classical.not_not,
    Bool.not_eq_true, or_comm]

end Weights

/-- After any run of changes, of which some may have been refused, the sum holds the map that the run
leads to, and refuses the next change where that map has no room for it. In double precision the
weights that are held are at least zero, and those that are refused are negative, infinite or not
numbers. -/
theorem edited_is_ledger (state : Multibody Float) (nu : Nat) (es : List (Edit Float)) :
    let s := (empty state nu).edited es
    s.Books nu (ledger nu es) ∧ s.Changes nu (ledger nu es) ∧
      (∀ x ∈ s.items, x.2.weight.isFinite = true ∧ 0 ≤ x.2.weight) ∧
      ∀ w : Float, ¬ValidWeight w ↔ w < 0 ∨ w.isInf = true ∨ w.isNaN = true := by
  intro s
  have hBooks : s.Books nu (ledger nu es) := books_edited state nu es
  refine ⟨hBooks, hBooks.changes, ?_, not_validWeight_iff⟩
  intro x hx
  have hWeight := hBooks.weights x hx
  exact ⟨hWeight.1, ((validWeight_iff _).mp hWeight).2⟩

open ResidualCost in
def reachRun : List (Edit Float) :=
  [.add "reach" (.residual toolReach) 0.5, .add "effort" (.residual toolEffort) 1,
    .add "effort" (.residual toolEffort) 2, .remove "posture", .remove "effort"]

theorem edited_is_ledger_reach :
    let s := (empty toolEffort.state 1).edited reachRun
    ledger 1 reachRun "effort" = none ∧
      (s.add "effort" (.residual toolEffort) (0 / 0)).result =
        .error (.invalidWeight "effort" (0 / 0)) ∧
      (s.add "effort" (.residual toolEffort) 0.25).result = .ok () ∧
      ((s.add "effort" (.residual toolEffort) 0.25).sum.remove "effort").sum = s := by
  intro s
  obtain ⟨hBooks, hChanges, -, -⟩ := edited_is_ledger toolEffort.state 1 reachRun
  have hFree : ledger 1 reachRun "effort" = none := by decide +kernel
  have hAdd : (s.add "effort" (.residual toolEffort) 0.25).result = .ok () := by
    refine add_eq_ok_iff.mpr (addFault?_eq_none_iff.mpr ⟨?_, hBooks.nu_eq.symm, by decide +kernel⟩)
    rw [← Named.find?_eq_none_iff, hBooks.items]
    exact hFree
  refine ⟨hFree, ?_, hAdd, (hChanges.add_undone _ _ _ hAdd).2⟩
  exact (hChanges.add_refused _ _ _ _).mpr
    (.weight (Classical.not_not.mpr hFree) rfl (by decide +kernel))

end CostSum

end MultibodyCost
