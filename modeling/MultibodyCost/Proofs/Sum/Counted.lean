import Mathlib
import MultibodyCost.Sum.Basic

/-! # Sums count their residuals

A sum is built by a run of additions and removals, some of which it may refuse. Its names are
distinct, and its dimension is the sum of those of its items, so that the parts of the stacked
residual fill it exactly.
-/

namespace MultibodyCost

namespace Named

variable {β : Type}

theorem insert_perm {xs : Named β} {name : String} (h : name ∉ xs.names) (value : β) :
    (insert xs name value).Perm ((name, value) :: xs) := by
  induction xs with
  | nil => exact .refl _
  | cons x xs ih =>
    obtain ⟨n, v⟩ := x
    have hHead : name ≠ n := fun hEq => h (hEq ▸ List.mem_cons_self)
    have hTail : name ∉ names xs := fun hMem => h (List.mem_cons_of_mem n hMem)
    rw [insert]
    split
    · exact .refl _
    · exact ((ih hTail).cons _).trans (.swap _ _ _)

theorem find?_eq_none_iff {xs : Named β} {name : String} :
    xs.find? name = none ↔ name ∉ xs.names := by
  rw [find?, List.lookup_eq_none_iff, names, List.mem_map]
  constructor
  · rintro h ⟨x, hx, rfl⟩
    have hNe : x.1 ≠ x.1 := by simpa using h x hx
    exact hNe rfl
  · intro h x hx
    have hNe : name ≠ x.1 := fun hEq => h ⟨x, hx, hEq.symm⟩
    simpa using hNe

theorem erase_eq {xs : Named β} (hNodup : xs.names.Nodup) {name : String} {value : β}
    (h : xs.find? name = some value) :
    ∃ before after, xs = before ++ (name, value) :: after ∧
      xs.erase name = before ++ after := by
  obtain ⟨before, after, rfl, hBefore⟩ := List.lookup_eq_some_iff.mp h
  refine ⟨before, after, rfl, ?_⟩
  rw [names, List.map_append, List.map_cons] at hNodup
  have hAfter : name ∉ names after := (List.nodup_cons.mp hNodup.of_append_right).1
  have hKeepBefore : before.filter (fun x => x.1 ≠ name) = before := by
    apply List.filter_eq_self.mpr
    intro x hx
    have hNe : name ≠ x.1 := by simpa using hBefore x hx
    simpa using hNe.symm
  have hKeepAfter : after.filter (fun x => x.1 ≠ name) = after := by
    apply List.filter_eq_self.mpr
    intro x hx
    have hNe : x.1 ≠ name := fun hEq => hAfter (hEq ▸ List.mem_map_of_mem hx)
    simpa using hNe
  rw [erase, List.filter_append, hKeepBefore, List.filter_cons_of_neg (by simp), hKeepAfter]

end Named

namespace CostSum

variable {α : Type} [Scalar α]

inductive Edit (α : Type) [Scalar α] where
  | add (name : String) (cost : Cost α) (weight : α)
  | remove (name : String)

def edit (s : CostSum α) : Edit α → CostSum α
  | .add name cost weight => (s.add name cost weight).sum
  | .remove name => (s.remove name).sum

def edited (s : CostSum α) (es : List (Edit α)) : CostSum α := es.foldl edit s

abbrev ValidWeight (w : α) : Prop := Scalar.isFinite w = true ∧ ¬w < 0

theorem addFault?_eq_none_iff {s : CostSum α} {name : String} {cost : Cost α} {weight : α} :
    s.addFault? name cost weight = none ↔
      name ∉ s.items.names ∧ cost.nu = s.nu ∧ ValidWeight weight := by
  rw [← Named.find?_eq_none_iff]
  unfold addFault?
  cases s.items.find? name with
  | some item => simp
  | none =>
    by_cases hNu : cost.nu = s.nu
    · by_cases hFinite : Scalar.isFinite weight = true
      · by_cases hNegative : weight < 0
        · simp [ValidWeight, hNu, hFinite, hNegative]
        · simp [ValidWeight, hNu, hFinite, hNegative]
      · simp [ValidWeight, hNu, hFinite]
    · simp [hNu]

/-- The first reason against a cost, where names of `used` are taken and `nu` is the control. -/
inductive Refusal (used : String → Prop) (nu : Nat) (name : String) (cost : Cost α) (weight : α) :
    CostError α → Prop where
  | name (h : used name) : Refusal used nu name cost weight (.alreadyExists name)
  | control (hFree : ¬used name) (h : cost.nu ≠ nu) :
    Refusal used nu name cost weight (.controlDimension name nu cost.nu)
  | weight (hFree : ¬used name) (hNu : cost.nu = nu) (h : ¬ValidWeight weight) :
    Refusal used nu name cost weight (.invalidWeight name weight)

theorem refusal_of_addFault {s : CostSum α} {name : String} {cost : Cost α} {weight : α}
    {e : CostError α} (h : s.addFault? name cost weight = some e) :
    Refusal (· ∈ s.items.names) s.nu name cost weight e := by
  unfold addFault? at h
  split at h
  · rename_i hFound
    cases h
    refine .name ?_
    by_contra hFree
    rw [Named.find?_eq_none_iff.mpr hFree] at hFound
    cases hFound
  · rename_i hNone
    have hFree : name ∉ s.items.names :=
      Named.find?_eq_none_iff.mp (Option.not_isSome_iff_eq_none.mp hNone)
    split at h
    · rename_i hNu
      cases h
      exact .control hFree hNu
    · rename_i hNu
      split at h
      · rename_i hWeight
        cases h
        refine .weight hFree (Classical.not_not.mp hNu) ?_
        rintro ⟨hFinite, hNotNegative⟩
        simp [hFinite, hNotNegative] at hWeight
      · cases h

theorem Refusal.unique {used : String → Prop} {nu : Nat} {name : String} {cost : Cost α} {weight : α}
    {e e' : CostError α} (h : Refusal used nu name cost weight e)
    (h' : Refusal used nu name cost weight e') : e = e' := by
  cases h with
  | name hUsed =>
    cases h' with
    | name => rfl
    | control hFree => exact absurd hUsed hFree
    | weight hFree => exact absurd hUsed hFree
  | control hFree hNu =>
    cases h' with
    | name hUsed => exact absurd hUsed hFree
    | control => rfl
    | weight _ hSame => exact absurd hSame hNu
  | weight hFree hSame =>
    cases h' with
    | name hUsed => exact absurd hUsed hFree
    | control _ hNu => exact absurd hSame hNu
    | weight => rfl

theorem addFault?_eq_some_iff {s : CostSum α} {name : String} {cost : Cost α} {weight : α}
    {e : CostError α} : s.addFault? name cost weight = some e ↔
      Refusal (· ∈ s.items.names) s.nu name cost weight e := by
  refine ⟨refusal_of_addFault, fun h => ?_⟩
  cases hFault : s.addFault? name cost weight with
  | some e' => rw [(refusal_of_addFault hFault).unique h]
  | none =>
    obtain ⟨hFree, hNu, hWeight⟩ := addFault?_eq_none_iff.mp hFault
    cases h with
    | name hUsed => exact absurd hUsed hFree
    | control _ hOther => exact absurd hNu hOther
    | weight _ _ hInvalid => exact absurd hWeight hInvalid

theorem add_eq_ok {s : CostSum α} {name : String} {cost : Cost α} {weight : α}
    (h : s.addFault? name cost weight = none) : (s.add name cost weight).result = .ok () ∧
      (s.add name cost weight).sum = s.insertItem name cost weight := by
  rw [add, h]
  exact ⟨rfl, rfl⟩

theorem add_eq_error {s : CostSum α} {name : String} {cost : Cost α} {weight : α} {e : CostError α}
    (h : s.addFault? name cost weight = some e) :
    (s.add name cost weight).result = .error e ∧ (s.add name cost weight).sum = s := by
  rw [add, h]
  split
  · rename_i hSome
    cases hSome
    exact ⟨rfl, rfl⟩
  · rename_i hSome
    cases hSome
    exact ⟨rfl, rfl⟩
  · rename_i hNone
    cases hNone

def eraseItem (s : CostSum α) (name : String) (item : SumItem α) : CostSum α :=
  { s with items := s.items.erase name, nr := s.nr - item.cost.nr }

theorem remove_eq_error {s : CostSum α} {name : String} (h : s.items.find? name = none) :
    (s.remove name).result = .error (.notFound name) ∧ (s.remove name).sum = s := by
  rw [remove, h]
  exact ⟨rfl, rfl⟩

theorem remove_eq_ok {s : CostSum α} {name : String} {item : SumItem α}
    (h : s.items.find? name = some item) :
    (s.remove name).result = .ok item ∧ (s.remove name).sum = s.eraseItem name item := by
  rw [remove, h]
  exact ⟨rfl, rfl⟩

/-- A change is refused, or enters a cost that is free of faults, or takes out one that is there. -/
theorem edit_keeps {motive : CostSum α → Prop} {s : CostSum α} (h : motive s)
    (hInsert : ∀ name cost weight, s.addFault? name cost weight = none →
      motive (s.insertItem name cost weight))
    (hErase : ∀ name item, s.items.find? name = some item → motive (s.eraseItem name item))
    (e : Edit α) : motive (s.edit e) := by
  cases e with
  | add name cost weight =>
    rw [edit]
    cases hFault : s.addFault? name cost weight with
    | none =>
      rw [(add_eq_ok hFault).2]
      exact hInsert name cost weight hFault
    | some e =>
      rw [(add_eq_error hFault).2]
      exact h
  | remove name =>
    rw [edit]
    cases hFind : s.items.find? name with
    | none =>
      rw [(remove_eq_error hFind).2]
      exact h
    | some item =>
      rw [(remove_eq_ok hFind).2]
      exact hErase name item hFind

theorem edited_keeps {motive : CostSum α → Prop} (hEdit : ∀ s e, motive s → motive (s.edit e))
    {s : CostSum α} (h : motive s) (es : List (Edit α)) : motive (s.edited es) := by
  induction es generalizing s with
  | nil => exact h
  | cons e es ih => exact ih (hEdit s e h)

def residuals (items : Named (SumItem α)) : List Nat := items.map fun x => x.2.cost.nr

structure Counted (s : CostSum α) : Prop where
  names_nodup : s.items.names.Nodup
  nr_eq : s.nr = (residuals s.items).sum

theorem counted_empty (state : Multibody α) (nu : Nat) : (empty state nu).Counted where
  names_nodup := List.nodup_nil
  nr_eq := rfl

theorem Counted.insertItem {s : CostSum α} (h : s.Counted) {name : String}
    (hName : name ∉ s.items.names) (cost : Cost α) (weight : α) :
    (s.insertItem name cost weight).Counted where
  names_nodup := by
    have hPerm := (Named.insert_perm hName ⟨cost, weight⟩).map Prod.fst
    exact hPerm.nodup_iff.mpr (List.nodup_cons.mpr ⟨hName, h.names_nodup⟩)
  nr_eq := by
    have hPerm := (Named.insert_perm hName ⟨cost, weight⟩).map fun x => x.2.cost.nr
    have hSum : (residuals (s.items.insert name ⟨cost, weight⟩)).sum =
        cost.nr + (residuals s.items).sum := by
      rw [residuals, hPerm.sum_eq, List.map_cons, List.sum_cons]
      rfl
    rw [CostSum.insertItem, hSum, h.nr_eq]
    exact Nat.add_comm _ _

theorem Counted.eraseItem {s : CostSum α} (h : s.Counted) {name : String} {item : SumItem α}
    (hItem : s.items.find? name = some item) : (s.eraseItem name item).Counted := by
  obtain ⟨before, after, hItems, hErased⟩ := Named.erase_eq h.names_nodup hItem
  have hNames := h.names_nodup
  have hNr := h.nr_eq
  rw [hItems, Named.names, List.map_append, List.map_cons] at hNames
  rw [hItems, residuals, List.map_append, List.map_cons, List.sum_append, List.sum_cons] at hNr
  constructor
  · rw [CostSum.eraseItem, hErased, Named.names, List.map_append]
    exact hNames.sublist ((List.sublist_cons_self _ _).append_left _)
  · rw [CostSum.eraseItem, hErased, residuals, List.map_append, List.sum_append]
    dsimp only at hNr ⊢
    omega

theorem Counted.edit {s : CostSum α} (h : s.Counted) (e : Edit α) : (s.edit e).Counted :=
  edit_keeps h
    (fun _ cost weight hNone => h.insertItem (addFault?_eq_none_iff.mp hNone).1 cost weight)
    (fun _ _ hItem => h.eraseItem hItem) e

theorem counted_edited (state : Multibody α) (nu : Nat) (es : List (Edit α)) :
    ((empty state nu).edited es).Counted :=
  edited_keeps (fun _ e h => h.edit e) (counted_empty state nu) es

end CostSum

end MultibodyCost
