import MultibodyCost.Proofs.Sum.Counted

/-! # Sums do not remember how they were built

The names of a sum are in strictly increasing order after every change, so the map from names to
weighted costs determines the list of items, and with it the dimension of the stack. Two sums with
the same costs under the same names are one sum.
-/

namespace MultibodyCost

namespace Named

variable {β : Type} {xs ys : Named β}

def Sorted (xs : Named β) : Prop := xs.names.Pairwise (· < ·)

theorem mem_insert {x : String × β} {name : String} {value : β} (h : x ∈ insert xs name value) :
    x = (name, value) ∨ x ∈ xs := by
  induction xs with
  | nil => exact .inl (List.mem_singleton.mp h)
  | cons y xs ih =>
    obtain ⟨m, v⟩ := y
    rw [insert] at h
    split at h
    · exact List.mem_cons.mp h
    · split at h
      · exact (List.mem_cons.mp h).imp_right (List.mem_cons_of_mem _)
      · rcases List.mem_cons.mp h with rfl | h
        · exact .inr List.mem_cons_self
        · exact (ih h).imp_right (List.mem_cons_of_mem _)

theorem mem_names_insert {n name : String} {value : β} (h : n ∈ names (insert xs name value)) :
    n = name ∨ n ∈ xs.names := by
  obtain ⟨x, hx, rfl⟩ := List.mem_map.mp h
  rcases mem_insert hx with rfl | hx
  · exact .inl rfl
  · exact .inr (List.mem_map_of_mem hx)

theorem Sorted.insert (h : xs.Sorted) (name : String) (value : β) :
    Sorted (Named.insert xs name value) := by
  induction xs with
  | nil => exact List.pairwise_singleton _ _
  | cons x xs ih =>
    obtain ⟨m, v⟩ := x
    obtain ⟨hHead, hTail⟩ := List.pairwise_cons.mp h
    rw [Named.insert]
    split
    · rename_i hLess
      refine List.pairwise_cons.mpr ⟨?_, h⟩
      intro n hn
      rcases List.mem_cons.mp hn with rfl | hn
      · exact hLess
      · exact lt_trans hLess (hHead n hn)
    · rename_i hNotLess
      split
      · rename_i hSame
        exact List.pairwise_cons.mpr ⟨fun n hn => hSame ▸ hHead n hn, hTail⟩
      · rename_i hOther
        refine List.pairwise_cons.mpr ⟨?_, ih hTail⟩
        intro n hn
        rcases mem_names_insert hn with rfl | hn
        · exact lt_of_le_of_ne (not_lt.mp hNotLess) (Ne.symm hOther)
        · exact hHead n hn

theorem Sorted.erase (h : xs.Sorted) (name : String) : Sorted (Named.erase xs name) :=
  h.sublist (List.filter_sublist.map Prod.fst)

theorem Sorted.nodup (h : xs.Sorted) : xs.names.Nodup := h.imp fun hLess => ne_of_lt hLess

theorem mem_iff_find? (h : xs.names.Nodup) {name : String} {value : β} :
    (name, value) ∈ xs ↔ xs.find? name = some value := by
  constructor
  · intro hMem
    cases hFound : xs.find? name with
    | none => exact absurd (List.mem_map_of_mem hMem) (find?_eq_none_iff.mp hFound)
    | some found =>
      obtain ⟨before, after, hItems, -⟩ := erase_eq h hFound
      have hOther : (name, found) ∈ xs := hItems ▸ List.mem_append_right before List.mem_cons_self
      have hSame := List.inj_on_of_nodup_map h hOther hMem rfl
      rw [(Prod.mk.inj hSame).2]
  · intro hFound
    obtain ⟨before, after, rfl, -⟩ := erase_eq h hFound
    exact List.mem_append_right before List.mem_cons_self

theorem eq_of_find? (hx : xs.Sorted) (hy : ys.Sorted) (h : ∀ name, xs.find? name = ys.find? name) :
    xs = ys := by
  have hPerm : xs.Perm ys := by
    apply (List.perm_ext_iff_of_nodup (.of_map _ hx.nodup) (.of_map _ hy.nodup)).mpr
    rintro ⟨name, value⟩
    rw [mem_iff_find? hx.nodup, mem_iff_find? hy.nodup, h name]
  refine List.Perm.eq_of_pairwise ?_ (List.pairwise_map.mp hx) (List.pairwise_map.mp hy) hPerm
  intro a b _ _ hLess hGreater
  exact absurd hGreater (lt_asymm hLess)

end Named

namespace CostSum

variable {α : Type} [Scalar α]

theorem sorted_empty (state : Multibody α) (nu : Nat) : (empty state nu).items.Sorted := .nil

theorem sorted_edit {s : CostSum α} (h : s.items.Sorted) (e : Edit α) : (s.edit e).items.Sorted :=
  edit_keeps (motive := fun t => t.items.Sorted) h (fun name _ _ _ => h.insert name _)
    (fun name _ _ => h.erase name) e

theorem sorted_edited {s : CostSum α} (h : s.items.Sorted) (es : List (Edit α)) :
    (s.edited es).items.Sorted :=
  edited_keeps (motive := fun t => t.items.Sorted) (fun _ e h => sorted_edit h e) h es

theorem edit_fixed (s : CostSum α) (e : Edit α) :
    (s.edit e).state = s.state ∧ (s.edit e).nu = s.nu :=
  edit_keeps (motive := fun t => t.state = s.state ∧ t.nu = s.nu) ⟨rfl, rfl⟩
    (fun _ _ _ _ => ⟨rfl, rfl⟩) (fun _ _ _ => ⟨rfl, rfl⟩) e

theorem edited_fixed (s : CostSum α) (es : List (Edit α)) :
    (s.edited es).state = s.state ∧ (s.edited es).nu = s.nu :=
  edited_keeps (motive := fun t => t.state = s.state ∧ t.nu = s.nu)
    (fun t e h => ⟨(t.edit_fixed e).1.trans h.1, (t.edit_fixed e).2.trans h.2⟩) ⟨rfl, rfl⟩ es

structure Admits (s : CostSum α) (item : SumItem α) : Prop where
  control : item.cost.nu = s.nu
  weight : ValidWeight item.weight

theorem admits_edit {s : CostSum α} (h : ∀ x ∈ s.items, s.Admits x.2) (e : Edit α) :
    ∀ x ∈ (s.edit e).items, (s.edit e).Admits x.2 := by
  apply edit_keeps (motive := fun t => ∀ x ∈ t.items, t.Admits x.2) h
  · intro name cost weight hNone x hx
    obtain ⟨-, hNu, hWeight⟩ := addFault?_eq_none_iff.mp hNone
    rcases Named.mem_insert hx with rfl | hx
    · exact ⟨hNu, hWeight⟩
    · exact ⟨(h x hx).control, (h x hx).weight⟩
  · intro name item hItem x hx
    obtain ⟨hNu, hWeight⟩ := h x (List.mem_of_mem_filter hx)
    exact ⟨hNu, hWeight⟩

theorem admits_edited (state : Multibody α) (nu : Nat) (es : List (Edit α)) :
    ∀ x ∈ ((empty state nu).edited es).items, ((empty state nu).edited es).Admits x.2 :=
  edited_keeps (motive := fun t => ∀ x ∈ t.items, t.Admits x.2) (fun _ e h => admits_edit h e)
    (fun _ hx => absurd hx List.not_mem_nil) es

/-- The costs under their names determine a sum, whatever changes led to it. -/
theorem edited_eq_of_find? (state : Multibody α) (nu : Nat) {es es' : List (Edit α)}
    (h : ∀ name, ((empty state nu).edited es).items.find? name =
      ((empty state nu).edited es').items.find? name) :
    (empty state nu).edited es = (empty state nu).edited es' := by
  have hItems := Named.eq_of_find? (sorted_edited (sorted_empty state nu) es)
    (sorted_edited (sorted_empty state nu) es') h
  obtain ⟨hState, hNu⟩ := edited_fixed (empty state nu) es
  obtain ⟨hState', hNu'⟩ := edited_fixed (empty state nu) es'
  have hNr := (counted_edited state nu es).nr_eq
  rw [hItems, ← (counted_edited state nu es').nr_eq] at hNr
  generalize (empty state nu).edited es = s at *
  generalize (empty state nu).edited es' = s' at *
  cases s
  cases s'
  rw [mk.injEq]
  exact ⟨hState.trans hState'.symm, hItems, hNu.trans hNu'.symm, hNr⟩

end CostSum

end MultibodyCost
