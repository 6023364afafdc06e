import MultibodyCost.Linear.Mat

/-! # Slices of vectors, bands of matrices

Blocks written one behind another: a block is read back where it was written, and what lies in front
of it, or behind it, is not touched.
-/

namespace MultibodyCost

variable {α : Type} [Scalar α]

namespace Vec

theorem entry_zeros (n k : Nat) : (zeros n : Vec α).entry k = 0 := by
  rw [zeros, entry_ofFn]
  split <;> rfl

theorem slice_congr {v w : Vec α} {i n : Nat} (h : ∀ k, i ≤ k → k < i + n → v.entry k = w.entry k) :
    v.slice i n = w.slice i n := by
  apply ext_entry (by rw [size_slice, size_slice])
  intro k hk
  rw [size_slice] at hk
  rw [entry_slice v hk, entry_slice w hk]
  exact h (i + k) (Nat.le_add_right i k) (Nat.add_lt_add_left hk i)

theorem entry_of_slice_eq {v w : Vec α} {i n : Nat} (h : v.slice i n = w.slice i n) {k : Nat}
    (hStart : i ≤ k) (hStop : k < i + n) : v.entry k = w.entry k := by
  have hEntry := congrArg (fun s : Vec α => s.entry (k - i)) h
  have hk : k - i < n := by omega
  have hPlace : i + (k - i) = k := by omega
  simpa only [entry_slice _ hk, hPlace] using hEntry

theorem slice_place_of_disjoint (v block : Vec α) {i n o : Nat} (hn : i + n ≤ v.size)
    (h : i + n ≤ o ∨ o + block.size ≤ i) : (v.place o block).slice i n = v.slice i n := by
  apply slice_congr
  intro k hStart hStop
  exact entry_place_of_not_mem v block (by omega) (by omega)

theorem place?_eq_some {v block out : Vec α} {i : Nat} (h : v.place? i block = some out) :
    i + block.size ≤ v.size ∧ out = v.place i block := by
  unfold place? at h
  split at h
  · cases h
    exact ⟨‹_›, rfl⟩
  · cases h

theorem slice_of_place? {v block out : Vec α} {i : Nat} (h : v.place? i block = some out) :
    out.slice i block.size = block := by
  obtain ⟨hFits, rfl⟩ := place?_eq_some h
  exact slice_place v block hFits

theorem slice_before_place? {v block out : Vec α} {i n o : Nat} (hBefore : i + n ≤ o)
    (h : v.place? o block = some out) : out.slice i n = v.slice i n := by
  obtain ⟨hFits, rfl⟩ := place?_eq_some h
  exact slice_place_of_disjoint v block (by omega) (.inl hBefore)

theorem entry_behind_place? {v block out : Vec α} {o k : Nat} (hBehind : o + block.size ≤ k)
    (h : v.place? o block = some out) : out.entry k = v.entry k := by
  obtain ⟨-, rfl⟩ := place?_eq_some h
  by_cases hk : k < v.size
  · exact entry_place_of_not_mem v block hk (.inr hBehind)
  · rw [entry, entry, Array.getD_eq_getD_getElem?, Array.getD_eq_getD_getElem?,
      Array.getElem?_eq_none (by rw [size_place]; omega), Array.getElem?_eq_none (by omega)]

end Vec

namespace Mat

def band (m : Mat α) (i n : Nat) : Mat α := ofFn n m.cols fun r c => m.entry (i + r) c

theorem entry_band (m : Mat α) {i n r c : Nat} (hr : r < n) (hc : c < m.cols) :
    (m.band i n).entry r c = m.entry (i + r) c :=
  entry_ofFn_of_lt hr hc

theorem placeRows?_eq_some {m block out : Mat α} {i : Nat} (h : m.placeRows? i block = some out) :
    (i + block.rows ≤ m.rows ∧ block.cols = m.cols) ∧ out = m.place i 0 block := by
  unfold placeRows? at h
  split at h
  · cases h
    exact ⟨‹_›, rfl⟩
  · cases h

theorem band_of_placeRows? {m block out : Mat α} {i : Nat} (h : m.placeRows? i block = some out) :
    out.band i block.rows = block := by
  obtain ⟨⟨hRows, hCols⟩, rfl⟩ := placeRows?_eq_some h
  refine ext_entry ?_ ?_ fun r c hr hc => ?_
  · rfl
  · exact hCols.symm
  replace hr : r < block.rows := hr
  replace hc : c < m.cols := hc
  rw [entry_band (m.place i 0 block) hr hc, place, entry_ofFn_of_lt (by omega) hc,
    if_pos (by omega), Nat.add_sub_cancel_left, Nat.sub_zero]

theorem band_before_placeRows? {m block out : Mat α} {i n o : Nat} (hBefore : i + n ≤ o)
    (h : m.placeRows? o block = some out) : out.band i n = m.band i n := by
  obtain ⟨⟨hRows, -⟩, rfl⟩ := placeRows?_eq_some h
  refine ext_entry ?_ ?_ fun r c hr hc => ?_
  · rfl
  · rfl
  replace hr : r < n := hr
  replace hc : c < m.cols := hc
  rw [entry_band (m.place o 0 block) hr hc, entry_band m hr hc, place,
    entry_ofFn_of_lt (by omega) hc, if_neg (by omega)]

theorem entry_behind_placeRows? {m block out : Mat α} {o i : Nat} (hBehind : o + block.rows ≤ i)
    (h : m.placeRows? o block = some out) (j : Nat) : out.entry i j = m.entry i j := by
  obtain ⟨-, rfl⟩ := placeRows?_eq_some h
  by_cases hIn : i < m.rows ∧ j < m.cols
  · rw [place, entry_ofFn_of_lt hIn.1 hIn.2, if_neg (by omega)]
  · exact (if_neg hIn).trans (if_neg hIn).symm

end Mat

end MultibodyCost
