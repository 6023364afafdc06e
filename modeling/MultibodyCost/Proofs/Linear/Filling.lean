import MultibodyCost.Linear.Mat

/-! # Filling part by part

Two vectors, or two matrices, that are filled alike from the front: they have one shape and agree in
the entries, rows or columns before a mark. Writing one block into both at the mark moves the mark
on, and at the end of the shape they are equal, whatever stood in them before.
-/

namespace MultibodyCost

variable {α : Type} [Scalar α]

namespace Vec

structure FilledTo (k : Nat) (v w : Vec α) : Prop where
  size_eq : v.size = w.size
  entry_eq : ∀ i, i < k → v.entry i = w.entry i

theorem FilledTo.start {v w : Vec α} (h : v.size = w.size) : FilledTo 0 v w where
  size_eq := h
  entry_eq i hi := absurd hi (Nat.not_lt_zero i)

theorem FilledTo.eq {k : Nat} {v w : Vec α} (h : FilledTo k v w) (hk : v.size ≤ k) : v = w :=
  ext_entry h.size_eq fun i hi => h.entry_eq i (Nat.lt_of_lt_of_le hi hk)

theorem FilledTo.place {k : Nat} {v w : Vec α} (h : FilledTo k v w) (block : Vec α) :
    FilledTo (k + block.size) (v.place k block) (w.place k block) where
  size_eq := by rw [size_place, size_place, h.size_eq]
  entry_eq i hi := by
    simp only [Vec.place, entry_ofFn, h.size_eq]
    by_cases hMark : k ≤ i
    · simp only [hMark, hi, and_self, if_true]
    · simp only [hMark, false_and, if_false, h.entry_eq i (Nat.lt_of_not_le hMark)]

theorem FilledTo.place? {k : Nat} {v w : Vec α} (h : FilledTo k v w) (block : Vec α) :
    Option.Rel (FilledTo (k + block.size)) (v.place? k block) (w.place? k block) := by
  unfold Vec.place?
  rw [h.size_eq]
  split
  · exact .some (h.place block)
  · exact .none

end Vec

namespace Mat

theorem entry_ofFn (r c : Nat) (f : Nat → Nat → α) (i j : Nat) :
    (ofFn r c f).entry i j = if i < r ∧ j < c then f i j else 0 := by
  split
  · rename_i h
    exact entry_ofFn_of_lt h.1 h.2
  · rename_i h
    exact if_neg h

structure FilledRows (k : Nat) (m n : Mat α) : Prop where
  rows_eq : m.rows = n.rows
  cols_eq : m.cols = n.cols
  entry_eq : ∀ i j, i < k → m.entry i j = n.entry i j

structure FilledCols (k : Nat) (m n : Mat α) : Prop where
  rows_eq : m.rows = n.rows
  cols_eq : m.cols = n.cols
  entry_eq : ∀ i j, j < k → m.entry i j = n.entry i j

theorem FilledRows.start {m n : Mat α} (hRows : m.rows = n.rows) (hCols : m.cols = n.cols) :
    FilledRows 0 m n where
  rows_eq := hRows
  cols_eq := hCols
  entry_eq i _ hi := absurd hi (Nat.not_lt_zero i)

theorem FilledCols.start {m n : Mat α} (hRows : m.rows = n.rows) (hCols : m.cols = n.cols) :
    FilledCols 0 m n where
  rows_eq := hRows
  cols_eq := hCols
  entry_eq _ j hj := absurd hj (Nat.not_lt_zero j)

theorem FilledRows.eq {k : Nat} {m n : Mat α} (h : FilledRows k m n) (hk : m.rows ≤ k) : m = n :=
  ext_entry h.rows_eq h.cols_eq fun i j hi _ => h.entry_eq i j (Nat.lt_of_lt_of_le hi hk)

theorem FilledCols.eq {k : Nat} {m n : Mat α} (h : FilledCols k m n) (hk : m.cols ≤ k) : m = n :=
  ext_entry h.rows_eq h.cols_eq fun i j _ hj => h.entry_eq i j (Nat.lt_of_lt_of_le hj hk)

theorem FilledRows.placeRows? {k : Nat} {m n : Mat α} (h : FilledRows k m n) (block : Mat α) :
    Option.Rel (FilledRows (k + block.rows)) (m.placeRows? k block) (n.placeRows? k block) := by
  unfold Mat.placeRows?
  rw [h.rows_eq, h.cols_eq]
  split
  · rename_i hFits
    refine .some ⟨h.rows_eq, h.cols_eq, ?_⟩
    intro i j hi
    simp only [place, entry_ofFn, h.rows_eq, h.cols_eq, Nat.zero_le, Nat.zero_add, hFits.2, true_and]
    by_cases hMark : k ≤ i
    · by_cases hShape : i < n.rows ∧ j < n.cols
      · simp only [hShape, hMark, hi, and_self, if_true]
      · simp only [hShape, if_false]
    · simp only [hMark, false_and, if_false, h.entry_eq i j (Nat.lt_of_not_le hMark)]
  · exact .none

theorem FilledCols.placeColumns? {k n : Nat} {m m' : Mat α} (h : FilledCols k m m')
    (block : Mat α) :
    Option.Rel (FilledCols (k + n)) (m.placeColumns? k n block) (m'.placeColumns? k n block) := by
  unfold Mat.placeColumns?
  rw [h.rows_eq, h.cols_eq]
  split
  · rename_i hFits
    refine .some ⟨h.rows_eq, h.cols_eq, ?_⟩
    intro i j hj
    simp only [place, entry_ofFn, h.rows_eq, h.cols_eq, Nat.zero_le, Nat.zero_add, hFits.2.1,
      hFits.2.2, true_and]
    by_cases hMark : k ≤ j
    · by_cases hShape : i < m'.rows ∧ j < m'.cols
      · simp only [hShape, hMark, hj, and_self, if_true]
      · simp only [hShape, if_false]
    · simp only [hMark, false_and, and_false, if_false, h.entry_eq i j (Nat.lt_of_not_le hMark)]
  · exact .none

theorem FilledCols.putColumn {k : Nat} {m n : Mat α} (h : FilledCols k m n) (v : Vec α) :
    FilledCols (k + 1) (m.putColumn k v) (n.putColumn k v) where
  rows_eq := h.rows_eq
  cols_eq := h.cols_eq
  entry_eq i j hj := by
    simp only [Mat.putColumn, entry_ofFn, h.rows_eq, h.cols_eq]
    by_cases hMark : j = k
    · simp only [hMark, if_true]
    · simp only [hMark, if_false, h.entry_eq i j (by omega)]

end Mat

end MultibodyCost
