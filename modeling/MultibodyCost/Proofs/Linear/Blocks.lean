import MultibodyCost.Proofs.Linear.Filling
import MultibodyCost.Proofs.Real

/-! # Matrices along a diagonal

Two matrices along a diagonal, with one value everywhere else. Over the reals and with zero as that
value, products and sums are taken block by block, and the identity is made of two identities.
-/

namespace MultibodyCost

variable {α : Type} [Scalar α]

namespace Mat

/-- The matrices `a` and `b` along the diagonal, and `z` outside of them. -/
def directSum (z : α) (a b : Mat α) : Mat α :=
  ofFn (a.rows + b.rows) (a.cols + b.cols) fun i j =>
    if i < a.rows ∧ j < a.cols then a.entry i j
    else if a.rows ≤ i ∧ a.cols ≤ j then b.entry (i - a.rows) (j - a.cols)
    else z

theorem cols_directSum (z : α) (a b : Mat α) :
    (directSum z a b).cols = a.cols + b.cols := rfl

theorem entry_eq_zero {m : Mat α} {i j : Nat} (h : m.rows ≤ i ∨ m.cols ≤ j) : m.entry i j = 0 :=
  if_neg (by omega)

theorem entry_identity {n i j : Nat} (hi : i < n) (hj : j < n) :
    (identity n : Mat α).entry i j = if i = j then 1 else 0 :=
  entry_ofFn_of_lt hi hj

theorem entry_place_of_mem (m block : Mat α) {r c i j : Nat} (hi : r + i < m.rows) (hj : c + j < m.cols)
    (hRow : i < block.rows) (hCol : j < block.cols) :
    (m.place r c block).entry (r + i) (c + j) = block.entry i j := by
  rw [place, entry_ofFn_of_lt hi hj, if_pos (by omega), Nat.add_sub_cancel_left,
    Nat.add_sub_cancel_left]

theorem entry_place_of_not_mem (m block : Mat α) {r c i j : Nat}
    (h : ¬(r ≤ i ∧ i < r + block.rows ∧ c ≤ j ∧ j < c + block.cols)) :
    (m.place r c block).entry i j = m.entry i j := by
  rw [place, entry_ofFn, if_neg h]
  split
  · rfl
  · exact (entry_eq_zero (by omega)).symm

theorem eq_directSum {z : α} {m a b : Mat α} (hRows : m.rows = a.rows + b.rows)
    (hCols : m.cols = a.cols + b.cols)
    (hFirst : ∀ i j, i < a.rows → j < a.cols → m.entry i j = a.entry i j)
    (hSecond : ∀ i j, i < b.rows → j < b.cols →
      m.entry (a.rows + i) (a.cols + j) = b.entry i j)
    (hAbove : ∀ i j, i < a.rows → j < b.cols → m.entry i (a.cols + j) = z)
    (hBelow : ∀ i j, i < b.rows → j < a.cols → m.entry (a.rows + i) j = z) :
    m = directSum z a b := by
  apply ext_entry hRows hCols
  intro i j hi hj
  rw [hRows] at hi
  rw [hCols] at hj
  rw [directSum, entry_ofFn_of_lt hi hj]
  rcases Nat.lt_or_ge i a.rows with hUpper | hLower
  · rcases Nat.lt_or_ge j a.cols with hLeft | hRight
    · rw [if_pos ⟨hUpper, hLeft⟩, hFirst i j hUpper hLeft]
    · obtain ⟨j, rfl⟩ := Nat.exists_eq_add_of_le hRight
      rw [if_neg (by omega), if_neg (by omega), hAbove i j hUpper (by omega)]
  · obtain ⟨i, rfl⟩ := Nat.exists_eq_add_of_le hLower
    rcases Nat.lt_or_ge j a.cols with hLeft | hRight
    · rw [if_neg (by omega), if_neg (by omega), hBelow i j (by omega) hLeft]
    · obtain ⟨j, rfl⟩ := Nat.exists_eq_add_of_le hRight
      rw [if_neg (by omega), if_pos (by omega), hSecond i j (by omega) (by omega),
        Nat.add_sub_cancel_left, Nat.add_sub_cancel_left]

section Entries

variable (z : α) (a b : Mat α) {i j : Nat}

theorem entry_directSum_first (hi : i < a.rows) (hj : j < a.cols) :
    (directSum z a b).entry i j = a.entry i j := by
  rw [directSum, entry_ofFn_of_lt (by omega) (by omega), if_pos ⟨hi, hj⟩]

theorem entry_directSum_second (hi : i < b.rows) (hj : j < b.cols) :
    (directSum z a b).entry (a.rows + i) (a.cols + j) = b.entry i j := by
  rw [directSum, entry_ofFn_of_lt (by omega) (by omega), if_neg (by omega), if_pos (by omega),
    Nat.add_sub_cancel_left, Nat.add_sub_cancel_left]

theorem entry_directSum_above (hi : i < a.rows) (hj : j < b.cols) :
    (directSum z a b).entry i (a.cols + j) = z := by
  rw [directSum, entry_ofFn_of_lt (by omega) (by omega), if_neg (by omega), if_neg (by omega)]

theorem entry_directSum_below (hi : i < b.rows) (hj : j < a.cols) :
    (directSum z a b).entry (a.rows + i) j = z := by
  rw [directSum, entry_ofFn_of_lt (by omega) (by omega), if_neg (by omega), if_neg (by omega)]

end Entries

end Mat

namespace Scalar

theorem sum_eq_zero {n : Nat} {f : Nat → ℝ} (h : ∀ i, i < n → f i = 0) : sum n f = 0 := by
  induction n with
  | zero => rfl
  | succ n ih =>
    rw [sum_succ, ih fun i hi => h i (Nat.lt_succ_of_lt hi), h n (Nat.lt_succ_self n), add_zero]

theorem sum_add (m n : Nat) (f : Nat → ℝ) : sum (m + n) f = sum m f + sum n fun i => f (m + i) := by
  induction n with
  | zero => exact (add_zero (sum m f)).symm
  | succ n ih => rw [← Nat.add_assoc, sum_succ, sum_succ, ih, add_assoc]

theorem sum_unit {n i : Nat} (hi : i < n) (f : Nat → ℝ) :
    (sum n fun k => (if i = k then 1 else 0) * f k) = f i := by
  induction n with
  | zero => cases hi
  | succ n ih =>
    rcases Nat.lt_succ_iff_lt_or_eq.mp hi with hBefore | rfl
    · rw [sum_succ, ih hBefore, if_neg (Nat.ne_of_lt hBefore), zero_mul, add_zero]
    · have hNone : ∀ k, k < i → (if i = k then (1 : ℝ) else 0) * f k = 0 := by
        intro k hk
        rw [if_neg (Nat.ne_of_gt hk), zero_mul]
      rw [sum_succ, sum_eq_zero hNone, if_pos rfl, one_mul, zero_add]

end Scalar

namespace Mat

variable {a b c d : Mat ℝ}

theorem scale_one (a : Mat ℝ) : a.scale 1 = a := by
  refine ext_entry (a := a.scale 1) rfl rfl ?_
  intro i j hi hj
  have hEntry : (a.scale 1).entry i j = a.entry i j * 1 := entry_ofFn_of_lt hi hj
  rw [hEntry, mul_one]

theorem entry_mul (a c : Mat ℝ) {i j : Nat} (hi : i < a.rows) (hj : j < c.cols) :
    (a.mul c).entry i j = Scalar.sum a.cols fun k => a.entry i k * c.entry k j :=
  entry_ofFn_of_lt hi hj

theorem entry_add (a c : Mat ℝ) {i j : Nat} (hi : i < a.rows) (hj : j < a.cols) :
    (a.add c).entry i j = a.entry i j + c.entry i j :=
  entry_ofFn_of_lt hi hj

theorem identity_mul {n : Nat} (h : c.rows = n) : (identity n).mul c = c := by
  refine ext_entry (a := (identity n).mul c) h.symm rfl ?_
  intro i j hi hj
  replace hi : i < n := hi
  rw [entry_mul (identity n) c hi hj, ← Scalar.sum_unit hi fun k => c.entry k j]
  apply Scalar.sum_congr
  intro k hk
  rw [entry_identity hi hk]

theorem add_scale_neg_one (a : Mat ℝ) : a.add (a.scale (-1)) = zeros a.rows a.cols := by
  refine ext_entry rfl rfl ?_
  intro i j hi hj
  have hEntry : (a.scale (-1)).entry i j = a.entry i j * -1 := entry_ofFn_of_lt hi hj
  rw [entry_add a _ hi hj, hEntry, entry_zeros, mul_neg_one, add_neg_cancel]

section Square

variable {n : Nat} {f g h : Nat → Nat → ℝ}

theorem ofFn_mul (hEntry : ∀ i j, i < n → j < n → h i j = Scalar.sum n fun k => f i k * g k j) :
    ofFn n n h = (ofFn n n f).mul (ofFn n n g) := by
  refine ext_entry rfl rfl ?_
  intro i j hi hj
  replace hi : i < n := hi
  replace hj : j < n := hj
  rw [entry_mul (ofFn n n f) (ofFn n n g) hi hj, entry_ofFn_of_lt hi hj, hEntry i j hi hj]
  apply Scalar.sum_congr
  intro k hk
  rw [entry_ofFn_of_lt hi hk, entry_ofFn_of_lt hk hj]

theorem ofFn_identity (hEntry : ∀ i j, i < n → j < n → f i j = if i = j then 1 else 0) :
    ofFn n n f = identity n := by
  refine ext_entry rfl rfl ?_
  intro i j hi hj
  replace hi : i < n := hi
  replace hj : j < n := hj
  rw [entry_identity hi hj, entry_ofFn_of_lt hi hj, hEntry i j hi hj]

theorem ofFn_add_neg (hEntry : ∀ i j, i < n → j < n → g i j = -f i j) :
    (ofFn n n f).add (ofFn n n g) = zeros n n := by
  refine ext_entry rfl rfl ?_
  intro i j hi hj
  replace hi : i < n := hi
  replace hj : j < n := hj
  rw [entry_add (ofFn n n f) (ofFn n n g) hi hj, entry_ofFn_of_lt hi hj, entry_ofFn_of_lt hi hj,
    hEntry i j hi hj, add_neg_cancel, entry_zeros]

end Square

theorem mul_directSum (hFirst : a.cols = c.rows) (hSecond : b.cols = d.rows) :
    (directSum 0 a b).mul (directSum 0 c d) = directSum 0 (a.mul c) (b.mul d) := by
  -- A row meets a column in the terms of the first blocks, then in those of the second.
  have split : ∀ i j, i < a.rows + b.rows → j < c.cols + d.cols →
      ((directSum 0 a b).mul (directSum 0 c d)).entry i j =
        (Scalar.sum a.cols fun k => (directSum 0 a b).entry i k * (directSum 0 c d).entry k j) +
        Scalar.sum b.cols fun k =>
          (directSum 0 a b).entry i (a.cols + k) * (directSum 0 c d).entry (a.cols + k) j := by
    intro i j hi hj
    rw [entry_mul (directSum 0 a b) (directSum 0 c d) hi hj, cols_directSum, Scalar.sum_add]
  apply eq_directSum rfl rfl
  · intro i j hi hj
    replace hi : i < a.rows := hi
    replace hj : j < c.cols := hj
    have hNone : ∀ k, k < b.cols →
        (directSum 0 a b).entry i (a.cols + k) * (directSum 0 c d).entry (a.cols + k) j = 0 := by
      intro k hk
      rw [entry_directSum_above 0 a b hi hk, zero_mul]
    rw [split i j (by omega) (by omega), Scalar.sum_eq_zero hNone, add_zero, entry_mul a c hi hj]
    apply Scalar.sum_congr
    intro k hk
    rw [entry_directSum_first 0 a b hi hk, entry_directSum_first 0 c d (by omega) hj]
  · intro i j hi hj
    replace hi : i < b.rows := hi
    replace hj : j < d.cols := hj
    change ((directSum 0 a b).mul (directSum 0 c d)).entry (a.rows + i) (c.cols + j) = _
    have hNone : ∀ k, k < a.cols → (directSum 0 a b).entry (a.rows + i) k *
        (directSum 0 c d).entry k (c.cols + j) = 0 := by
      intro k hk
      rw [entry_directSum_below 0 a b hi hk, zero_mul]
    rw [split _ _ (by omega) (by omega), Scalar.sum_eq_zero hNone, zero_add, entry_mul b d hi hj]
    apply Scalar.sum_congr
    intro k hk
    rw [entry_directSum_second 0 a b hi hk, hFirst, entry_directSum_second 0 c d (by omega) hj]
  · intro i j hi hj
    replace hi : i < a.rows := hi
    replace hj : j < d.cols := hj
    change ((directSum 0 a b).mul (directSum 0 c d)).entry i (c.cols + j) = 0
    rw [split _ _ (by omega) (by omega), Scalar.sum_eq_zero, Scalar.sum_eq_zero, add_zero]
    · intro k hk
      rw [entry_directSum_above 0 a b hi hk, zero_mul]
    · intro k hk
      rw [entry_directSum_above 0 c d (by omega) hj, mul_zero]
  · intro i j hi hj
    replace hi : i < b.rows := hi
    replace hj : j < c.cols := hj
    change ((directSum 0 a b).mul (directSum 0 c d)).entry (a.rows + i) j = 0
    rw [split _ _ (by omega) (by omega), Scalar.sum_eq_zero, Scalar.sum_eq_zero, add_zero]
    · intro k hk
      rw [hFirst, entry_directSum_below 0 c d (by omega) hj, mul_zero]
    · intro k hk
      rw [entry_directSum_below 0 a b hi hk, zero_mul]

theorem add_directSum (hRows : a.rows = c.rows) (hCols : a.cols = c.cols)
    (hRows' : b.rows = d.rows) (hCols' : b.cols = d.cols) :
    (directSum 0 a b).add (directSum 0 c d) = directSum 0 (a.add c) (b.add d) := by
  have entryAt : ∀ i j, i < a.rows + b.rows → j < a.cols + b.cols →
      ((directSum 0 a b).add (directSum 0 c d)).entry i j =
        (directSum 0 a b).entry i j + (directSum 0 c d).entry i j :=
    fun i j hi hj => entry_add (directSum 0 a b) (directSum 0 c d) hi hj
  apply eq_directSum rfl rfl
  · intro i j hi hj
    replace hi : i < a.rows := hi
    replace hj : j < a.cols := hj
    rw [entryAt i j (by omega) (by omega), entry_directSum_first 0 a b hi hj,
      entry_directSum_first 0 c d (by omega) (by omega), entry_add a c hi hj]
  · intro i j hi hj
    replace hi : i < b.rows := hi
    replace hj : j < b.cols := hj
    change ((directSum 0 a b).add (directSum 0 c d)).entry (a.rows + i) (a.cols + j) = _
    rw [entryAt _ _ (by omega) (by omega), entry_directSum_second 0 a b hi hj, hRows, hCols,
      entry_directSum_second 0 c d (by omega) (by omega), entry_add b d hi hj]
  · intro i j hi hj
    replace hi : i < a.rows := hi
    replace hj : j < b.cols := hj
    change ((directSum 0 a b).add (directSum 0 c d)).entry i (a.cols + j) = 0
    rw [entryAt _ _ (by omega) (by omega), entry_directSum_above 0 a b hi hj, hCols,
      entry_directSum_above 0 c d (by omega) (by omega), add_zero]
  · intro i j hi hj
    replace hi : i < b.rows := hi
    replace hj : j < a.cols := hj
    change ((directSum 0 a b).add (directSum 0 c d)).entry (a.rows + i) j = 0
    rw [entryAt _ _ (by omega) (by omega),
      entry_directSum_below 0 a b hi hj, hRows, entry_directSum_below 0 c d (by omega) (by omega),
      add_zero]

theorem directSum_identity (m n : Nat) :
    directSum (0 : ℝ) (identity m) (identity n) = identity (m + n) := by
  symm
  apply eq_directSum rfl rfl
  · intro i j hi hj
    replace hi : i < m := hi
    replace hj : j < m := hj
    rw [entry_identity (by omega) (by omega), entry_identity hi hj]
  · intro i j hi hj
    replace hi : i < n := hi
    replace hj : j < n := hj
    change (identity (m + n)).entry (m + i) (m + j) = _
    rw [entry_identity (by omega) (by omega), entry_identity hi hj]
    simp only [Nat.add_left_cancel_iff]
  · intro i j hi hj
    replace hi : i < m := hi
    replace hj : j < n := hj
    change (identity (m + n)).entry i (m + j) = 0
    rw [entry_identity (by omega) (by omega), if_neg (by omega)]
  · intro i j hi hj
    replace hi : i < n := hi
    replace hj : j < m := hj
    change (identity (m + n)).entry (m + i) j = 0
    rw [entry_identity (by omega) (by omega), if_neg (by omega)]

theorem directSum_zeros (m n : Nat) :
    directSum (0 : ℝ) (zeros m m) (zeros n n) = zeros (m + n) (m + n) := by
  symm
  apply eq_directSum rfl rfl
  all_goals
    intro i j _ _
    simp only [entry_zeros]

end Mat

end MultibodyCost
