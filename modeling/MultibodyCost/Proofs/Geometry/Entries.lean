import MultibodyCost.Proofs.Geometry.Matrix
import MultibodyCost.Proofs.Linear.Blocks

/-! # Matrices by their entries

A matrix of size three or six, laid out as a matrix of any shape: products, sums and the identity
are those of the layout.
-/

namespace MultibodyCost

variable {i j : Nat}

namespace Mat3

theorem entry_mul (a b : Mat3 ℝ) (hi : i < 3) (hj : j < 3) :
    (a * b).entry i j = Scalar.sum 3 fun k => a.entry i k * b.entry k j := by
  interval_cases i
  all_goals interval_cases j
  all_goals
    simp only [mul_eq, entry, row, rowMul, transpose, Vec3.dot, Scalar.sum_succ, Scalar.sum_zero,
      zero_add]

theorem entry_add (a b : Mat3 ℝ) (hi : i < 3) (hj : j < 3) :
    (a + b).entry i j = a.entry i j + b.entry i j := by
  interval_cases i
  all_goals interval_cases j
  all_goals rfl

theorem entry_neg (a : Mat3 ℝ) (hi : i < 3) (hj : j < 3) : (-a).entry i j = -a.entry i j := by
  interval_cases i
  all_goals interval_cases j
  all_goals rfl

theorem entry_identity (hi : i < 3) (hj : j < 3) :
    (identity : Mat3 ℝ).entry i j = if i = j then 1 else 0 := by
  interval_cases i
  all_goals interval_cases j
  all_goals rfl

theorem entry_zero (hi : i < 3) (hj : j < 3) : (zero : Mat3 ℝ).entry i j = 0 := by
  interval_cases i
  all_goals interval_cases j
  all_goals rfl

theorem toMat_mul (a b : Mat3 ℝ) : (a * b).toMat = a.toMat.mul b.toMat :=
  Mat.ofFn_mul fun _ _ hi hj => entry_mul a b hi hj

theorem toMat_identity : (identity : Mat3 ℝ).toMat = Mat.identity 3 :=
  Mat.ofFn_identity fun _ _ hi hj => entry_identity hi hj

theorem toMat_add_neg (a : Mat3 ℝ) : a.toMat.add (-a).toMat = Mat.zeros 3 3 :=
  Mat.ofFn_add_neg fun _ _ hi hj => entry_neg a hi hj

end Mat3

namespace Mat6

theorem entry_ul (a : Mat6 ℝ) (hi : i < 3) (hj : j < 3) : a.entry i j = a.ul.entry i j := by
  rw [entry, decide_eq_true hi, decide_eq_true hj]

theorem entry_ur (a : Mat6 ℝ) (hi : i < 3) : a.entry i (3 + j) = a.ur.entry i j := by
  rw [entry, decide_eq_true hi, decide_eq_false (by omega), Nat.add_sub_cancel_left]

theorem entry_ll (a : Mat6 ℝ) (hj : j < 3) : a.entry (3 + i) j = a.ll.entry i j := by
  rw [entry, decide_eq_true hj, decide_eq_false (by omega), Nat.add_sub_cancel_left]

theorem entry_lr (a : Mat6 ℝ) : a.entry (3 + i) (3 + j) = a.lr.entry i j := by
  rw [entry, decide_eq_false (by omega), decide_eq_false (by omega), Nat.add_sub_cancel_left,
    Nat.add_sub_cancel_left]

theorem forall_entry {p : Nat → Nat → Prop} (hUl : ∀ i j, i < 3 → j < 3 → p i j)
    (hUr : ∀ i j, i < 3 → j < 3 → p i (3 + j)) (hLl : ∀ i j, i < 3 → j < 3 → p (3 + i) j)
    (hLr : ∀ i j, i < 3 → j < 3 → p (3 + i) (3 + j)) : ∀ i j, i < 6 → j < 6 → p i j := by
  intro i j hi hj
  rcases Nat.lt_or_ge i 3 with hUpper | hLower
  · rcases Nat.lt_or_ge j 3 with hLeft | hRight
    · exact hUl i j hUpper hLeft
    · obtain ⟨j, rfl⟩ := Nat.exists_eq_add_of_le hRight
      exact hUr i j hUpper (by omega)
  · obtain ⟨i, rfl⟩ := Nat.exists_eq_add_of_le hLower
    rcases Nat.lt_or_ge j 3 with hLeft | hRight
    · exact hLl i j (by omega) hLeft
    · obtain ⟨j, rfl⟩ := Nat.exists_eq_add_of_le hRight
      exact hLr i j (by omega) (by omega)

theorem sum_halves {f : Nat → ℝ} {a b c d : Mat3 ℝ} (hi : i < 3) (hj : j < 3)
    (hFirst : ∀ k, k < 3 → f k = a.entry i k * b.entry k j)
    (hSecond : ∀ k, k < 3 → f (3 + k) = c.entry i k * d.entry k j) :
    Scalar.sum 6 f = (a * b + c * d).entry i j := by
  rw [Mat3.entry_add _ _ hi hj, Mat3.entry_mul a b hi hj, Mat3.entry_mul c d hi hj,
    ← Scalar.sum_congr hFirst, ← Scalar.sum_congr hSecond]
  exact Scalar.sum_add 3 3 f

theorem entry_mul (a b : Mat6 ℝ) : ∀ i j, i < 6 → j < 6 →
    (a * b).entry i j = Scalar.sum 6 fun k => a.entry i k * b.entry k j := by
  apply forall_entry
  · intro i j hi hj
    rw [entry_ul _ hi hj, mul_eq]
    refine (sum_halves hi hj (fun k hk => ?_) fun k hk => ?_).symm
    · rw [entry_ul a hi hk, entry_ul b hk hj]
    · rw [entry_ur a hi, entry_ll b hj]
  · intro i j hi hj
    rw [entry_ur _ hi, mul_eq]
    refine (sum_halves hi hj (fun k hk => ?_) fun k hk => ?_).symm
    · rw [entry_ul a hi hk, entry_ur b hk]
    · rw [entry_ur a hi, entry_lr b]
  · intro i j hi hj
    rw [entry_ll _ hj, mul_eq]
    refine (sum_halves hi hj (fun k hk => ?_) fun k hk => ?_).symm
    · rw [entry_ll a hk, entry_ul b hk hj]
    · rw [entry_lr a, entry_ll b hj]
  · intro i j hi hj
    rw [entry_lr, mul_eq]
    refine (sum_halves hi hj (fun k hk => ?_) fun k hk => ?_).symm
    · rw [entry_ll a hk, entry_ur b hk]
    · rw [entry_lr a, entry_lr b]

theorem entry_neg (a : Mat6 ℝ) : ∀ i j, i < 6 → j < 6 → (-a).entry i j = -a.entry i j := by
  apply forall_entry
  · intro i j hi hj
    rw [entry_ul _ hi hj, entry_ul a hi hj]
    exact Mat3.entry_neg a.ul hi hj
  · intro i j hi hj
    rw [entry_ur _ hi, entry_ur a hi]
    exact Mat3.entry_neg a.ur hi hj
  · intro i j hi hj
    rw [entry_ll _ hj, entry_ll a hj]
    exact Mat3.entry_neg a.ll hi hj
  · intro i j hi hj
    rw [entry_lr, entry_lr]
    exact Mat3.entry_neg a.lr hi hj

theorem entry_identity : ∀ i j, i < 6 → j < 6 →
    (identity : Mat6 ℝ).entry i j = if i = j then 1 else 0 := by
  apply forall_entry
  · intro i j hi hj
    rw [entry_ul _ hi hj]
    exact Mat3.entry_identity hi hj
  · intro i j hi hj
    rw [entry_ur _ hi, if_neg (by omega)]
    exact Mat3.entry_zero hi hj
  · intro i j hi hj
    rw [entry_ll _ hj, if_neg (by omega)]
    exact Mat3.entry_zero hi hj
  · intro i j hi hj
    rw [entry_lr]
    simp only [Nat.add_left_cancel_iff]
    exact Mat3.entry_identity hi hj

theorem toMat_mul (a b : Mat6 ℝ) : (a * b).toMat = a.toMat.mul b.toMat :=
  Mat.ofFn_mul (entry_mul a b)

theorem toMat_identity : (identity : Mat6 ℝ).toMat = Mat.identity 6 :=
  Mat.ofFn_identity entry_identity

theorem toMat_add_neg (a : Mat6 ℝ) : a.toMat.add (-a).toMat = Mat.zeros 6 6 :=
  Mat.ofFn_add_neg (entry_neg a)

end Mat6

end MultibodyCost
