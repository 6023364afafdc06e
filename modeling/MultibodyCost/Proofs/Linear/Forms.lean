import MultibodyCost.Proofs.Linear.Blocks
import MultibodyCost.Proofs.Linear.Filling

/-! # Forms

A vector is zero past its end and a matrix outside its shape, so a sum of products may run over any
range that covers one of the factors. With that a form `aᵀ M b` is a double sum over the lengths of
`a` and `b`, whatever the shape of `M`, and a matrix `Xᵀ H Y` with `H` diagonal pairs the images of
its arguments under `X` and `Y` one component at a time.
-/

namespace MultibodyCost

open Finset

namespace Scalar

theorem sum_eq_finset (n : Nat) (f : Nat → ℝ) : sum n f = ∑ i ∈ range n, f i := by
  induction n with
  | zero => rfl
  | succ n ih => rw [sum_succ, sum_range_succ, ih]

theorem sum_eq_sum_of_tails {f : Nat → ℝ} {m n : Nat} (hm : ∀ i, m ≤ i → f i = 0)
    (hn : ∀ i, n ≤ i → f i = 0) : ∑ i ∈ range m, f i = ∑ i ∈ range n, f i := by
  rw [← eventually_constant_sum hm (Nat.le_max_left m n),
    ← eventually_constant_sum hn (Nat.le_max_right m n)]

end Scalar

namespace Vec

theorem entry_eq_zero {v : Vec ℝ} {i : Nat} (h : v.size ≤ i) : v.entry i = 0 := by
  simp [entry, Array.getD, Nat.not_lt.mpr h]

theorem entry_scale (v : Vec ℝ) (c : ℝ) (k : Nat) : (v.scale c).entry k = v.entry k * c := by
  rw [scale, entry_ofFn]
  split
  · rfl
  · rename_i hk
    rw [entry_eq_zero (Nat.not_lt.mp hk), zero_mul]

theorem dot_eq_sum (v w : Vec ℝ) : v.dot w = ∑ i ∈ range v.size, v.entry i * w.entry i :=
  Scalar.sum_eq_finset _ _

theorem normSq_nonneg (v : Vec ℝ) : 0 ≤ v.normSq := by
  rw [normSq, dot_eq_sum]
  exact sum_nonneg fun i _ => mul_self_nonneg (v.entry i)

end Vec

namespace Mat

theorem entry_scale (m : Mat ℝ) (c : ℝ) (i j : Nat) : (m.scale c).entry i j = m.entry i j * c := by
  rw [scale, entry_ofFn]
  split
  · rfl
  · rename_i hOutside
    rw [entry, if_neg hOutside, zero_mul]

structure NonnegDiagonal (h : Mat ℝ) : Prop where
  offDiagonal : ∀ i j, i ≠ j → h.entry i j = 0
  nonneg : ∀ i, 0 ≤ h.entry i i

theorem nonnegDiagonal_ofFn {n m : Nat} {f : Nat → Nat → ℝ} (hOff : ∀ i j, i ≠ j → f i j = 0)
    (hOn : ∀ i, 0 ≤ f i i) : (ofFn n m f).NonnegDiagonal := by
  constructor
  · intro i j hij
    rw [entry_ofFn, hOff i j hij, ite_self]
  · intro i
    rw [entry_ofFn]
    split
    · exact hOn i
    · exact le_rfl

theorem entry_trMul (x y : Mat ℝ) (i j : Nat) :
    (x.trMul y).entry i j = ∑ k ∈ range x.rows, x.entry k i * y.entry k j := by
  rw [trMul, entry_ofFn, Scalar.sum_eq_finset]
  split
  · rfl
  · rename_i hOutside
    refine (sum_eq_zero fun k _ => ?_).symm
    rcases not_and_or.mp hOutside with hi | hj
    · rw [entry_eq_zero (.inr (Nat.not_lt.mp hi)), zero_mul]
    · rw [entry_eq_zero (m := y) (.inr (Nat.not_lt.mp hj)), mul_zero]

theorem entry_mulVec (m : Mat ℝ) (v : Vec ℝ) (i : Nat) :
    (m.mulVec v).entry i = ∑ j ∈ range v.size, m.entry i j * v.entry j := by
  have hCols : ∀ j, m.cols ≤ j → m.entry i j * v.entry j = 0 := by
    intro j hj
    rw [entry_eq_zero (.inr hj), zero_mul]
  have hSize : ∀ j, v.size ≤ j → m.entry i j * v.entry j = 0 := by
    intro j hj
    rw [Vec.entry_eq_zero hj, mul_zero]
  rw [mulVec, Vec.entry_ofFn, Scalar.sum_eq_finset]
  split
  · exact Scalar.sum_eq_sum_of_tails hCols hSize
  · rename_i hRow
    refine (sum_eq_zero fun j _ => ?_).symm
    rw [entry_eq_zero (.inl (Nat.not_lt.mp hRow)), zero_mul]

theorem entry_trMulVec (m : Mat ℝ) (v : Vec ℝ) (i : Nat) :
    (m.trMulVec v).entry i = ∑ k ∈ range m.rows, m.entry k i * v.entry k := by
  rw [trMulVec, Vec.entry_ofFn, Scalar.sum_eq_finset]
  split
  · rfl
  · rename_i hCol
    refine (sum_eq_zero fun k _ => ?_).symm
    rw [entry_eq_zero (.inr (Nat.not_lt.mp hCol)), zero_mul]

theorem dot_mulVec (m : Mat ℝ) (a b : Vec ℝ) : a.dot (m.mulVec b) =
    ∑ i ∈ range a.size, ∑ j ∈ range b.size, a.entry i * m.entry i j * b.entry j := by
  rw [Vec.dot_eq_sum]
  apply sum_congr rfl
  intro i _
  rw [entry_mulVec, mul_sum]
  exact sum_congr rfl fun j _ => (mul_assoc _ _ _).symm

theorem entry_diagonal (v : Vec ℝ) (i j : Nat) :
    (diagonal v).entry i j = if i = j then v.entry i else 0 := by
  rw [diagonal, entry_ofFn]
  split
  · rfl
  · rename_i hOutside
    split
    · rename_i hij
      rw [Vec.entry_eq_zero (Nat.not_lt.mp fun hi => hOutside ⟨hi, hij ▸ hi⟩)]
    · rfl

theorem dot_mulVec_diagonal (v s : Vec ℝ) : s.dot ((diagonal v).mulVec s) =
    ∑ i ∈ range s.size, v.entry i * (s.entry i * s.entry i) := by
  rw [dot_mulVec]
  refine sum_congr rfl fun i hi => ?_
  rw [sum_eq_single_of_mem i hi, entry_diagonal, if_pos rfl]
  · ring
  · intro j _ hj
    rw [entry_diagonal, if_neg hj.symm, mul_zero, zero_mul]

theorem NonnegDiagonal.entry_mul {h : Mat ℝ} (hh : h.NonnegDiagonal) (y : Mat ℝ) (k j : Nat) :
    (h.mul y).entry k j = h.entry k k * y.entry k j := by
  rw [mul, entry_ofFn, Scalar.sum_eq_finset]
  split
  · refine sum_eq_single k (fun l _ hl => ?_) fun hk => ?_
    · rw [hh.offDiagonal k l hl.symm, zero_mul]
    · rw [entry_eq_zero (.inr (Nat.not_lt.mp (mt mem_range.mpr hk))), zero_mul]
  · rename_i hOutside
    rcases not_and_or.mp hOutside with hk | hj
    · rw [entry_eq_zero (.inl (Nat.not_lt.mp hk)), zero_mul]
    · rw [entry_eq_zero (m := y) (.inr (Nat.not_lt.mp hj)), mul_zero]

variable {h x y u : Mat ℝ}

theorem NonnegDiagonal.entry_trMul_mul (hh : h.NonnegDiagonal) (x y : Mat ℝ) (i j : Nat) :
    (x.trMul (h.mul y)).entry i j =
      ∑ k ∈ range x.rows, h.entry k k * (x.entry k i * y.entry k j) := by
  rw [entry_trMul]
  apply sum_congr rfl
  intro k _
  rw [hh.entry_mul]
  ring

theorem NonnegDiagonal.symmetric (hh : h.NonnegDiagonal) (x : Mat ℝ) (i j : Nat) :
    (x.trMul (h.mul x)).entry i j = (x.trMul (h.mul x)).entry j i := by
  rw [hh.entry_trMul_mul, hh.entry_trMul_mul]
  exact sum_congr rfl fun k _ => by rw [mul_comm (x.entry k i)]

theorem NonnegDiagonal.dot_trMul_mul (hh : h.NonnegDiagonal) (x y : Mat ℝ) (a b : Vec ℝ) :
    a.dot ((x.trMul (h.mul y)).mulVec b) =
      ∑ k ∈ range x.rows, h.entry k k * ((x.mulVec a).entry k * (y.mulVec b).entry k) := by
  rw [dot_mulVec]
  calc ∑ i ∈ range a.size, ∑ j ∈ range b.size,
        a.entry i * (x.trMul (h.mul y)).entry i j * b.entry j
      = ∑ i ∈ range a.size, ∑ j ∈ range b.size, ∑ k ∈ range x.rows,
          h.entry k k * ((x.entry k i * a.entry i) * (y.entry k j * b.entry j)) := by
        refine sum_congr rfl fun i _ => sum_congr rfl fun j _ => ?_
        rw [hh.entry_trMul_mul, mul_sum, sum_mul]
        exact sum_congr rfl fun k _ => by ring
    _ = ∑ k ∈ range x.rows, ∑ i ∈ range a.size, ∑ j ∈ range b.size,
          h.entry k k * ((x.entry k i * a.entry i) * (y.entry k j * b.entry j)) :=
        (sum_congr rfl fun _ _ => sum_comm).trans sum_comm
    _ = ∑ k ∈ range x.rows, h.entry k k * ((x.mulVec a).entry k * (y.mulVec b).entry k) := by
        refine sum_congr rfl fun k _ => ?_
        rw [entry_mulVec, entry_mulVec, sum_mul_sum, mul_sum]
        exact sum_congr rfl fun i _ => (mul_sum _ _ _).symm

/-- Both arguments together are a vector with the two matrices side by side, and the form a sum of
squares. -/
theorem NonnegDiagonal.form_nonneg (hh : h.NonnegDiagonal) (hRows : x.rows = u.rows)
    (a b : Vec ℝ) :
    0 ≤ a.dot ((x.trMul (h.mul x)).mulVec a) + 2 * a.dot ((x.trMul (h.mul u)).mulVec b) +
      b.dot ((u.trMul (h.mul u)).mulVec b) := by
  have hSquares : a.dot ((x.trMul (h.mul x)).mulVec a) + 2 * a.dot ((x.trMul (h.mul u)).mulVec b) +
      b.dot ((u.trMul (h.mul u)).mulVec b) =
        ∑ k ∈ range x.rows, h.entry k k * ((x.mulVec a).entry k + (u.mulVec b).entry k) ^ 2 := by
    rw [hh.dot_trMul_mul, hh.dot_trMul_mul, hh.dot_trMul_mul, ← hRows, mul_sum, ← sum_add_distrib,
      ← sum_add_distrib]
    exact sum_congr rfl fun k _ => by ring
  rw [hSquares]
  exact sum_nonneg fun k _ => mul_nonneg (hh.nonneg k) (sq_nonneg _)

end Mat

end MultibodyCost
