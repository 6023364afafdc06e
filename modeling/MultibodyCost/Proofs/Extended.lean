import MultibodyCost.Proofs.Linear.Forms
import MultibodyCost.Proofs.Real

/-! # Exact scalars with infinities

The extended reals are a scalar type too, exact and with bounds that may be infinite. Vectors and
matrices of reals are read in them entry by entry, and what is computed from such entries is
computed as over the reals; arithmetic on the infinities themselves is not relied upon.
-/

namespace MultibodyCost

noncomputable instance literalExtended : OfScientific EReal where
  ofScientific m s e := ((OfScientific.ofScientific m s e : ℝ) : EReal)

open Classical in
noncomputable instance : Scalar EReal where
  decLt := inferInstance
  decLe := inferInstance
  isFinite x := decide (x ≠ ⊤ ∧ x ≠ ⊥)

namespace Scalar

theorem isFinite_iff {x : EReal} : Scalar.isFinite x = true ↔ x ≠ ⊤ ∧ x ≠ ⊥ := decide_eq_true_iff

theorem half_extended : (0.5 : EReal) = ((0.5 : ℝ) : EReal) := rfl

theorem sum_extended (n : Nat) (f : Nat → ℝ) :
    sum n (fun i => (f i : EReal)) = ((sum n f : ℝ) : EReal) := by
  induction n with
  | zero => rfl
  | succ n ih =>
    rw [sum_succ, sum_succ, ih]
    exact (EReal.coe_add _ _).symm

end Scalar

namespace Vec

noncomputable def extended (v : Vec ℝ) : Vec EReal := ofFn v.size fun i => (v.entry i : EReal)

@[simp] theorem size_extended (v : Vec ℝ) : v.extended.size = v.size := size_ofFn ..

theorem entry_extended (v : Vec ℝ) (i : Nat) : v.extended.entry i = (v.entry i : EReal) := by
  rw [extended, entry_ofFn]
  split
  · rfl
  · rename_i hi
    rw [entry_eq_zero (Nat.not_lt.mp hi)]
    rfl

theorem extended_ofFn (n : Nat) (f : Nat → ℝ) :
    (ofFn n f).extended = ofFn n fun i => (f i : EReal) := by
  refine ext_entry (by rw [size_extended, size_ofFn, size_ofFn]) fun i hi => ?_
  rw [size_extended, size_ofFn] at hi
  rw [entry_extended, entry_ofFn_of_lt hi, entry_ofFn_of_lt hi]

theorem exists_extended {w : Vec EReal} (h : ∀ i, i < w.size → w.entry i ≠ ⊤ ∧ w.entry i ≠ ⊥) :
    ∃ v : Vec ℝ, v.extended = w := by
  refine ⟨ofFn w.size fun i => (w.entry i).toReal, ?_⟩
  rw [extended_ofFn]
  refine ext_entry (size_ofFn ..) fun i hi => ?_
  rw [size_ofFn] at hi
  rw [entry_ofFn_of_lt hi]
  exact EReal.coe_toReal (h i hi).1 (h i hi).2

theorem dot_extended (v w : Vec ℝ) : v.extended.dot w.extended = ((v.dot w : ℝ) : EReal) := by
  rw [dot, dot, size_extended, ← Scalar.sum_extended]
  refine Scalar.sum_congr fun i _ => ?_
  rw [entry_extended, entry_extended]
  exact (EReal.coe_mul _ _).symm

theorem mulEntries_extended (v w : Vec ℝ) :
    v.extended.mulEntries w.extended = (v.mulEntries w).extended := by
  rw [mulEntries, mulEntries, size_extended, extended_ofFn]
  congr 1
  funext i
  rw [entry_extended, entry_extended]
  exact (EReal.coe_mul _ _).symm

end Vec

namespace Mat

noncomputable def extended (m : Mat ℝ) : Mat EReal :=
  ofFn m.rows m.cols fun i j => (m.entry i j : EReal)

theorem extended_ofFn (r c : Nat) (f : Nat → Nat → ℝ) :
    (ofFn r c f).extended = ofFn r c fun i j => (f i j : EReal) := by
  refine ext_entry rfl rfl fun i j (hi : i < r) (hj : j < c) => ?_
  rw [extended, rows_ofFn, cols_ofFn, entry_ofFn_of_lt hi hj, entry_ofFn_of_lt hi hj,
    entry_ofFn_of_lt hi hj]

theorem extended_diagonal_ofFn (n : Nat) (f : Nat → ℝ) : (diagonal (Vec.ofFn n f)).extended =
    ofFn n n fun i j => if i = j then (f i : EReal) else 0 := by
  rw [diagonal, extended_ofFn, Vec.size_ofFn]
  refine ext_entry rfl rfl fun i j (hi : i < n) (hj : j < n) => ?_
  rw [entry_ofFn_of_lt hi hj, entry_ofFn_of_lt hi hj, Vec.entry_ofFn_of_lt hi]
  split
  · rfl
  · rfl

end Mat

end MultibodyCost
