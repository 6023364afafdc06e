import MultibodyCost.Geometry.Motion
import MultibodyCost.Proofs.Linear.Blocks
import MultibodyCost.Proofs.Linear.Slices

/-! # Vectors moved along a column

An affine map with matrix `m` moves its value by `h` times column `i` of `m` where coordinate `i` of
its argument is moved by `h`. Over the reals the difference by `h` is then that column.
-/

namespace MultibodyCost

variable {α : Type} [Scalar α]

def Vec.along (v : Vec α) (h : α) (m : Mat α) (i : Nat) : Vec α :=
  ofFn v.size fun k => v.entry k + h * m.entry k i

def Mat.beside (a b : Mat α) : Mat α :=
  ofFn a.rows (a.cols + b.cols) fun i j =>
    if j < a.cols then a.entry i j else b.entry i (j - a.cols)

namespace Mat

theorem entry_beside {a b : Mat α} {i j : Nat} (hi : i < a.rows) (hj : j < a.cols + b.cols) :
    (a.beside b).entry i j = if j < a.cols then a.entry i j else b.entry i (j - a.cols) :=
  entry_ofFn_of_lt hi hj

theorem placeColumns?_zeros {block : Mat α} {r n n' : Nat} (hRows : block.rows = r)
    (hCols : block.cols = n) :
    (zeros r (n + n')).placeColumns? 0 n block = some (block.beside (zeros r n')) := by
  have hFits : 0 + n ≤ (zeros r (n + n') : Mat α).cols ∧
      block.rows = (zeros r (n + n') : Mat α).rows ∧ block.cols = n :=
    ⟨(Nat.zero_add n).le.trans (Nat.le_add_right n n'), hRows, hCols⟩
  rw [placeColumns?, if_pos hFits]
  refine congrArg some (ext_entry hRows.symm (congrArg (· + n') hCols.symm) fun i j hi hj => ?_)
  rw [entry_beside (hRows ▸ hi) (hCols ▸ hj)]
  by_cases hFront : j < block.cols
  · rw [if_pos hFront]
    have hi' : 0 + i < (zeros r (n + n') : Mat α).rows := (Nat.zero_add i).symm ▸ hi
    have hj' : 0 + j < (zeros r (n + n') : Mat α).cols := (Nat.zero_add j).symm ▸ hj
    simpa only [Nat.zero_add] using entry_place_of_mem _ block hi' hj' (hRows ▸ hi) hFront
  · rw [if_neg hFront, entry_place_of_not_mem _ _ (by omega), entry_zeros, entry_zeros]

theorem placeColumns?_twice {m a b : Mat α} {r n n' : Nat} (hRows : m.rows = r)
    (hCols : m.cols = n + n') (ha : a.rows = r ∧ a.cols = n) (hb : b.rows = r ∧ b.cols = n') :
    (m.placeColumns? 0 n a).bind (fun m => m.placeColumns? n n' b) = some (a.beside b) := by
  obtain ⟨haRows, haCols⟩ := ha
  obtain ⟨hbRows, hbCols⟩ := hb
  rw [placeColumns?, if_pos (by omega), Option.bind_some, placeColumns?, rows_place, cols_place,
    if_pos (by omega)]
  refine congrArg some (ext_entry ?_ ?_ fun i j hi hj => ?_)
  · exact hRows.trans haRows.symm
  · exact hCols.trans (congrArg₂ (· + ·) haCols hbCols).symm
  replace hi : i < m.rows := hi
  replace hj : j < m.cols := hj
  rw [entry_beside (by omega) (by omega)]
  by_cases hFront : j < a.cols
  · rw [if_pos hFront, entry_place_of_not_mem _ _ (by omega)]
    simpa only [Nat.zero_add] using entry_place_of_mem m a (show 0 + i < m.rows by omega)
      (show 0 + j < m.cols by omega) (by omega) hFront
  · obtain ⟨k, rfl⟩ := Nat.exists_eq_add_of_le (Nat.le_of_not_lt hFront)
    rw [if_neg hFront, Nat.add_sub_cancel_left, haCols]
    simpa only [Nat.zero_add] using entry_place_of_mem (m.place 0 0 a) b
      (show 0 + i < m.rows by omega) (show n + k < m.cols by omega) (by omega) (by omega)

end Mat

namespace Vec

@[simp] theorem size_along (v : Vec α) (h : α) (m : Mat α) (i : Nat) :
    (v.along h m i).size = v.size :=
  size_ofFn ..

theorem entry_along {v : Vec α} {h : α} {m : Mat α} {i k : Nat} (hk : k < v.size) :
    (v.along h m i).entry k = v.entry k + h * m.entry k i :=
  entry_ofFn_of_lt hk

theorem entry_add {v w : Vec α} {k : Nat} (hk : k < v.size) :
    (v.add w).entry k = v.entry k + w.entry k :=
  entry_ofFn_of_lt hk

theorem entry_sub {v w : Vec α} {k : Nat} (hk : k < v.size) :
    (v.sub w).entry k = v.entry k - w.entry k :=
  entry_ofFn_of_lt hk

theorem entry_put {v : Vec α} {i k : Nat} {x : α} (hk : k < v.size) :
    (v.put i x).entry k = if k = i then x else v.entry k :=
  entry_ofFn_of_lt hk

theorem slice_add {v w : Vec α} {i n : Nat} (h : i + n ≤ v.size) :
    (v.add w).slice i n = (v.slice i n).add (w.slice i n) := by
  apply ext_entry (by rw [size_slice, size_add, size_slice])
  intro k hk
  rw [size_slice] at hk
  rw [entry_slice _ hk, entry_add (by omega), entry_add (by rwa [size_slice]), entry_slice v hk,
    entry_slice w hk]

section Real

variable {v w : Vec ℝ} {h : ℝ} {m : Mat ℝ} {i : Nat}

theorem along_zeros (v : Vec ℝ) (h : ℝ) (r c i : Nat) : v.along h (.zeros r c) i = v := by
  apply ext_entry (size_along ..)
  intro k hk
  rw [size_along] at hk
  rw [entry_along hk, Mat.entry_zeros, mul_zero, add_zero]

theorem along_sub (v w : Vec ℝ) (h : ℝ) (m : Mat ℝ) (i : Nat) :
    (v.along h m i).sub w = (v.sub w).along h m i := by
  apply ext_entry (by rw [size_sub, size_along, size_along, size_sub])
  intro k hk
  rw [size_sub, size_along] at hk
  rw [entry_sub (by rwa [size_along]), entry_along hk, entry_along (by rwa [size_sub]), entry_sub hk]
  ring

theorem add_unit (hi : i < v.size) :
    v.add ((zeros v.size).put i h) = v.along h (.identity v.size) i := by
  apply ext_entry (by rw [size_add, size_along])
  intro k hk
  rw [size_add] at hk
  rw [entry_add hk, entry_put (by rwa [size_zeros]), entry_along hk, Mat.entry_identity hk hi]
  by_cases hSame : k = i
  · rw [if_pos hSame, if_pos hSame, mul_one]
  · rw [if_neg hSame, if_neg hSame, entry_zeros, mul_zero]

theorem put_add (hi : i < v.size) : v.put i (v.entry i + h) = v.along h (.identity v.size) i := by
  apply ext_entry (by rw [size_put, size_along])
  intro k hk
  rw [size_put] at hk
  rw [entry_put hk, entry_along hk, Mat.entry_identity hk hi]
  by_cases hSame : k = i
  · rw [if_pos hSame, if_pos hSame, mul_one, hSame]
  · rw [if_neg hSame, if_neg hSame, mul_zero, add_zero]

theorem entry_difference_along (hStep : h ≠ 0) {k : Nat} (hk : k < v.size) :
    (((v.along h m i).sub v).unscale h).entry k = m.entry k i := by
  rw [unscale, entry_ofFn_of_lt (by rwa [size_sub, size_along]), entry_sub (by rwa [size_along]),
    entry_along hk, add_sub_cancel_left, mul_div_cancel_left₀ _ hStep]

end Real

end Vec

theorem Vec3.toVec_sub (a b : Vec3 α) : (a - b).toVec = a.toVec.sub b.toVec := by
  apply Vec.ext_entry ((size_toVec _).trans (Vec.size_sub a.toVec b.toVec).symm)
  intro k hk
  have hThree : k < 3 := hk
  rw [Vec.entry_sub hThree]
  interval_cases k <;> rfl

theorem Motion.toVec_sub (a b : Motion α) : (a - b).toVec = a.toVec.sub b.toVec := by
  apply Vec.ext_entry ((size_toVec _).trans (Vec.size_sub a.toVec b.toVec).symm)
  intro k hk
  have hSix : k < 6 := hk
  rw [Vec.entry_sub hSix]
  interval_cases k <;> rfl

end MultibodyCost
