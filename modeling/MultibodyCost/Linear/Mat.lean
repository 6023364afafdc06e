import MultibodyCost.Linear.Vec

/-!
# Matrices of any shape

A matrix carries its two dimensions and its entries row after row. A matrix without columns still
has rows, so shapes are never guessed from the entries. Reading outside the shape gives zero;
a matrix is determined by its shape and its entries (`ext_entry`).

Products add up every term, zeros included: a zero times an undefined entry is undefined.
-/

namespace MultibodyCost

structure Mat (α : Type) where
  rows : Nat
  cols : Nat
  /-- The entry at row `i` and column `j` stands at place `i * cols + j`. -/
  entries : Array α
  size_eq : entries.size = rows * cols

namespace Mat

variable {α : Type} [Scalar α]

def entry (m : Mat α) (i j : Nat) : α :=
  if i < m.rows ∧ j < m.cols then m.entries.getD (i * m.cols + j) 0 else 0

def ofFn (rows cols : Nat) (f : Nat → Nat → α) : Mat α where
  rows := rows
  cols := cols
  entries := Array.ofFn fun k : Fin (rows * cols) => f (k / cols) (k % cols)
  size_eq := Array.size_ofFn

omit [Scalar α] in
@[simp] theorem rows_ofFn (r c : Nat) (f : Nat → Nat → α) : (ofFn r c f).rows = r := rfl

omit [Scalar α] in
@[simp] theorem cols_ofFn (r c : Nat) (f : Nat → Nat → α) : (ofFn r c f).cols = c := rfl

theorem place_lt {r c i j : Nat} (hi : i < r) (hj : j < c) : i * c + j < r * c :=
  calc i * c + j < i * c + c := Nat.add_lt_add_left hj _
    _ = (i + 1) * c := (Nat.succ_mul i c).symm
    _ ≤ r * c := Nat.mul_le_mul_right c hi

@[simp] theorem entry_ofFn_of_lt {r c : Nat} {f : Nat → Nat → α} {i j : Nat}
    (hi : i < r) (hj : j < c) : (ofFn r c f).entry i j = f i j := by
  have hc : 0 < c := Nat.lt_of_le_of_lt (Nat.zero_le j) hj
  have hdiv : (i * c + j) / c = i := by
    rw [Nat.mul_comm, Nat.mul_add_div hc, Nat.div_eq_of_lt hj, Nat.add_zero]
  have hmod : (i * c + j) % c = j := by
    rw [Nat.mul_comm, Nat.mul_add_mod, Nat.mod_eq_of_lt hj]
  simp [entry, ofFn, hi, hj, Array.getD, place_lt hi hj, hdiv, hmod]

theorem ext_entry {a b : Mat α} (rows_eq : a.rows = b.rows) (cols_eq : a.cols = b.cols)
    (entry_eq : ∀ i j, i < a.rows → j < a.cols → a.entry i j = b.entry i j) : a = b := by
  obtain ⟨r, c, xs, hx⟩ := a
  obtain ⟨r', c', ys, hy⟩ := b
  obtain rfl : r = r' := rows_eq
  obtain rfl : c = c' := cols_eq
  have hxy : xs = ys := by
    apply Array.ext (hx.trans hy.symm)
    intro k hkx hky
    have hk : k < r * c := hx ▸ hkx
    have hc : 0 < c := Nat.pos_of_ne_zero fun h => by simp [h] at hk
    have hi : k / c < r := (Nat.div_lt_iff_lt_mul hc).2 hk
    have hj : k % c < c := Nat.mod_lt k hc
    have hplace : k / c * c + k % c = k := Nat.div_add_mod' k c
    have := entry_eq (k / c) (k % c) hi hj
    simpa [entry, hi, hj, hplace, Array.getD, hkx, hky] using this
  subst hxy
  rfl

def zeros (rows cols : Nat) : Mat α := ofFn rows cols fun _ _ => 0

def diagonal (v : Vec α) : Mat α :=
  ofFn v.size v.size fun i j => if i = j then v.entry i else 0

def identity (n : Nat) : Mat α := ofFn n n fun i j => if i = j then 1 else 0

def scale (m : Mat α) (c : α) : Mat α := ofFn m.rows m.cols fun i j => m.entry i j * c

def add (a b : Mat α) : Mat α := ofFn a.rows a.cols fun i j => a.entry i j + b.entry i j

def mul (a b : Mat α) : Mat α :=
  ofFn a.rows b.cols fun i j => Scalar.sum a.cols fun k => a.entry i k * b.entry k j

def trMul (a b : Mat α) : Mat α :=
  ofFn a.cols b.cols fun i j => Scalar.sum a.rows fun k => a.entry k i * b.entry k j

def mulVec (a : Mat α) (v : Vec α) : Vec α :=
  Vec.ofFn a.rows fun i => Scalar.sum a.cols fun k => a.entry i k * v.entry k

def trMulVec (a : Mat α) (v : Vec α) : Vec α :=
  Vec.ofFn a.cols fun i => Scalar.sum a.rows fun k => a.entry k i * v.entry k

def topRows (m : Mat α) (n : Nat) : Mat α := ofFn n m.cols fun i j => m.entry i j

/-- The matrix with `block` written over it, the corner of `block` at row `r` and column `c`. -/
def place (m : Mat α) (r c : Nat) (block : Mat α) : Mat α :=
  ofFn m.rows m.cols fun i j =>
    if r ≤ i ∧ i < r + block.rows ∧ c ≤ j ∧ j < c + block.cols then block.entry (i - r) (j - c)
    else m.entry i j

def putColumn (m : Mat α) (c : Nat) (v : Vec α) : Mat α :=
  ofFn m.rows m.cols fun i j => if j = c then v.entry i else m.entry i j

/-- Replaces the `n` columns from `c` on by `block`, where `block` has exactly that shape. -/
def placeColumns? (m : Mat α) (c n : Nat) (block : Mat α) : Option (Mat α) :=
  if c + n ≤ m.cols ∧ block.rows = m.rows ∧ block.cols = n then some (m.place 0 c block) else none

/-- Replaces the rows from `r` on by `block`, where `block` is as wide and fits. -/
def placeRows? (m : Mat α) (r : Nat) (block : Mat α) : Option (Mat α) :=
  if r + block.rows ≤ m.rows ∧ block.cols = m.cols then some (m.place r 0 block) else none

def add? (a b : Mat α) : Option (Mat α) :=
  if a.rows = b.rows ∧ a.cols = b.cols then some (a.add b) else none

@[simp] theorem rows_zeros (r c : Nat) : (zeros r c : Mat α).rows = r := rfl

@[simp] theorem cols_zeros (r c : Nat) : (zeros r c : Mat α).cols = c := rfl

@[simp] theorem rows_place (m : Mat α) (r c : Nat) (b : Mat α) :
    (m.place r c b).rows = m.rows := rfl

@[simp] theorem cols_place (m : Mat α) (r c : Nat) (b : Mat α) :
    (m.place r c b).cols = m.cols := rfl

@[simp] theorem entry_zeros (r c i j : Nat) : (zeros r c : Mat α).entry i j = 0 := by
  by_cases h : i < r ∧ j < c
  · exact entry_ofFn_of_lt h.1 h.2
  · exact if_neg h

end Mat

end MultibodyCost
