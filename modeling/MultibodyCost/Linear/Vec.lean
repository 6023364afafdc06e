import MultibodyCost.Scalar

/-!
# Vectors of any length

A vector is an array of scalars; its length is part of the value, so a disagreement of lengths is
something a caller can test for and report. Reading past the end gives zero, and every operation
is described by its length and its entries: two vectors of one length with the same entries are
equal (`ext_entry`).
-/

namespace MultibodyCost

abbrev Vec (α : Type) := Array α

namespace Vec

variable {α : Type} [Scalar α]

/-- The entry at `i`, zero from the end on. -/
def entry (v : Vec α) (i : Nat) : α := v.getD i 0

def ofFn (n : Nat) (f : Nat → α) : Vec α := Array.ofFn fun i : Fin n => f i

omit [Scalar α] in
@[simp] theorem size_ofFn (n : Nat) (f : Nat → α) : (ofFn n f).size = n := Array.size_ofFn

theorem entry_ofFn (n : Nat) (f : Nat → α) (i : Nat) :
    entry (ofFn n f) i = if i < n then f i else 0 := by
  rw [entry, ofFn, Array.getD_eq_getD_getElem?, Array.getElem?_ofFn]
  split <;> rfl

@[simp] theorem entry_ofFn_of_lt {n : Nat} {f : Nat → α} {i : Nat} (h : i < n) :
    entry (ofFn n f) i = f i := by
  rw [entry_ofFn, if_pos h]

theorem entry_eq_getElem (v : Vec α) {i : Nat} (h : i < v.size) : entry v i = v[i] := by
  simp [entry, Array.getD, h]

theorem ext_entry {v w : Vec α} (size_eq : v.size = w.size)
    (entry_eq : ∀ i, i < v.size → entry v i = entry w i) : v = w := by
  apply Array.ext size_eq
  intro i hv hw
  rw [← entry_eq_getElem v hv, ← entry_eq_getElem w hw, entry_eq i hv]

def zeros (n : Nat) : Vec α := ofFn n fun _ => 0

def add (v w : Vec α) : Vec α := ofFn v.size fun i => entry v i + entry w i

def sub (v w : Vec α) : Vec α := ofFn v.size fun i => entry v i - entry w i

def scale (v : Vec α) (c : α) : Vec α := ofFn v.size fun i => entry v i * c

def unscale (v : Vec α) (c : α) : Vec α := ofFn v.size fun i => entry v i / c

def mulEntries (v w : Vec α) : Vec α := ofFn w.size fun i => entry v i * entry w i

def dot (v w : Vec α) : α := Scalar.sum v.size fun i => entry v i * entry w i

def normSq (v : Vec α) : α := dot v v

def slice (v : Vec α) (i n : Nat) : Vec α := ofFn n fun k => entry v (i + k)

/-- The vector with the entries from place `i` on replaced by `block`. -/
def place (v : Vec α) (i : Nat) (block : Vec α) : Vec α :=
  ofFn v.size fun k => if i ≤ k ∧ k < i + block.size then entry block (k - i) else entry v k

def put (v : Vec α) (i : Nat) (x : α) : Vec α :=
  ofFn v.size fun k => if k = i then x else entry v k

/-- As `place`, but only where `block` fits. -/
def place? (v : Vec α) (i : Nat) (block : Vec α) : Option (Vec α) :=
  if i + block.size ≤ v.size then some (place v i block) else none

def add? (v w : Vec α) : Option (Vec α) :=
  if v.size = w.size then some (add v w) else none

@[simp] theorem size_zeros (n : Nat) : (zeros n : Vec α).size = n := size_ofFn ..

@[simp] theorem size_add (v w : Vec α) : (add v w).size = v.size := size_ofFn ..

@[simp] theorem size_sub (v w : Vec α) : (sub v w).size = v.size := size_ofFn ..

@[simp] theorem size_scale (v : Vec α) (c : α) : (scale v c).size = v.size := size_ofFn ..

@[simp] theorem size_unscale (v : Vec α) (c : α) : (unscale v c).size = v.size := size_ofFn ..

@[simp] theorem size_mulEntries (v w : Vec α) : (mulEntries v w).size = w.size := size_ofFn ..

@[simp] theorem size_slice (v : Vec α) (i n : Nat) : (slice v i n).size = n := size_ofFn ..

@[simp] theorem size_place (v : Vec α) (i : Nat) (block : Vec α) :
    (place v i block).size = v.size := size_ofFn ..

@[simp] theorem size_put (v : Vec α) (i : Nat) (x : α) : (put v i x).size = v.size :=
  size_ofFn ..

theorem entry_slice (v : Vec α) {i n k : Nat} (h : k < n) :
    entry (slice v i n) k = entry v (i + k) :=
  entry_ofFn_of_lt h

theorem entry_place_of_mem (v block : Vec α) {i k : Nat} (hk : i + k < v.size)
    (hb : k < block.size) : entry (place v i block) (i + k) = entry block k := by
  rw [place, entry_ofFn_of_lt hk, if_pos ⟨by omega, by omega⟩, Nat.add_sub_cancel_left]

theorem entry_place_of_not_mem (v block : Vec α) {i k : Nat} (hk : k < v.size)
    (h : k < i ∨ i + block.size ≤ k) : entry (place v i block) k = entry v k := by
  rw [place, entry_ofFn_of_lt hk, if_neg (by omega)]

theorem slice_place (v block : Vec α) {i : Nat} (h : i + block.size ≤ v.size) :
    slice (place v i block) i block.size = block := by
  apply ext_entry (size_slice ..)
  intro k hk
  rw [size_slice] at hk
  rw [entry_slice _ hk, entry_place_of_mem v block (by omega) hk]

end Vec

end MultibodyCost
