import MultibodyCost.Linear.Mat

/-!
# Three-dimensional vectors and matrices

Vectors and matrices of fixed size three, with the cross-product matrix `Mat3.skew`. Every matrix
operation is entrywise or a sum of three products, so that an undefined or infinite entry spreads
exactly as the formulas say.
-/

namespace MultibodyCost

@[ext] structure Vec3 (α : Type) where
  x : α
  y : α
  z : α

@[ext] structure Mat3 (α : Type) where
  row0 : Vec3 α
  row1 : Vec3 α
  row2 : Vec3 α

variable {α : Type}

namespace Vec3

section Scalar

variable [Scalar α]

def zero : Vec3 α := ⟨0, 0, 0⟩

instance : Add (Vec3 α) := ⟨fun a b => ⟨a.x + b.x, a.y + b.y, a.z + b.z⟩⟩

instance : Sub (Vec3 α) := ⟨fun a b => ⟨a.x - b.x, a.y - b.y, a.z - b.z⟩⟩

instance : Neg (Vec3 α) := ⟨fun a => ⟨-a.x, -a.y, -a.z⟩⟩

theorem add_eq (a b : Vec3 α) : a + b = ⟨a.x + b.x, a.y + b.y, a.z + b.z⟩ := rfl

theorem sub_eq (a b : Vec3 α) : a - b = ⟨a.x - b.x, a.y - b.y, a.z - b.z⟩ := rfl

theorem neg_eq (a : Vec3 α) : -a = ⟨-a.x, -a.y, -a.z⟩ := rfl

def scale (a : Vec3 α) (c : α) : Vec3 α := ⟨a.x * c, a.y * c, a.z * c⟩

def unscale (a : Vec3 α) (c : α) : Vec3 α := ⟨a.x / c, a.y / c, a.z / c⟩

def dot (a b : Vec3 α) : α := a.x * b.x + a.y * b.y + a.z * b.z

def cross (a b : Vec3 α) : Vec3 α :=
  ⟨a.y * b.z - a.z * b.y, a.z * b.x - a.x * b.z, a.x * b.y - a.y * b.x⟩

def normSq (a : Vec3 α) : α := dot a a

def ofVec (v : Vec α) (i : Nat) : Vec3 α := ⟨v.entry i, v.entry (i + 1), v.entry (i + 2)⟩

end Scalar

def norm [Elementary α] (a : Vec3 α) : α := Elementary.sqrt a.normSq

def toVec (a : Vec3 α) : Vec α := #[a.x, a.y, a.z]

@[simp] theorem size_toVec (a : Vec3 α) : a.toVec.size = 3 := rfl

end Vec3

namespace Mat3

variable [Scalar α]

def zero : Mat3 α := ⟨.zero, .zero, .zero⟩

def identity : Mat3 α := ⟨⟨1, 0, 0⟩, ⟨0, 1, 0⟩, ⟨0, 0, 1⟩⟩

instance : Add (Mat3 α) := ⟨fun a b => ⟨a.row0 + b.row0, a.row1 + b.row1, a.row2 + b.row2⟩⟩

instance : Sub (Mat3 α) := ⟨fun a b => ⟨a.row0 - b.row0, a.row1 - b.row1, a.row2 - b.row2⟩⟩

instance : Neg (Mat3 α) := ⟨fun a => ⟨-a.row0, -a.row1, -a.row2⟩⟩

theorem add_eq (a b : Mat3 α) : a + b = ⟨a.row0 + b.row0, a.row1 + b.row1, a.row2 + b.row2⟩ := rfl

theorem sub_eq (a b : Mat3 α) : a - b = ⟨a.row0 - b.row0, a.row1 - b.row1, a.row2 - b.row2⟩ := rfl

def scale (a : Mat3 α) (c : α) : Mat3 α := ⟨a.row0.scale c, a.row1.scale c, a.row2.scale c⟩

def transpose (a : Mat3 α) : Mat3 α :=
  ⟨⟨a.row0.x, a.row1.x, a.row2.x⟩, ⟨a.row0.y, a.row1.y, a.row2.y⟩, ⟨a.row0.z, a.row1.z, a.row2.z⟩⟩

def apply (a : Mat3 α) (v : Vec3 α) : Vec3 α := ⟨a.row0.dot v, a.row1.dot v, a.row2.dot v⟩

def rowMul (r : Vec3 α) (b : Mat3 α) : Vec3 α :=
  ⟨r.dot b.transpose.row0, r.dot b.transpose.row1, r.dot b.transpose.row2⟩

instance : Mul (Mat3 α) := ⟨fun a b => ⟨rowMul a.row0 b, rowMul a.row1 b, rowMul a.row2 b⟩⟩

theorem mul_eq (a b : Mat3 α) : a * b = ⟨rowMul a.row0 b, rowMul a.row1 b, rowMul a.row2 b⟩ := rfl

def skew (v : Vec3 α) : Mat3 α := ⟨⟨0, -v.z, v.y⟩, ⟨v.z, 0, -v.x⟩, ⟨-v.y, v.x, 0⟩⟩

def outer (v w : Vec3 α) : Mat3 α := ⟨w.scale v.x, w.scale v.y, w.scale v.z⟩

def row (a : Mat3 α) (i : Nat) : Vec3 α :=
  match i with
  | 0 => a.row0
  | 1 => a.row1
  | _ => a.row2

def entry (a : Mat3 α) (i j : Nat) : α :=
  match j with
  | 0 => (a.row i).x
  | 1 => (a.row i).y
  | _ => (a.row i).z

def toMat (a : Mat3 α) : Mat α := Mat.ofFn 3 3 a.entry

end Mat3

end MultibodyCost
