import MultibodyCost.Geometry.Vec3

/-!
# Spatial motions

A spatial motion has a linear and an angular part, in that order wherever it is laid out as six
numbers. Its linear maps are six-by-six matrices, kept as four blocks of size three.
-/

namespace MultibodyCost

@[ext] structure Motion (α : Type) where
  linear : Vec3 α
  angular : Vec3 α

/-- A six-by-six matrix in blocks; the first letter names the rows, upper or lower, the second the
columns, left or right. -/
@[ext] structure Mat6 (α : Type) where
  ul : Mat3 α
  ur : Mat3 α
  ll : Mat3 α
  lr : Mat3 α

variable {α : Type}

namespace Motion

def toVec (m : Motion α) : Vec α :=
  #[m.linear.x, m.linear.y, m.linear.z, m.angular.x, m.angular.y, m.angular.z]

@[simp] theorem size_toVec (m : Motion α) : m.toVec.size = 6 := rfl

variable [Scalar α]

def zero : Motion α := ⟨.zero, .zero⟩

instance : Add (Motion α) := ⟨fun a b => ⟨a.linear + b.linear, a.angular + b.angular⟩⟩

instance : Sub (Motion α) := ⟨fun a b => ⟨a.linear - b.linear, a.angular - b.angular⟩⟩

instance : Neg (Motion α) := ⟨fun a => ⟨-a.linear, -a.angular⟩⟩

def scale (m : Motion α) (c : α) : Motion α := ⟨m.linear.scale c, m.angular.scale c⟩

/-- The six entries of `v` from place `i` on. -/
def ofVec (v : Vec α) (i : Nat) : Motion α := ⟨Vec3.ofVec v i, Vec3.ofVec v (i + 3)⟩

end Motion

namespace Mat6

variable [Scalar α]

def identity : Mat6 α := ⟨.identity, .zero, .zero, .identity⟩

instance : Neg (Mat6 α) := ⟨fun a => ⟨-a.ul, -a.ur, -a.ll, -a.lr⟩⟩

instance : Sub (Mat6 α) := ⟨fun a b => ⟨a.ul - b.ul, a.ur - b.ur, a.ll - b.ll, a.lr - b.lr⟩⟩

instance : Mul (Mat6 α) := ⟨fun a b =>
  ⟨a.ul * b.ul + a.ur * b.ll, a.ul * b.ur + a.ur * b.lr,
   a.ll * b.ul + a.lr * b.ll, a.ll * b.ur + a.lr * b.lr⟩⟩

def apply (a : Mat6 α) (m : Motion α) : Motion α :=
  ⟨a.ul.apply m.linear + a.ur.apply m.angular, a.ll.apply m.linear + a.lr.apply m.angular⟩

def entry (a : Mat6 α) (i j : Nat) : α :=
  match decide (i < 3), decide (j < 3) with
  | true, true => a.ul.entry i j
  | true, false => a.ur.entry i (j - 3)
  | false, true => a.ll.entry (i - 3) j
  | false, false => a.lr.entry (i - 3) (j - 3)

def toMat (a : Mat6 α) : Mat α := Mat.ofFn 6 6 a.entry

end Mat6

end MultibodyCost
