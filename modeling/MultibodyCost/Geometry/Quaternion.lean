import MultibodyCost.Geometry.Vec3

/-!
# Quaternions

A rotation is a quaternion of norm one, stored with its scalar part last. Products and inverses do
not renormalize: the inverse is the conjugate, and a quaternion that is not of norm one is used as
it stands. Only reading a stored quaternion (`ofVec`) normalizes it; the zero quaternion has no
direction and becomes undefined.
-/

namespace MultibodyCost

@[ext] structure Quaternion (α : Type) where
  x : α
  y : α
  z : α
  w : α

namespace Quaternion

variable {α : Type}

section Scalar

variable [Scalar α]

def one : Quaternion α := ⟨0, 0, 0, 1⟩

def vector (q : Quaternion α) : Vec3 α := ⟨q.x, q.y, q.z⟩

def normSq (q : Quaternion α) : α := q.x * q.x + q.y * q.y + q.z * q.z + q.w * q.w

instance : Neg (Quaternion α) := ⟨fun q => ⟨-q.x, -q.y, -q.z, -q.w⟩⟩

instance : Mul (Quaternion α) := ⟨fun a b =>
  ⟨a.w * b.x + a.x * b.w + a.y * b.z - a.z * b.y,
   a.w * b.y - a.x * b.z + a.y * b.w + a.z * b.x,
   a.w * b.z + a.x * b.y - a.y * b.x + a.z * b.w,
   a.w * b.w - a.x * b.x - a.y * b.y - a.z * b.z⟩⟩

theorem neg_eq (q : Quaternion α) : -q = ⟨-q.x, -q.y, -q.z, -q.w⟩ := rfl

theorem mul_eq (a b : Quaternion α) : a * b =
    ⟨a.w * b.x + a.x * b.w + a.y * b.z - a.z * b.y,
     a.w * b.y - a.x * b.z + a.y * b.w + a.z * b.x,
     a.w * b.z + a.x * b.y - a.y * b.x + a.z * b.w,
     a.w * b.w - a.x * b.x - a.y * b.y - a.z * b.z⟩ := rfl

/-- The conjugate, which inverts a quaternion of norm one. -/
def inverse (q : Quaternion α) : Quaternion α := ⟨-q.x, -q.y, -q.z, q.w⟩

def rotate (q : Quaternion α) (v : Vec3 α) : Vec3 α :=
  let t := (q.vector.cross v).scale 2.0
  t.scale q.w + q.vector.cross t + v

def toMat3 (q : Quaternion α) : Mat3 α :=
  let ww := q.w * q.w
  let xx := q.x * q.x
  let yy := q.y * q.y
  let zz := q.z * q.z
  let xy := q.x * q.y * 2.0
  let wz := q.w * q.z * 2.0
  let wy := q.w * q.y * 2.0
  let xz := q.x * q.z * 2.0
  let yz := q.y * q.z * 2.0
  let wx := q.w * q.x * 2.0
  ⟨⟨ww + xx - yy - zz, xy - wz, wy + xz⟩,
   ⟨wz + xy, ww - xx + yy - zz, yz - wx⟩,
   ⟨xz - wy, wx + yz, ww - xx - yy + zz⟩⟩

end Scalar

def toVec (q : Quaternion α) : Vec α := #[q.x, q.y, q.z, q.w]

@[simp] theorem size_toVec (q : Quaternion α) : q.toVec.size = 4 := rfl

section Elementary

variable [Elementary α]

def norm (q : Quaternion α) : α := Elementary.sqrt q.normSq

def normalized (q : Quaternion α) : Quaternion α :=
  ⟨q.x / q.norm, q.y / q.norm, q.z / q.norm, q.w / q.norm⟩

/-- The rotation stored at places `i` to `i + 3`, normalized. -/
def ofVec (v : Vec α) (i : Nat) : Quaternion α :=
  normalized ⟨v.entry i, v.entry (i + 1), v.entry (i + 2), v.entry (i + 3)⟩

end Elementary

end Quaternion

end MultibodyCost
