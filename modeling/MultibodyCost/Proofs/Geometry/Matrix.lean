import MultibodyCost.Geometry.Motion
import MultibodyCost.Proofs.Geometry.Quaternion

/-! # Matrices by their action

Two matrices of size three are equal where they act alike on every vector, so that identities between
products are shown for the operators. The matrix of a quaternion of norm one acts as the quaternion
rotates, and a rotation preserves cross products.
-/

namespace MultibodyCost

namespace Vec3

theorem turn_neg (a b : ℝ) (w v : Vec3 ℝ) : turn a b w (-v) = -(turn a b w v) := by
  simp only [turn, add_eq, neg_eq, scale, cross, mk.injEq]
  refine ⟨?_, ?_, ?_⟩ <;> ring

theorem neg_cross (a v : Vec3 ℝ) : (-a).cross v = -(a.cross v) := by
  simp only [cross, neg_eq, mk.injEq]
  refine ⟨?_, ?_, ?_⟩ <;> ring

theorem add_cross (a b v : Vec3 ℝ) : (a + b).cross v = a.cross v + b.cross v := by
  simp only [cross, add_eq, mk.injEq]
  refine ⟨?_, ?_, ?_⟩ <;> ring

theorem cross_add (v a b : Vec3 ℝ) : v.cross (a + b) = v.cross a + v.cross b := by
  simp only [cross, add_eq, mk.injEq]
  refine ⟨?_, ?_, ?_⟩ <;> ring

theorem cross_scale (v w : Vec3 ℝ) (c : ℝ) : v.cross (w.scale c) = (v.cross w).scale c := by
  simp only [cross, scale, mk.injEq]
  refine ⟨?_, ?_, ?_⟩ <;> ring

theorem cross_neg (v w : Vec3 ℝ) : v.cross (-w) = w.cross v := by
  simp only [cross, neg_eq, mk.injEq]
  refine ⟨?_, ?_, ?_⟩ <;> ring

theorem cross_cross_self (w v : Vec3 ℝ) :
    w.cross (w.cross v) = w.scale (w.dot v) - v.scale w.normSq := by
  simp only [cross, scale, sub_eq, normSq, dot, mk.injEq]
  refine ⟨?_, ?_, ?_⟩ <;> ring

theorem cross_cross_cross_self (w v : Vec3 ℝ) :
    w.cross (w.cross (w.cross v)) = (w.cross v).scale (-w.normSq) := by
  simp only [cross, scale, normSq, dot, mk.injEq]
  refine ⟨?_, ?_, ?_⟩ <;> ring

theorem normSq_turn {s a : ℝ} {w : Vec3 ℝ} (h : s * s + w.normSq * (a * a) = 2 * a) (v : Vec3 ℝ) :
    (turn s a w v).normSq = v.normSq := by
  simp only [normSq, dot] at h
  simp only [turn, add_eq, scale, cross, normSq, dot]
  linear_combination ((w.y * v.z - w.z * v.y) ^ 2 + (w.z * v.x - w.x * v.z) ^ 2 +
    (w.x * v.y - w.y * v.x) ^ 2) * h

theorem turn_cross_turn {s a : ℝ} {w : Vec3 ℝ} (h : s * s + w.normSq * (a * a) = 2 * a)
    (u v : Vec3 ℝ) : (turn s a w u).cross (turn s a w v) = turn s a w (u.cross v) := by
  -- What is left over is the axis times the volume of the three vectors.
  have hVolume : w.dot (u.cross v) * (s * s + w.normSq * (a * a)) = w.dot (u.cross v) * (2 * a) := by
    rw [h]
  simp only [normSq, dot, cross] at hVolume
  apply Vec3.ext
  all_goals simp only [turn, add_eq, scale, cross]
  · linear_combination w.x * hVolume
  · linear_combination w.y * hVolume
  · linear_combination w.z * hVolume

end Vec3

namespace Mat3

theorem ext_apply {a b : Mat3 ℝ} (h : ∀ v, a.apply v = b.apply v) : a = b := by
  -- The columns are the images of the unit vectors.
  have hx := h ⟨1, 0, 0⟩
  have hy := h ⟨0, 1, 0⟩
  have hz := h ⟨0, 0, 1⟩
  simp only [apply, Vec3.dot, mul_one, mul_zero, add_zero, zero_add, Vec3.mk.injEq] at hx hy hz
  obtain ⟨hx0, hx1, hx2⟩ := hx
  obtain ⟨hy0, hy1, hy2⟩ := hy
  obtain ⟨hz0, hz1, hz2⟩ := hz
  exact Mat3.ext (Vec3.ext hx0 hy0 hz0) (Vec3.ext hx1 hy1 hz1) (Vec3.ext hx2 hy2 hz2)

theorem apply_neg (a : Mat3 ℝ) (v : Vec3 ℝ) : (-a).apply v = -(a.apply v) := by
  change (⟨(-a.row0).dot v, (-a.row1).dot v, (-a.row2).dot v⟩ : Vec3 ℝ) = -(a.apply v)
  simp only [apply, Vec3.neg_eq, Vec3.dot, Vec3.mk.injEq]
  refine ⟨?_, ?_, ?_⟩ <;> ring

theorem neg_apply (a : Mat3 ℝ) (v : Vec3 ℝ) : a.apply (-v) = -(a.apply v) := by
  simp only [apply, Vec3.neg_eq, Vec3.dot, Vec3.mk.injEq]
  refine ⟨?_, ?_, ?_⟩ <;> ring

theorem sub_apply (a : Mat3 ℝ) (v w : Vec3 ℝ) : a.apply (v - w) = a.apply v - a.apply w := by
  simp only [apply, Vec3.sub_eq, Vec3.dot, Vec3.mk.injEq]
  refine ⟨?_, ?_, ?_⟩ <;> ring

theorem add_apply (a : Mat3 ℝ) (v w : Vec3 ℝ) : a.apply (v + w) = a.apply v + a.apply w := by
  simp only [apply, Vec3.add_eq, Vec3.dot, Vec3.mk.injEq]
  refine ⟨?_, ?_, ?_⟩ <;> ring

theorem scale_apply (a : Mat3 ℝ) (v : Vec3 ℝ) (c : ℝ) : a.apply (v.scale c) = (a.apply v).scale c := by
  simp only [apply, Vec3.scale, Vec3.dot, Vec3.mk.injEq]
  refine ⟨?_, ?_, ?_⟩ <;> ring

theorem zero_apply (v : Vec3 ℝ) : (zero : Mat3 ℝ).apply v = 0 := by
  simp only [apply, zero, ← Vec3.zero_eq, Vec3.zero, Vec3.dot, zero_mul, add_zero]

theorem apply_zero (a : Mat3 ℝ) : a.apply .zero = 0 := by
  simp only [apply, ← Vec3.zero_eq, Vec3.zero, Vec3.dot, mul_zero, add_zero]

theorem apply_outer (w v : Vec3 ℝ) : (outer w w).apply v = w.scale (w.dot v) := by
  simp only [apply, outer, Vec3.scale, Vec3.dot, Vec3.mk.injEq]
  refine ⟨?_, ?_, ?_⟩ <;> ring

theorem eq_of_axis {a b : Mat3 ℝ} {w : Vec3 ℝ} (hw : w.normSq ≠ 0) (hAxis : a.apply w = b.apply w)
    (hCross : ∀ v, a.apply (w.cross v) = b.apply (w.cross v)) : a = b := by
  apply ext_apply
  intro v
  have split : ∀ c : Mat3 ℝ, (c.apply v).scale w.normSq =
      (c.apply w).scale (w.dot v) - c.apply (w.cross (w.cross v)) := by
    intro c
    rw [Vec3.cross_cross_self, sub_apply, scale_apply, scale_apply]
    simp only [Vec3.scale, Vec3.sub_eq, sub_sub_cancel]
  have hScaled : (a.apply v).scale w.normSq = (b.apply v).scale w.normSq := by
    rw [split, split, hAxis, hCross]
  simp only [Vec3.scale, Vec3.mk.injEq, mul_left_inj' hw] at hScaled
  exact Vec3.ext hScaled.1 hScaled.2.1 hScaled.2.2

end Mat3

namespace Mat6

theorem mul_eq (a b : Mat6 ℝ) : a * b =
    ⟨a.ul * b.ul + a.ur * b.ll, a.ul * b.ur + a.ur * b.lr,
     a.ll * b.ul + a.lr * b.ll, a.ll * b.ur + a.lr * b.lr⟩ := rfl

theorem ext_apply {a b : Mat6 ℝ} (h : ∀ m, a.apply m = b.apply m) : a = b := by
  have hLinear : ∀ v, a.ul.apply v = b.ul.apply v ∧ a.ll.apply v = b.ll.apply v := by
    intro v
    have hv := h ⟨v, .zero⟩
    simp only [apply, Mat3.apply_zero, add_zero, Motion.mk.injEq] at hv
    exact hv
  have hAngular : ∀ v, a.ur.apply v = b.ur.apply v ∧ a.lr.apply v = b.lr.apply v := by
    intro v
    have hv := h ⟨.zero, v⟩
    simp only [apply, Mat3.apply_zero, zero_add, Motion.mk.injEq] at hv
    exact hv
  apply Mat6.ext
  · exact Mat3.ext_apply fun v => (hLinear v).1
  · exact Mat3.ext_apply fun v => (hAngular v).1
  · exact Mat3.ext_apply fun v => (hLinear v).2
  · exact Mat3.ext_apply fun v => (hAngular v).2

theorem apply_identity (m : Motion ℝ) : (identity : Mat6 ℝ).apply m = m := by
  simp only [apply, identity, Mat3.apply_identity, Mat3.zero_apply, add_zero, zero_add]

theorem apply_mul (a b : Mat6 ℝ) (m : Motion ℝ) : (a * b).apply m = a.apply (b.apply m) := by
  simp only [apply, mul_eq, Mat3.apply_add, Mat3.apply_mul, Mat3.add_apply, Motion.mk.injEq]
  exact ⟨add_add_add_comm _ _ _ _, add_add_add_comm _ _ _ _⟩

theorem apply_neg (a : Mat6 ℝ) (m : Motion ℝ) : (-a).apply m = -(a.apply m) := by
  change (⟨(-a.ul).apply m.linear + (-a.ur).apply m.angular,
    (-a.ll).apply m.linear + (-a.lr).apply m.angular⟩ : Motion ℝ) =
    ⟨-(a.ul.apply m.linear + a.ur.apply m.angular), -(a.ll.apply m.linear + a.lr.apply m.angular)⟩
  rw [Mat3.apply_neg, Mat3.apply_neg, Mat3.apply_neg, Mat3.apply_neg, neg_add, neg_add]

theorem apply_sub (a b : Mat6 ℝ) (m : Motion ℝ) : (a - b).apply m = a.apply m - b.apply m := by
  change (⟨(a.ul - b.ul).apply m.linear + (a.ur - b.ur).apply m.angular,
    (a.ll - b.ll).apply m.linear + (a.lr - b.lr).apply m.angular⟩ : Motion ℝ) =
    ⟨a.ul.apply m.linear + a.ur.apply m.angular - (b.ul.apply m.linear + b.ur.apply m.angular),
      a.ll.apply m.linear + a.lr.apply m.angular - (b.ll.apply m.linear + b.lr.apply m.angular)⟩
  rw [Mat3.apply_sub, Mat3.apply_sub, Mat3.apply_sub, Mat3.apply_sub, sub_add_sub_comm,
    sub_add_sub_comm]

theorem neg_apply (a : Mat6 ℝ) (m : Motion ℝ) : a.apply (-m) = -(a.apply m) := by
  change (⟨a.ul.apply (-m.linear) + a.ur.apply (-m.angular),
    a.ll.apply (-m.linear) + a.lr.apply (-m.angular)⟩ : Motion ℝ) =
    ⟨-(a.ul.apply m.linear + a.ur.apply m.angular), -(a.ll.apply m.linear + a.lr.apply m.angular)⟩
  rw [Mat3.neg_apply, Mat3.neg_apply, Mat3.neg_apply, Mat3.neg_apply, neg_add, neg_add]

end Mat6

namespace Quaternion

theorem toMat3_apply {q : Quaternion ℝ} (h : q.normSq = 1) (v : Vec3 ℝ) :
    q.toMat3.apply v = q.rotate v := by
  have hTwo : (2.0 : ℝ) = 2 := by norm_num
  simp only [normSq] at h
  apply Vec3.ext
  all_goals simp only [toMat3, rotate, Mat3.apply, Vec3.dot, Vec3.add_eq, Vec3.scale, Vec3.cross,
    vector, hTwo]
  · linear_combination v.x * h
  · linear_combination v.y * h
  · linear_combination v.z * h

theorem toMat3_mul (p q : Quaternion ℝ) : (p * q).toMat3 = p.toMat3 * q.toMat3 := by
  have hTwo : (2.0 : ℝ) = 2 := by norm_num
  simp only [toMat3, mul_eq, Mat3.mul_eq, Mat3.rowMul, Mat3.transpose, Vec3.dot, hTwo,
    Mat3.mk.injEq, Vec3.mk.injEq]
  refine ⟨⟨?_, ?_, ?_⟩, ⟨?_, ?_, ?_⟩, ⟨?_, ?_, ?_⟩⟩ <;> ring

theorem rotate_mul {p q : Quaternion ℝ} (hp : p.normSq = 1) (hq : q.normSq = 1) (v : Vec3 ℝ) :
    (p * q).rotate v = p.rotate (q.rotate v) := by
  have hpq : (p * q).normSq = 1 := by
    rw [normSq_mul, hp, hq, one_mul]
  rw [← toMat3_apply hpq, toMat3_mul, Mat3.apply_mul, toMat3_apply hq, toMat3_apply hp]

theorem normSq_rotate {q : Quaternion ℝ} (h : q.normSq = 1) (v : Vec3 ℝ) :
    (q.rotate v).normSq = v.normSq := by
  rw [normSq_eq] at h
  rw [rotate_eq_turn]
  apply Vec3.normSq_turn
  linear_combination 4 * h

theorem norm_rotate {q : Quaternion ℝ} (h : q.normSq = 1) (v : Vec3 ℝ) :
    (q.rotate v).norm = v.norm := by
  rw [Vec3.norm, normSq_rotate h]
  rfl

theorem rotate_cross {q : Quaternion ℝ} (h : q.normSq = 1) (v w : Vec3 ℝ) :
    (q.rotate v).cross (q.rotate w) = q.rotate (v.cross w) := by
  rw [normSq_eq] at h
  simp only [rotate_eq_turn]
  apply Vec3.turn_cross_turn
  linear_combination 4 * h

end Quaternion

end MultibodyCost
