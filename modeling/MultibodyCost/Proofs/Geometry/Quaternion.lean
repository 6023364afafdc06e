import MultibodyCost.Geometry.Quaternion
import MultibodyCost.Proofs.Geometry.Vec3

/-! # Quaternions over the reals

The norm is multiplicative, the conjugate inverts a quaternion of norm one, and the rotation by such
a quaternion is undone by its conjugate. The norm is used squared throughout; normalizing is the
only place where its root matters.
-/

namespace MultibodyCost.Quaternion

theorem normSq_eq (q : Quaternion ℝ) : q.normSq = q.vector.normSq + q.w * q.w := rfl

theorem normSq_nonneg (q : Quaternion ℝ) : 0 ≤ q.normSq := by
  rw [normSq_eq]
  exact add_nonneg q.vector.normSq_nonneg (mul_self_nonneg q.w)

theorem normSq_ne_zero {q : Quaternion ℝ} (h : q ≠ ⟨0, 0, 0, 0⟩) : q.normSq ≠ 0 := by
  intro hSq
  apply h
  have hVector := q.vector.normSq_nonneg
  have hScalar := mul_self_nonneg q.w
  rw [normSq_eq] at hSq
  have hw : q.w = 0 := mul_self_eq_zero.mp (by linarith)
  have hZero : q.vector.normSq = 0 := by linarith
  obtain ⟨hx, hy, hz⟩ := Vec3.mk.inj (Vec3.normSq_eq_zero_iff.mp hZero)
  exact Quaternion.ext hx hy hz hw

theorem normSq_mul (p q : Quaternion ℝ) : (p * q).normSq = p.normSq * q.normSq := by
  simp only [mul_eq, normSq]
  ring

theorem normSq_inverse (q : Quaternion ℝ) : q.inverse.normSq = q.normSq := by
  simp only [inverse, normSq]
  ring

theorem normSq_relative {p q : Quaternion ℝ} (hp : p.normSq = 1) (hq : q.normSq = 1) :
    (p.inverse * q).normSq = 1 := by
  rw [normSq_mul, normSq_inverse, hp, hq, one_mul]

noncomputable instance : Monoid (Quaternion ℝ) where
  one := one
  mul_assoc p q r := by
    simp only [mul_eq, mk.injEq]
    refine ⟨?_, ?_, ?_, ?_⟩ <;> ring
  one_mul q := by
    change one * q = q
    simp only [mul_eq, one, zero_mul, one_mul, add_zero, sub_zero]
  mul_one q := by
    change q * one = q
    simp only [mul_eq, one, mul_zero, mul_one, zero_add, add_zero, sub_zero]

theorem one_eq : (one : Quaternion ℝ) = 1 := rfl

noncomputable instance : HasDistribNeg (Quaternion ℝ) where
  neg_neg q := by simp only [neg_eq, neg_neg]
  neg_mul p q := by
    simp only [mul_eq, neg_eq, mk.injEq]
    refine ⟨?_, ?_, ?_, ?_⟩ <;> ring
  mul_neg p q := by
    simp only [mul_eq, neg_eq, mk.injEq]
    refine ⟨?_, ?_, ?_, ?_⟩ <;> ring

theorem inverse_mul (p q : Quaternion ℝ) : (p * q).inverse = q.inverse * p.inverse := by
  simp only [mul_eq, inverse, mk.injEq]
  refine ⟨?_, ?_, ?_, ?_⟩ <;> ring

theorem inverse_inverse (q : Quaternion ℝ) : q.inverse.inverse = q := by
  simp only [inverse, neg_neg]

theorem inverse_mul_cancel {q : Quaternion ℝ} (h : q.normSq = 1) (p : Quaternion ℝ) :
    q.inverse * (q * p) = p := by
  unfold normSq at h
  apply Quaternion.ext
  all_goals simp only [mul_eq, inverse]
  · linear_combination p.x * h
  · linear_combination p.y * h
  · linear_combination p.z * h
  · linear_combination p.w * h

theorem mul_inverse_cancel {q : Quaternion ℝ} (h : q.normSq = 1) (p : Quaternion ℝ) :
    q * (q.inverse * p) = p := by
  unfold normSq at h
  apply Quaternion.ext
  all_goals simp only [mul_eq, inverse]
  · linear_combination p.x * h
  · linear_combination p.y * h
  · linear_combination p.z * h
  · linear_combination p.w * h

theorem mul_inverse_self {q : Quaternion ℝ} (h : q.normSq = 1) : q * q.inverse = 1 := by
  have hCancel := mul_inverse_cancel h 1
  rwa [mul_one] at hCancel

theorem norm_mul_norm (q : Quaternion ℝ) : q.norm * q.norm = q.normSq :=
  Real.mul_self_sqrt q.normSq_nonneg

theorem norm_ne_zero {q : Quaternion ℝ} (h : q.normSq ≠ 0) : q.norm ≠ 0 := by
  intro hNorm
  rw [← norm_mul_norm, hNorm, mul_zero] at h
  exact h rfl

theorem normSq_normalized {q : Quaternion ℝ} (h : q.normSq ≠ 0) : q.normalized.normSq = 1 := by
  have hNorm := norm_ne_zero h
  have hSq := q.norm_mul_norm
  simp only [normSq] at hSq
  simp only [normalized, normSq]
  field_simp
  linear_combination -hSq

theorem normalized_of_unit {q : Quaternion ℝ} (h : q.normSq = 1) : q.normalized = q := by
  have hNorm : q.norm = 1 := by
    change Real.sqrt q.normSq = 1
    rw [h, Real.sqrt_one]
  simp only [normalized, hNorm, div_one]

theorem rotate_eq_turn (q : Quaternion ℝ) (v : Vec3 ℝ) :
    q.rotate v = Vec3.turn (2 * q.w) 2 q.vector v := by
  have hTwo : (2.0 : ℝ) = 2 := by norm_num
  simp only [rotate, Vec3.turn, Vec3.add_eq, Vec3.scale, Vec3.cross, vector, Vec3.mk.injEq, hTwo]
  refine ⟨?_, ?_, ?_⟩ <;> ring

theorem rotate_add (q : Quaternion ℝ) (v v' : Vec3 ℝ) :
    q.rotate (v + v') = q.rotate v + q.rotate v' := by
  rw [rotate_eq_turn, rotate_eq_turn, rotate_eq_turn, Vec3.turn_add]

theorem rotate_scale (q : Quaternion ℝ) (v : Vec3 ℝ) (c : ℝ) :
    q.rotate (v.scale c) = (q.rotate v).scale c := by
  rw [rotate_eq_turn, rotate_eq_turn, Vec3.turn_scale]

theorem rotate_zero (q : Quaternion ℝ) : q.rotate .zero = .zero := by
  simp only [rotate_eq_turn, Vec3.turn, Vec3.add_eq, Vec3.scale, Vec3.cross, Vec3.zero, mul_zero,
    zero_mul, sub_zero, add_zero]

theorem one_rotate (v : Vec3 ℝ) : (one : Quaternion ℝ).rotate v = v := by
  rw [rotate_eq_turn]
  exact Vec3.turn_zero_axis _ _ v

theorem inverse_rotate (q : Quaternion ℝ) (v : Vec3 ℝ) :
    q.inverse.rotate v = Vec3.turn (-(2 * q.w)) 2 q.vector v := by
  rw [rotate_eq_turn, ← Vec3.turn_neg_axis]
  rfl

theorem inverse_rotate_cancel {q : Quaternion ℝ} (h : q.normSq = 1) (v : Vec3 ℝ) :
    q.inverse.rotate (q.rotate v) = v := by
  rw [normSq_eq] at h
  rw [inverse_rotate, rotate_eq_turn]
  apply Vec3.turn_cancel
  · ring
  · linear_combination -4 * h

theorem rotate_inverse_cancel {q : Quaternion ℝ} (h : q.normSq = 1) (v : Vec3 ℝ) :
    q.rotate (q.inverse.rotate v) = v := by
  rw [normSq_eq] at h
  rw [inverse_rotate, rotate_eq_turn]
  apply Vec3.turn_cancel
  · ring
  · linear_combination -4 * h

end MultibodyCost.Quaternion
