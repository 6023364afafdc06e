import MultibodyCost.Proofs.Geometry.Matrix

/-! # How much a matrix stretches

Lengths of sums and cross products, and from them a bound on how much a matrix of size
three stretches. A bound passes through sums and products of matrices, and it bounds every entry.
-/

namespace MultibodyCost

namespace Vec3

theorem norm_le_of_normSq_le {v : Vec3 ℝ} {r : ℝ} (hr : 0 ≤ r) (h : v.normSq ≤ r * r) :
    v.norm ≤ r := by
  rw [mul_self_le_mul_self_iff v.norm_nonneg hr, norm_mul_norm]
  exact h

/-- The identity of Lagrange. -/
theorem normSq_cross_add (v w : Vec3 ℝ) :
    (v.cross w).normSq + v.dot w * v.dot w = v.normSq * w.normSq := by
  simp only [normSq, dot, cross]
  ring

theorem norm_cross_le (v w : Vec3 ℝ) : (v.cross w).norm ≤ v.norm * w.norm := by
  apply norm_le_of_normSq_le (mul_nonneg v.norm_nonneg w.norm_nonneg)
  rw [mul_mul_mul_comm, norm_mul_norm, norm_mul_norm, ← normSq_cross_add]
  exact le_add_of_nonneg_right (mul_self_nonneg _)

theorem dot_le (v w : Vec3 ℝ) : v.dot w ≤ v.norm * w.norm := by
  refine (le_abs_self _).trans (abs_le_of_sq_le_sq ?_ (mul_nonneg v.norm_nonneg w.norm_nonneg))
  rw [sq, sq, mul_mul_mul_comm, norm_mul_norm, norm_mul_norm, ← normSq_cross_add]
  exact le_add_of_nonneg_left (normSq_nonneg _)

theorem norm_add_le (v w : Vec3 ℝ) : (v + w).norm ≤ v.norm + w.norm := by
  apply norm_le_of_normSq_le (add_nonneg v.norm_nonneg w.norm_nonneg)
  calc
    (v + w).normSq = v.normSq + w.normSq + 2 * v.dot w := by
      simp only [normSq, dot, add_eq]
      ring
    _ ≤ v.norm * v.norm + w.norm * w.norm + 2 * (v.norm * w.norm) := by
      rw [norm_mul_norm, norm_mul_norm]
      linarith [v.dot_le w]
    _ = (v.norm + w.norm) * (v.norm + w.norm) := by ring

theorem abs_le_norm (v : Vec3 ℝ) : |v.x| ≤ v.norm ∧ |v.y| ≤ v.norm ∧ |v.z| ≤ v.norm := by
  have hx := mul_self_nonneg v.x
  have hy := mul_self_nonneg v.y
  have hz := mul_self_nonneg v.z
  have ofSq : ∀ t : ℝ, t * t ≤ v.x * v.x + v.y * v.y + v.z * v.z → |t| ≤ v.norm := by
    intro t ht
    apply abs_le_of_sq_le_sq _ v.norm_nonneg
    rw [sq, sq, norm_mul_norm]
    exact ht
  refine ⟨ofSq _ ?_, ofSq _ ?_, ofSq _ ?_⟩ <;> linarith

end Vec3

namespace Mat3

def Bounded (a : Mat3 ℝ) (k : ℝ) : Prop := ∀ v, (a.apply v).norm ≤ k * v.norm

namespace Bounded

variable {a b : Mat3 ℝ} {k l : ℝ}

theorem mono (h : a.Bounded k) (hkl : k ≤ l) : a.Bounded l := fun v =>
  (h v).trans (mul_le_mul_of_nonneg_right hkl v.norm_nonneg)

theorem identity : (identity : Mat3 ℝ).Bounded 1 := by
  intro v
  rw [apply_identity, one_mul]

theorem skew (w : Vec3 ℝ) : (skew w).Bounded w.norm := by
  intro v
  rw [apply_skew]
  exact w.norm_cross_le v

theorem add (ha : a.Bounded k) (hb : b.Bounded l) : (a + b).Bounded (k + l) := by
  intro v
  rw [apply_add, add_mul]
  exact (Vec3.norm_add_le _ _).trans (add_le_add (ha v) (hb v))

theorem neg (h : a.Bounded k) : (-a).Bounded k := by
  intro v
  rw [apply_neg, Vec3.norm_neg]
  exact h v

theorem sub (ha : a.Bounded k) (hb : b.Bounded l) : (a - b).Bounded (k + l) := by
  intro v
  rw [apply_sub, sub_eq_add_neg, ← apply_neg, add_mul]
  exact (Vec3.norm_add_le _ _).trans (add_le_add (ha v) (hb.neg v))

theorem scale (h : a.Bounded k) (c : ℝ) : (a.scale c).Bounded (|c| * k) := by
  intro v
  rw [apply_scale, Vec3.norm_scale, mul_assoc]
  exact mul_le_mul_of_nonneg_left (h v) (abs_nonneg c)

theorem scale_of_le_one (h : a.Bounded k) (hk : 0 ≤ k) {c : ℝ} (hc : |c| ≤ 1) :
    (a.scale c).Bounded k :=
  (h.scale c).mono (mul_le_of_le_one_left hk hc)

theorem mul (ha : a.Bounded k) (hb : b.Bounded l) (hk : 0 ≤ k) : (a * b).Bounded (k * l) := by
  intro v
  rw [apply_mul, mul_assoc]
  exact (ha _).trans (mul_le_mul_of_nonneg_left (hb v) hk)

theorem entry (h : a.Bounded k) {i j : Nat} (hi : i < 3) (hj : j < 3) : |a.entry i j| ≤ k := by
  have column : ∀ e : Vec3 ℝ, e.normSq = 1 →
      |(a.apply e).x| ≤ k ∧ |(a.apply e).y| ≤ k ∧ |(a.apply e).z| ≤ k := by
    intro e he
    have hNorm : e.norm = 1 := Vec3.norm_eq_of_normSq zero_le_one (by rw [he, mul_one])
    have hImage := h e
    rw [hNorm, mul_one] at hImage
    obtain ⟨hx, hy, hz⟩ := (a.apply e).abs_le_norm
    exact ⟨hx.trans hImage, hy.trans hImage, hz.trans hImage⟩
  have hx := column ⟨1, 0, 0⟩ (by norm_num [Vec3.normSq, Vec3.dot])
  have hy := column ⟨0, 1, 0⟩ (by norm_num [Vec3.normSq, Vec3.dot])
  have hz := column ⟨0, 0, 1⟩ (by norm_num [Vec3.normSq, Vec3.dot])
  simp only [apply, Vec3.dot, mul_one, mul_zero, add_zero, zero_add] at hx hy hz
  interval_cases j
  · interval_cases i
    exacts [hx.1, hx.2.1, hx.2.2]
  · interval_cases i
    exacts [hy.1, hy.2.1, hy.2.2]
  · interval_cases i
    exacts [hz.1, hz.2.1, hz.2.2]

end Bounded

end Mat3

end MultibodyCost
