import MultibodyCost.Geometry.Vec3
import MultibodyCost.Proofs.Real

/-! # Vectors over the reals

Matrices acting on vectors, and the operators that are polynomials in the cross product with one
vector. The cube of that product is the product itself up to a factor, so such an operator is given
by two coefficients, and a product of two of them is another one (`turn_turn`). Rotations and the
Jacobians of the rotation group are all of this form.
-/

namespace MultibodyCost

namespace Vec3

noncomputable instance : Zero (Vec3 ℝ) := ⟨zero⟩

noncomputable instance : SMul ℝ (Vec3 ℝ) := ⟨fun c v => v.scale c⟩

theorem zero_eq : (zero : Vec3 ℝ) = 0 := rfl

theorem scale_eq_smul (v : Vec3 ℝ) (c : ℝ) : v.scale c = c • v := rfl

noncomputable instance : AddCommGroup (Vec3 ℝ) where
  add_assoc _ _ _ := Vec3.ext (add_assoc ..) (add_assoc ..) (add_assoc ..)
  zero_add _ := Vec3.ext (zero_add _) (zero_add _) (zero_add _)
  add_zero _ := Vec3.ext (add_zero _) (add_zero _) (add_zero _)
  neg_add_cancel _ := Vec3.ext (neg_add_cancel _) (neg_add_cancel _) (neg_add_cancel _)
  add_comm _ _ := Vec3.ext (add_comm ..) (add_comm ..) (add_comm ..)
  sub_eq_add_neg _ _ := Vec3.ext (sub_eq_add_neg ..) (sub_eq_add_neg ..) (sub_eq_add_neg ..)
  nsmul := nsmulRec
  zsmul := zsmulRec

noncomputable instance : Module ℝ (Vec3 ℝ) where
  one_smul _ := Vec3.ext (mul_one _) (mul_one _) (mul_one _)
  mul_smul a b v := by
    simp only [← scale_eq_smul, scale, mk.injEq]
    refine ⟨?_, ?_, ?_⟩ <;> ring
  smul_zero c := Vec3.ext (zero_mul c) (zero_mul c) (zero_mul c)
  smul_add _ _ _ := Vec3.ext (add_mul ..) (add_mul ..) (add_mul ..)
  add_smul _ _ _ := Vec3.ext (mul_add ..) (mul_add ..) (mul_add ..)
  zero_smul _ := Vec3.ext (mul_zero _) (mul_zero _) (mul_zero _)

theorem scale_scale (v : Vec3 ℝ) (a b : ℝ) : (v.scale a).scale b = v.scale (a * b) := by
  rw [mul_comm]
  exact smul_smul b a v

theorem norm_nonneg (v : Vec3 ℝ) : 0 ≤ v.norm := Real.sqrt_nonneg v.normSq

theorem normSq_nonneg (v : Vec3 ℝ) : 0 ≤ v.normSq := by
  exact add_nonneg (add_nonneg (mul_self_nonneg v.x) (mul_self_nonneg v.y)) (mul_self_nonneg v.z)

theorem norm_mul_norm (v : Vec3 ℝ) : v.norm * v.norm = v.normSq :=
  Real.mul_self_sqrt v.normSq_nonneg

theorem norm_eq_of_normSq {v : Vec3 ℝ} {r : ℝ} (hr : 0 ≤ r) (h : v.normSq = r * r) : v.norm = r := by
  change Real.sqrt v.normSq = r
  rw [h]
  exact Real.sqrt_mul_self hr

theorem normSq_eq_zero_iff {v : Vec3 ℝ} : v.normSq = 0 ↔ v = zero := by
  constructor
  · intro h
    simp only [normSq, dot] at h
    have hx : v.x = 0 := by nlinarith [mul_self_nonneg v.x, mul_self_nonneg v.y, mul_self_nonneg v.z]
    have hy : v.y = 0 := by nlinarith [mul_self_nonneg v.x, mul_self_nonneg v.y, mul_self_nonneg v.z]
    have hz : v.z = 0 := by nlinarith [mul_self_nonneg v.x, mul_self_nonneg v.y, mul_self_nonneg v.z]
    exact Vec3.ext hx hy hz
  · rintro rfl
    simp [normSq, dot, zero]

theorem norm_eq_zero_iff {v : Vec3 ℝ} : v.norm = 0 ↔ v = zero := by
  rw [← normSq_eq_zero_iff, ← norm_mul_norm, mul_self_eq_zero]

theorem normSq_scale (v : Vec3 ℝ) (c : ℝ) : (v.scale c).normSq = c * c * v.normSq := by
  simp only [normSq, dot, scale]
  ring

theorem normSq_neg (v : Vec3 ℝ) : (-v).normSq = v.normSq := by
  simp only [normSq, dot, neg_eq]
  ring

theorem norm_scale (v : Vec3 ℝ) (c : ℝ) : (v.scale c).norm = |c| * v.norm := by
  apply norm_eq_of_normSq (mul_nonneg (abs_nonneg c) v.norm_nonneg)
  rw [mul_mul_mul_comm, norm_mul_norm, abs_mul_abs_self, normSq_scale]

theorem norm_neg (v : Vec3 ℝ) : (-v).norm = v.norm := by
  rw [norm, norm, normSq_neg]

theorem norm_scale_unit {a : Vec3 ℝ} (ha : a.normSq = 1) (c : ℝ) : (a.scale c).norm = |c| := by
  have hOne : a.norm = 1 := norm_eq_of_normSq zero_le_one (by rw [ha, mul_one])
  rw [norm_scale, hOne, mul_one]

theorem unscale_eq_scale (v : Vec3 ℝ) (c : ℝ) : v.unscale c = v.scale c⁻¹ := by
  simp only [unscale, scale, div_eq_mul_inv]

def turn {α : Type} [Scalar α] (a b : α) (w v : Vec3 α) : Vec3 α :=
  v + (w.cross v).scale a + (w.cross (w.cross v)).scale b

theorem turn_turn (a b c d : ℝ) (w v : Vec3 ℝ) :
    turn c d w (turn a b w v) =
      turn (a + c - w.normSq * (a * d + b * c)) (b + d + a * c - w.normSq * (b * d)) w v := by
  simp only [turn, add_eq, scale, cross, normSq, dot, mk.injEq]
  refine ⟨?_, ?_, ?_⟩ <;> ring

theorem turn_zero_zero (w v : Vec3 ℝ) : turn 0 0 w v = v := by
  simp only [turn, add_eq, scale, mul_zero, add_zero]

theorem turn_zero_axis (a b : ℝ) (v : Vec3 ℝ) : turn a b zero v = v := by
  simp only [turn, add_eq, scale, cross, zero, zero_mul, mul_zero, sub_zero, add_zero]

theorem turn_cancel {a b c d : ℝ} {w : Vec3 ℝ} (hFirst : a + c = w.normSq * (a * d + b * c))
    (hSecond : b + d + a * c = w.normSq * (b * d)) (v : Vec3 ℝ) :
    turn c d w (turn a b w v) = v := by
  rw [turn_turn, hFirst, hSecond, sub_self, sub_self, turn_zero_zero]

theorem turn_add (a b : ℝ) (w v v' : Vec3 ℝ) :
    turn a b w (v + v') = turn a b w v + turn a b w v' := by
  simp only [turn, add_eq, scale, cross, mk.injEq]
  refine ⟨?_, ?_, ?_⟩ <;> ring

theorem turn_scale_axis (a b c : ℝ) (w v : Vec3 ℝ) :
    turn a b (w.scale c) v = turn (a * c) (b * (c * c)) w v := by
  simp only [turn, add_eq, scale, cross, mk.injEq]
  refine ⟨?_, ?_, ?_⟩ <;> ring

theorem turn_scale (a b : ℝ) (w v : Vec3 ℝ) (c : ℝ) :
    turn a b w (v.scale c) = (turn a b w v).scale c := by
  simp only [turn, add_eq, scale, cross, mk.injEq]
  refine ⟨?_, ?_, ?_⟩ <;> ring

theorem turn_neg_axis (a b : ℝ) (w v : Vec3 ℝ) : turn a b (-w) v = turn (-a) b w v := by
  simp only [turn, add_eq, neg_eq, scale, cross, mk.injEq]
  refine ⟨?_, ?_, ?_⟩ <;> ring

end Vec3

namespace Mat3

theorem apply_identity (v : Vec3 ℝ) : (identity : Mat3 ℝ).apply v = v := by
  simp only [apply, identity, Vec3.dot, one_mul, zero_mul, add_zero, zero_add]

theorem apply_add (a b : Mat3 ℝ) (v : Vec3 ℝ) : (a + b).apply v = a.apply v + b.apply v := by
  simp only [apply, add_eq, Vec3.add_eq, Vec3.dot, Vec3.mk.injEq]
  refine ⟨?_, ?_, ?_⟩ <;> ring

theorem apply_sub (a b : Mat3 ℝ) (v : Vec3 ℝ) : (a - b).apply v = a.apply v - b.apply v := by
  simp only [apply, sub_eq, Vec3.sub_eq, Vec3.dot, Vec3.mk.injEq]
  refine ⟨?_, ?_, ?_⟩ <;> ring

theorem apply_scale (a : Mat3 ℝ) (c : ℝ) (v : Vec3 ℝ) :
    (a.scale c).apply v = (a.apply v).scale c := by
  simp only [apply, scale, Vec3.scale, Vec3.dot, Vec3.mk.injEq]
  refine ⟨?_, ?_, ?_⟩ <;> ring

theorem apply_mul (a b : Mat3 ℝ) (v : Vec3 ℝ) : (a * b).apply v = a.apply (b.apply v) := by
  simp only [apply, mul_eq, rowMul, transpose, Vec3.dot, Vec3.mk.injEq]
  refine ⟨?_, ?_, ?_⟩ <;> ring

theorem apply_skew (w v : Vec3 ℝ) : (skew w).apply v = w.cross v := by
  simp only [apply, skew, Vec3.dot, Vec3.cross, Vec3.mk.injEq]
  refine ⟨?_, ?_, ?_⟩ <;> ring

end Mat3

end MultibodyCost
