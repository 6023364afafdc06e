import Mathlib
import MultibodyCost.Scalar

/-! # Exact scalars

The reals are a scalar type with exact arithmetic and the elementary functions themselves: every
value is finite, and the angle of a point is the argument of a complex number. Laws of the geometry
and of sums are stated over them.
-/

namespace MultibodyCost

noncomputable instance : Scalar ℝ where
  decLt := inferInstance
  decLe := inferInstance
  isFinite _ := true

noncomputable instance : Elementary ℝ where
  sqrt := Real.sqrt
  sin := Real.sin
  cos := Real.cos
  atan2 y x := Complex.arg ⟨x, y⟩
  pi := Real.pi

namespace Scalar

@[simp] theorem isFinite_real (x : ℝ) : Scalar.isFinite x = true := rfl

theorem abs_real (x : ℝ) : Scalar.abs x = |x| := by
  unfold Scalar.abs
  split
  · rename_i h
    exact (abs_of_neg h).symm
  · rename_i h
    exact (abs_of_nonneg (not_lt.mp h)).symm

theorem ofNat_real (n : Nat) : (Scalar.ofNat n : ℝ) = n := by
  have hNat : (OfScientific.ofScientific n false 0 : ℚ≥0) = n := by
    apply NNRat.ext
    change Rat.ofScientific n false 0 = _
    simp [Rat.ofScientific]
  change (OfScientific.ofScientific n false 0 : ℝ) = n
  rw [← NNRat.cast_ofScientific, hNat, NNRat.cast_natCast]

end Scalar

namespace Elementary

@[simp] theorem sqrt_real (x : ℝ) : sqrt x = Real.sqrt x := rfl

@[simp] theorem sin_real (x : ℝ) : sin x = Real.sin x := rfl

@[simp] theorem cos_real (x : ℝ) : cos x = Real.cos x := rfl

end Elementary

theorem atan2_sin_cos {t : ℝ} (h : t ∈ Set.Ioc (-Real.pi) Real.pi) :
    Elementary.atan2 (Real.sin t) (Real.cos t) = t := by
  have hPoint : (⟨Real.cos t, Real.sin t⟩ : ℂ) = Complex.cos t + Complex.sin t * Complex.I := by
    apply Complex.ext
    · simp [← Complex.ofReal_cos, ← Complex.ofReal_sin]
    · simp [← Complex.ofReal_cos, ← Complex.ofReal_sin]
  change Complex.arg ⟨Real.cos t, Real.sin t⟩ = t
  rw [hPoint]
  exact Complex.arg_cos_add_sin_mul_I h

end MultibodyCost
