import MultibodyCost.Proofs.Geometry.Matrix
import MultibodyCost.Proofs.Geometry.Placement

/-! # The right Jacobians

The right Jacobian of the exponential of rotations is an operator of its rotation vector, as the
rotation itself is, and its inverse is the right Jacobian of the logarithm. For placements both are
block upper triangular, and whatever couples the translation to the rotation cancels between them.

The Jacobian of the exponential of placements satisfies `jacobian ν * ad ν = 1 - Ad (exp ν)⁻¹` and
keeps `ν` itself. Among the matrices of its form it is the only one.
-/

namespace MultibodyCost

open Elementary

namespace Rotation

theorem jacobian_apply (w v : Vec3 ℝ) :
    (jacobian w).apply v =
      Vec3.turn (-(Coefficient.exp w.norm).1) (Coefficient.exp w.norm).2 w v := by
  unfold jacobian
  dsimp only
  rw [Mat3.apply_add, Mat3.apply_sub, Mat3.apply_identity, Mat3.apply_scale, Mat3.apply_scale,
    Mat3.apply_mul, Mat3.apply_skew, Mat3.apply_skew]
  simp only [Vec3.turn, Vec3.scale_eq_smul, neg_smul, sub_eq_add_neg]

theorem inverseJacobian_apply {w : Vec3 ℝ}
    (h : (Coefficient.log w.norm).1 + w.normSq * (Coefficient.log w.norm).2 = 1) (v : Vec3 ℝ) :
    (inverseJacobian w).apply v = Vec3.turn 2⁻¹ (Coefficient.log w.norm).2 w v := by
  have hHalf : (0.5 : ℝ) = 2⁻¹ := by norm_num
  unfold inverseJacobian
  dsimp only
  rw [Mat3.apply_add, Mat3.apply_add, Mat3.apply_scale, Mat3.apply_identity, Mat3.apply_scale,
    Mat3.apply_scale, Mat3.apply_skew, Mat3.apply_outer, hHalf, Vec3.turn, Vec3.cross_cross_self]
  apply Vec3.ext
  all_goals simp only [Vec3.add_eq, Vec3.sub_eq, Vec3.scale]
  · linear_combination v.x * h
  · linear_combination v.y * h
  · linear_combination v.z * h

theorem log_closed_sum {θ : ℝ} (hθ : θ ≠ 0) (hCos : 1 - Real.cos θ ≠ 0) :
    (Coefficient.logClosed θ).2 = Coefficient.inverseLeftClosed θ ∧
      (Coefficient.logClosed θ).1 + θ * θ * (Coefficient.logClosed θ).2 = 1 := by
  have hTwo : (2.0 : ℝ) = 2 := by norm_num
  simp only [Coefficient.logClosed, Coefficient.inverseLeftClosed, hTwo, Elementary.sin_real,
    Elementary.cos_real]
  constructor
  · field_simp
  · field_simp
    ring

/-- Both Jacobians as operators of the rotation vector, and how their coefficients in closed form are
tied to each other. -/
theorem closed_operators {w : Vec3 ℝ} (h : 1e-4 ≤ w.norm) (hCos : 1 - Real.cos w.norm ≠ 0) :
    ∃ a b c, (∀ v, (jacobian w).apply v = Vec3.turn (-a) b w v) ∧
      (∀ v, (inverseJacobian w).apply v = Vec3.turn 2⁻¹ c w v) ∧
      2⁻¹ - a = w.normSq * (2⁻¹ * b - c * a) ∧ c + b - 2⁻¹ * a = w.normSq * (c * b) := by
  have hZero : w.norm ≠ 0 := (lt_of_lt_of_le (by norm_num) h).ne'
  have hClosed : ¬ w.norm < (Coefficient.smallAngle : ℝ) := not_lt.mpr h
  have hExp : Coefficient.exp w.norm = Coefficient.expClosed w.norm := if_neg hClosed
  have hLog : Coefficient.log w.norm = Coefficient.logClosed w.norm := if_neg hClosed
  obtain ⟨hSame, hSum⟩ := log_closed_sum hZero hCos
  obtain ⟨hFirst, hSecond⟩ := closed_cancel hZero hCos
  rw [Vec3.norm_mul_norm] at hFirst hSecond hSum
  refine ⟨_, _, _, jacobian_apply w, inverseJacobian_apply (by rwa [hLog]), ?_, ?_⟩
  · rw [hExp, hLog, hSame]
    linear_combination -hFirst
  · rw [hExp, hLog, hSame]
    linear_combination hSecond

/-- The right Jacobian of the logarithm is the inverse of the one of the exponential: at the zero
vector, and from the angle on at which the coefficients are in closed form. -/
theorem jacobian_mul_inverseJacobian {w : Vec3 ℝ} (h : w.norm = 0 ∨ 1e-4 ≤ w.norm)
    (hPi : w.norm ≤ Real.pi) : jacobian w * inverseJacobian w = Mat3.identity := by
  apply Mat3.ext_apply
  intro v
  rw [Mat3.apply_mul, Mat3.apply_identity]
  by_cases hZero : w.norm = 0
  · have hSum : (Coefficient.log w.norm).1 + w.normSq * (Coefficient.log w.norm).2 = 1 := by
      rw [← Vec3.norm_mul_norm, hZero]
      norm_num [Coefficient.log, Coefficient.smallAngle, Coefficient.logSeries]
    rw [jacobian_apply, inverseJacobian_apply hSum, Vec3.norm_eq_zero_iff.mp hZero,
      Vec3.turn_zero_axis, Vec3.turn_zero_axis]
  · have hCos : 1 - Real.cos w.norm ≠ 0 := one_sub_cos_ne_zero hZero w.norm_nonneg hPi
    obtain ⟨a, b, c, hJacobian, hInverse, hFirst, hSecond⟩ :=
      closed_operators (h.resolve_left hZero) hCos
    rw [hJacobian, hInverse]
    apply Vec3.turn_cancel
    · linear_combination hFirst
    · linear_combination hSecond

/-- The exponential rotates as the formula of Rodrigues says. -/
theorem exp_rotate {w : Vec3 ℝ} (h : 0.5 ^ 51 < w.norm) (v : Vec3 ℝ) :
    (exp w).rotate v =
      Vec3.turn (Real.sin w.norm / w.norm) (Coefficient.expClosed w.norm).1 w v := by
  have hPos : 0 < w.norm := lt_trans (by norm_num) h
  have hZero : w ≠ .zero := fun hw => hPos.ne' (Vec3.norm_eq_zero_iff.mpr hw)
  have hHalf : (0.5 : ℝ) ^ 52 < w.norm / 2 := by
    rw [pow_succ]
    linarith
  obtain ⟨axis, hUnit, hAxis⟩ := exists_axis hZero
  have hPolar : exp w = polar axis (w.norm / 2) := by
    rw [← exp_axis hUnit hHalf, mul_div_cancel₀ _ two_ne_zero, ← hAxis]
  have onAxis : ∀ a b, Vec3.turn a b w v =
      Vec3.turn (a * w.norm) (b * (w.norm * w.norm)) axis v := by
    intro a b
    rw [← Vec3.turn_scale_axis, ← hAxis]
  rw [hPolar, polar_rotate, mul_div_cancel₀ _ two_ne_zero, onAxis]
  congr 1
  · exact (div_mul_cancel₀ _ hPos.ne').symm
  · change _ = (1 - Real.cos w.norm) / (w.norm * w.norm) * (w.norm * w.norm)
    rw [div_mul_cancel₀ _ (mul_pos hPos hPos).ne']

end Rotation

namespace Vec3

/-- The vector `u` under the coupling block of a translation `ρ` and a rotation vector `φ`: its
products with both, weighted by the three coefficients. -/
noncomputable def couple (b c d : ℝ) (ρ φ u : Vec3 ℝ) : Vec3 ℝ :=
  (ρ.cross u).scale (-0.5) +
    (φ.cross (ρ.cross u) + ρ.cross (φ.cross u) - φ.cross (ρ.cross (φ.cross u))).scale b -
    (φ.cross (φ.cross (ρ.cross u)) + ρ.cross (φ.cross (φ.cross u)) -
      (φ.cross (ρ.cross (φ.cross u))).scale 3.0).scale c +
    (φ.cross (ρ.cross (φ.cross (φ.cross u))) + φ.cross (φ.cross (ρ.cross (φ.cross u)))).scale d

/-- Both sides of `turn_couple` are sums of the same six products: this is the right one … -/
theorem turn_cross (a b s : ℝ) (φ ρ v : Vec3 ℝ) :
    turn (-s) a φ ((turn a b φ ρ).cross v) =
      (ρ.cross v).scale (1 - φ.normSq * b) +
      (φ.cross (ρ.cross v)).scale (a - s * (1 - φ.normSq * b) - φ.normSq * (a * a)) +
      (ρ.cross (φ.cross v)).scale (-a) +
      (φ.cross v).scale (φ.dot ρ * (b - s * a - φ.normSq * (a * b))) +
      (φ.cross (φ.cross v)).scale (φ.dot ρ * (a * a - s * b)) +
      (φ.cross (φ.cross (ρ.cross v))).scale (a * (1 - φ.normSq * b - s)) := by
  simp only [turn, add_eq, scale, cross, normSq, dot, mk.injEq]
  refine ⟨?_, ?_, ?_⟩ <;> ring

/-- … and this the left one. -/
theorem turn_add_couple (a b c d : ℝ) (φ ρ v : Vec3 ℝ) :
    turn (-a) b φ (ρ.cross v) + couple b c d ρ φ (φ.cross v) =
      (ρ.cross v).scale (1 - φ.normSq * b) +
      (φ.cross (ρ.cross v)).scale (-a) +
      (ρ.cross (φ.cross v)).scale (φ.normSq * c - 2⁻¹) +
      (φ.cross v).scale (φ.dot ρ * (2 * (φ.normSq * d) - 2 * b)) +
      (φ.cross (φ.cross v)).scale (φ.dot ρ * (b - 2 * c)) +
      (φ.cross (φ.cross (ρ.cross v))).scale 0 := by
  have hHalf : (-0.5 : ℝ) = -2⁻¹ := by norm_num
  have hThree : (3.0 : ℝ) = 3 := by norm_num
  simp only [turn, couple, hHalf, hThree, add_eq, sub_eq, scale, cross, normSq, dot, mk.injEq]
  refine ⟨?_, ?_, ?_⟩ <;> ring

theorem turn_self (a b : ℝ) (w : Vec3 ℝ) : turn a b w w = w := by
  apply Vec3.ext
  all_goals simp only [turn, add_eq, scale, cross]
  all_goals ring

theorem turn_add_couple_self (a b c d : ℝ) (φ ρ : Vec3 ℝ) :
    turn (-a) b φ ρ + couple b c d ρ φ φ =
      ρ + (φ.cross ρ).scale (2⁻¹ - φ.normSq * c - a) := by
  have hHalf : (-0.5 : ℝ) = -2⁻¹ := by norm_num
  have hThree : (3.0 : ℝ) = 3 := by norm_num
  apply Vec3.ext
  all_goals simp only [turn, couple, hHalf, hThree, add_eq, sub_eq, scale, cross, normSq, dot]
  all_goals ring

end Vec3

/-- How the coefficients of the exponential, the sine over the angle and the three coefficients of the
coupling block are tied to each other. -/
theorem Coefficient.closed_relations {θ : ℝ} (hθ : θ ≠ 0) :
    let a := (expClosed θ).1
    let b := (expClosed θ).2
    let s := Real.sin θ / θ
    let c := (couplingClosed θ).2.1
    let d := (couplingClosed θ).2.2
    (couplingClosed θ).1 = b ∧ 1 - θ * θ * b = s ∧ a = 2⁻¹ - θ * θ * c ∧
      s * s + θ * θ * (a * a) = 2 * a ∧ 2 * (θ * θ * d) = 3 * b - s * a - θ * θ * (a * b) ∧
      b + s * b = a * a + 2 * c := by
  have hTwo : (2.0 : ℝ) = 2 := by norm_num
  have hThree : (3.0 : ℝ) = 3 := by norm_num
  have hSum := Real.sin_sq_add_cos_sq θ
  refine ⟨rfl, ?_, ?_, ?_, ?_, ?_⟩
  all_goals simp only [expClosed, couplingClosed, hTwo, hThree, sin_real, cos_real]
  · field_simp
    ring
  · field_simp
    ring
  · field_simp
    linear_combination hSum
  · field_simp
    ring
  · field_simp
    linear_combination -hSum

namespace Placement

theorem coupling_apply (ρ φ u : Vec3 ℝ) :
    (coupling ρ φ).apply u = Vec3.couple (Coefficient.coupling φ.norm).1
      (Coefficient.coupling φ.norm).2.1 (Coefficient.coupling φ.norm).2.2 ρ φ u := by
  unfold coupling
  dsimp only
  simp only [Mat3.apply_add, Mat3.apply_sub, Mat3.apply_scale, Mat3.apply_mul, Mat3.apply_skew]
  rfl

theorem jacobian_mul_inverseJacobian {ν : Motion ℝ} (h : ν.angular.norm = 0 ∨ 1e-4 ≤ ν.angular.norm)
    (hPi : ν.angular.norm ≤ Real.pi) : jacobian ν * inverseJacobian ν = Mat6.identity := by
  have undone : ∀ v, (Rotation.jacobian ν.angular).apply
      ((Rotation.inverseJacobian ν.angular).apply v) = v := by
    intro v
    rw [← Mat3.apply_mul, Rotation.jacobian_mul_inverseJacobian h hPi, Mat3.apply_identity]
  apply Mat6.ext_apply
  intro m
  rw [Mat6.apply_mul, Mat6.apply_identity]
  simp only [jacobian, inverseJacobian, Mat6.apply, Mat3.zero_apply, undone, Mat3.apply_mul,
    Mat3.apply_neg, Mat3.neg_apply, Mat3.add_apply, neg_zero, zero_add,
    neg_add_cancel_right]

end Placement

/-- The bracket of a motion with others, as a matrix. -/
def Motion.ad {α : Type} [Scalar α] (ν : Motion α) : Mat6 α :=
  ⟨Mat3.skew ν.angular, Mat3.skew ν.linear, .zero, Mat3.skew ν.angular⟩

namespace Placement

/-- Every operator of a rotation vector `w`, as a polynomial in the cross product with it; and the
relations between the coefficients, from which all their identities follow. -/
structure Expansion (w : Vec3 ℝ) (a b s c d : ℝ) : Prop where
  right : ∀ v, (Rotation.jacobian w).apply v = Vec3.turn (-a) b w v
  left : ∀ v, (Rotation.leftJacobian w).apply v = Vec3.turn a b w v
  back : ∀ v, (Rotation.exp w).inverse.rotate v = Vec3.turn (-s) a w v
  coupling : ∀ ρ u, (coupling ρ w).apply u = Vec3.couple b c d ρ w u
  sine : 1 - w.normSq * b = s
  half : a = 2⁻¹ - w.normSq * c
  chord : s * s + w.normSq * (a * a) = 2 * a
  first : 2 * (w.normSq * d) = 3 * b - s * a - w.normSq * (a * b)
  second : b + s * b = a * a + 2 * c

theorem exists_expansion {w : Vec3 ℝ} (h : 1e-2 ≤ w.norm) : ∃ a b s c d, Expansion w a b s c d := by
  have hPos : 0 < w.norm := lt_of_lt_of_le (by norm_num) h
  have hLarge : ¬ w.norm < (Coefficient.smallAngle : ℝ) :=
    not_lt.mpr (le_trans (by norm_num [Coefficient.smallAngle]) h)
  have hExp : Coefficient.exp w.norm = Coefficient.expClosed w.norm := if_neg hLarge
  have hCoupling : Coefficient.coupling w.norm = Coefficient.couplingClosed w.norm :=
    if_neg (not_lt.mpr h)
  obtain ⟨hSame, hSine, hHalf, hChord, hFirst, hSecond⟩ := Coefficient.closed_relations hPos.ne'
  rw [Vec3.norm_mul_norm] at hSine hHalf hChord hFirst
  refine ⟨_, _, _, _, _, ?_, ?_, ?_, ?_, hSine, hHalf, hChord, hFirst, hSecond⟩
  · intro v
    rw [Rotation.jacobian_apply, hExp]
  · intro v
    rw [Rotation.leftJacobian_apply, hExp]
  · intro v
    -- The rotation itself takes the right side to `v`.
    have hForth : (Rotation.exp w).rotate (Vec3.turn (-(Real.sin w.norm / w.norm))
        (Coefficient.expClosed w.norm).1 w v) = v := by
      rw [Rotation.exp_rotate (lt_of_lt_of_le (by norm_num) h)]
      apply Vec3.turn_cancel
      · ring
      · linear_combination -hChord
    conv_lhs => rw [← hForth]
    exact Quaternion.inverse_rotate_cancel (Rotation.normSq_exp w) _
  · intro ρ u
    rw [coupling_apply, hCoupling, hSame]

section Equations

variable {ν : Motion ℝ} {a b s c d : ℝ}

theorem Expansion.turn_couple {φ : Vec3 ℝ} (h : Expansion φ a b s c d) (ρ v : Vec3 ℝ) :
    Vec3.turn (-a) b φ (ρ.cross v) + Vec3.couple b c d ρ φ (φ.cross v) =
      Vec3.turn (-s) a φ ((Vec3.turn a b φ ρ).cross v) := by
  have hRight : a - s * (1 - φ.normSq * b) - φ.normSq * (a * a) = -a := by
    linear_combination -h.chord - s * h.sine
  have hLeft : φ.normSq * c - 2⁻¹ = -a := by
    linear_combination h.half
  have hFirst : φ.dot ρ * (2 * (φ.normSq * d) - 2 * b) =
      φ.dot ρ * (b - s * a - φ.normSq * (a * b)) := by
    linear_combination φ.dot ρ * h.first
  have hSecond : φ.dot ρ * (b - 2 * c) = φ.dot ρ * (a * a - s * b) := by
    linear_combination φ.dot ρ * h.second
  have hLast : a * (1 - φ.normSq * b - s) = 0 := by
    linear_combination a * h.sine
  rw [Vec3.turn_add_couple, Vec3.turn_cross, hRight, hLeft, hFirst, hSecond, hLast]

theorem ad_apply (m : Motion ℝ) : ν.ad.apply m =
    ⟨ν.angular.cross m.linear + ν.linear.cross m.angular, ν.angular.cross m.angular⟩ := by
  simp only [Motion.ad, Mat6.apply, Mat3.apply_skew, Mat3.zero_apply, zero_add]

theorem Expansion.turn_cross_self {φ : Vec3 ℝ} (h : Expansion φ a b s c d) (v : Vec3 ℝ) :
    Vec3.turn (-a) b φ (φ.cross v) = v - Vec3.turn (-s) a φ v := by
  rw [← h.sine]
  apply Vec3.ext
  all_goals simp only [Vec3.turn, Vec3.add_eq, Vec3.sub_eq, Vec3.scale, Vec3.cross, Vec3.normSq,
    Vec3.dot]
  all_goals ring

theorem jacobian_mul_ad (h : Expansion ν.angular a b s c d) :
    jacobian ν * ν.ad = Mat6.identity - (exp ν).inverse.adjoint := by
  have hUnit : (exp ν).inverse.rotation.normSq = 1 := by
    rw [inverse, Quaternion.normSq_inverse, exp, Rotation.normSq_exp]
  have back : ∀ v, (exp ν).inverse.rotation.rotate v = Vec3.turn (-s) a ν.angular v := h.back
  have carried : ∀ v, (exp ν).inverse.translation.cross (Vec3.turn (-s) a ν.angular v) =
      -(Vec3.turn (-s) a ν.angular ((Vec3.turn a b ν.angular ν.linear).cross v)) := by
    intro v
    change ((exp ν).inverse.rotation.rotate (-(exp ν).translation)).cross _ = _
    rw [← back v, Quaternion.rotate_cross hUnit, back, Vec3.neg_cross, exp, h.left, Vec3.turn_neg]
  apply Mat6.ext_apply
  intro m
  have hLeft : (jacobian ν).apply (ν.ad.apply m) =
      ⟨Vec3.turn (-a) b ν.angular (ν.angular.cross m.linear) +
        (Vec3.turn (-a) b ν.angular (ν.linear.cross m.angular) +
          Vec3.couple b c d ν.linear ν.angular (ν.angular.cross m.angular)),
        Vec3.turn (-a) b ν.angular (ν.angular.cross m.angular)⟩ := by
    rw [ad_apply]
    simp only [jacobian, Mat6.apply, h.right, h.coupling, Vec3.turn_add, add_assoc,
      Mat3.zero_apply, zero_add]
  have hRight : (exp ν).inverse.adjoint.apply m =
      ⟨Vec3.turn (-s) a ν.angular m.linear + -(Vec3.turn (-s) a ν.angular
        ((Vec3.turn a b ν.angular ν.linear).cross m.angular)),
        Vec3.turn (-s) a ν.angular m.angular⟩ := by
    rw [adjoint_apply hUnit, back, back, carried]
  rw [Mat6.apply_mul, hLeft, Mat6.apply_sub, Mat6.apply_identity, hRight, h.turn_couple,
    h.turn_cross_self, h.turn_cross_self, ← sub_eq_add_neg, sub_add]
  rfl

theorem jacobian_apply_self (h : Expansion ν.angular a b s c d) : (jacobian ν).apply ν = ν := by
  have hNone : 2⁻¹ - ν.angular.normSq * c - a = 0 := by
    linear_combination -h.half
  apply Motion.ext
  · change (Rotation.jacobian ν.angular).apply ν.linear +
      (coupling ν.linear ν.angular).apply ν.angular = ν.linear
    rw [h.right, h.coupling, Vec3.turn_add_couple_self, hNone, Vec3.scale_eq_smul, zero_smul, add_zero]
  · change (Mat3.zero : Mat3 ℝ).apply ν.linear +
      (Rotation.jacobian ν.angular).apply ν.angular = ν.angular
    rw [h.right, Vec3.turn_self, Mat3.zero_apply, zero_add]

end Equations

/-- A matrix of the form of a Jacobian is known by its product with the bracket of a motion that
turns, and by what it does to that motion. -/
theorem eq_of_mul_ad {ν : Motion ℝ} (hν : ν.angular.normSq ≠ 0) {a b a' b' : Mat3 ℝ}
    (hAd : (⟨a, b, .zero, a⟩ : Mat6 ℝ) * ν.ad = (⟨a', b', .zero, a'⟩ : Mat6 ℝ) * ν.ad)
    (hSelf : (⟨a, b, .zero, a⟩ : Mat6 ℝ).apply ν = (⟨a', b', .zero, a'⟩ : Mat6 ℝ).apply ν) :
    (⟨a, b, .zero, a⟩ : Mat6 ℝ) = ⟨a', b', .zero, a'⟩ := by
  have onBracket : ∀ v, (⟨a, b, .zero, a⟩ : Mat6 ℝ).apply
      ⟨ν.angular.cross v + ν.linear.cross v, ν.angular.cross v⟩ =
        (⟨a', b', .zero, a'⟩ : Mat6 ℝ).apply
          ⟨ν.angular.cross v + ν.linear.cross v, ν.angular.cross v⟩ := by
    intro v
    rw [← ad_apply ⟨v, v⟩, ← Mat6.apply_mul, ← Mat6.apply_mul, hAd]
  simp only [Mat6.apply, Mat3.zero_apply, zero_add, Motion.mk.injEq] at onBracket hSelf
  obtain rfl : a = a' := Mat3.eq_of_axis hν hSelf.2 fun v => (onBracket v).2
  have hCoupling : b = b' := by
    apply Mat3.eq_of_axis hν (add_left_cancel hSelf.1)
    exact fun v => add_left_cancel (onBracket v).1
  rw [hCoupling]

/-- The equations of the right Jacobian of the exponential: what it makes of the bracket with the
motion, and that it leaves the motion alone. -/
structure IsRightJacobian (ν : Motion ℝ) (k : Mat6 ℝ) : Prop where
  bracket : k * ν.ad = Mat6.identity - (exp ν).inverse.adjoint
  fixed : k.apply ν = ν

theorem isRightJacobian_jacobian {ν : Motion ℝ} (h : 1e-2 ≤ ν.angular.norm) :
    IsRightJacobian ν (jacobian ν) := by
  obtain ⟨a, b, s, c, d, hExpansion⟩ := exists_expansion h
  exact ⟨jacobian_mul_ad hExpansion, jacobian_apply_self hExpansion⟩

/-- From the angle on at which its coefficients are in closed form, the Jacobian of the exponential
satisfies the equations of the right Jacobian. Of the matrices of its form, no more than one does for
a motion that turns. -/
theorem jacobian_unique (ν : Motion ℝ) :
    (1e-2 ≤ ν.angular.norm → IsRightJacobian ν (jacobian ν)) ∧
      (ν.angular ≠ .zero → ∀ a b a' b' : Mat3 ℝ, IsRightJacobian ν ⟨a, b, .zero, a⟩ →
        IsRightJacobian ν ⟨a', b', .zero, a'⟩ →
          (⟨a, b, .zero, a⟩ : Mat6 ℝ) = ⟨a', b', .zero, a'⟩) := by
  constructor
  · exact isRightJacobian_jacobian
  · intro hTurns a b a' b' h h'
    exact eq_of_mul_ad (mt Vec3.normSq_eq_zero_iff.mp hTurns) (h.bracket.trans h'.bracket.symm)
      (h.fixed.trans h'.fixed.symm)

noncomputable def screw : Motion ℝ := ⟨⟨1, -1, 0.5⟩, ⟨0.6, 0, 0.8⟩⟩

theorem norm_screw : screw.angular.norm = 1 := by
  apply Vec3.norm_eq_of_normSq (by norm_num)
  norm_num [screw, Vec3.normSq, Vec3.dot]

theorem jacobian_unique_screw : 1e-2 ≤ screw.angular.norm ∧ screw.angular ≠ .zero ∧
    IsRightJacobian screw (jacobian screw) ∧
      ∀ a b : Mat3 ℝ, IsRightJacobian screw ⟨a, b, .zero, a⟩ → ⟨a, b, .zero, a⟩ = jacobian screw := by
  have hLarge : 1e-2 ≤ screw.angular.norm := by
    rw [norm_screw]
    norm_num
  have hTurns : screw.angular ≠ .zero := by
    intro hZero
    have hNone := Vec3.norm_eq_zero_iff.mpr hZero
    rw [norm_screw] at hNone
    exact one_ne_zero hNone
  obtain ⟨hSatisfied, hUnique⟩ := jacobian_unique screw
  exact ⟨hLarge, hTurns, hSatisfied hLarge, fun a b h => hUnique hTurns a b _ _ h (hSatisfied hLarge)⟩

/-- A matrix that also moves the first coordinate of a translation by its third. -/
noncomputable def sheared (k : Mat6 ℝ) : Mat6 ℝ := { k with ul := k.ul + ⟨⟨0, 0, 1⟩, 0, 0⟩ }

theorem sheared_apply (k : Mat6 ℝ) {m : Motion ℝ} (h : m.linear.z = 0) :
    (sheared k).apply m = k.apply m := by
  have hNone : (⟨⟨0, 0, 1⟩, 0, 0⟩ : Mat3 ℝ).apply m.linear = 0 := by
    apply Vec3.ext <;> simp [Mat3.apply, Vec3.dot, ← Vec3.zero_eq, Vec3.zero, h]
  simp only [sheared, Mat6.apply, Mat3.apply_add, hNone, add_zero]

noncomputable def unitTurn : Motion ℝ := ⟨.zero, ⟨0, 0, 1⟩⟩

/-- Brackets with a motion that turns, and the motion itself, reach five of the six directions: what a
matrix does to the sixth, here a translation along the axis, is left open. -/
theorem jacobian_sheared_unitTurn : 1e-2 ≤ unitTurn.angular.norm ∧ unitTurn.angular ≠ .zero ∧
    IsRightJacobian unitTurn (jacobian unitTurn) ∧
      IsRightJacobian unitTurn (sheared (jacobian unitTurn)) ∧
        sheared (jacobian unitTurn) ≠ jacobian unitTurn := by
  have hNorm : unitTurn.angular.norm = 1 := by
    apply Vec3.norm_eq_of_normSq (by norm_num)
    norm_num [unitTurn, Vec3.normSq, Vec3.dot]
  have hLarge : 1e-2 ≤ unitTurn.angular.norm := by
    rw [hNorm]
    norm_num
  have hSatisfied := isRightJacobian_jacobian hLarge
  refine ⟨hLarge, ?_, hSatisfied, ⟨?_, ?_⟩, ?_⟩
  · intro hZero
    have hNone := congrArg Vec3.z hZero
    exact one_ne_zero hNone
  · rw [← hSatisfied.bracket]
    apply Mat6.ext_apply
    intro m
    have hAxis : (unitTurn.ad.apply m).linear.z = 0 := by
      rw [ad_apply]
      simp [unitTurn, Vec3.cross, Vec3.add_eq, Vec3.zero]
    rw [Mat6.apply_mul, Mat6.apply_mul, sheared_apply _ hAxis]
  · rw [sheared_apply _ rfl, hSatisfied.fixed]
  · intro hSame
    have hEntry := congrArg (fun k : Mat6 ℝ => k.ul.row0.z) hSame
    exact one_ne_zero (add_eq_left.mp hEntry)

end Placement

end MultibodyCost
