import MultibodyCost.Proofs.Geometry.DoubleCover

/-! # Relative placements

A placement relative to another is the same after both are moved alike. With the other quaternion of
either rotation it has the other quaternion of its own, which its logarithm only tells apart where the
relative rotation is half a turn. The logarithm is zero exactly where the two placements are the same.
-/

namespace MultibodyCost

namespace Quaternion

theorem normSq_neg (q : Quaternion ℝ) : (-q).normSq = q.normSq := by
  simp only [neg_eq, normSq]
  ring

end Quaternion

theorem Rotation.log_eq_zero_iff {q : Quaternion ℝ} (h : q.normSq = 1) :
    log q = .zero ↔ q.vector = .zero := by
  constructor
  · intro hZero
    by_contra hVector
    obtain ⟨a, ha, hPos, hLog, -⟩ := exists_axis_log h hVector
    have hNorm : (log q).norm = 2 * halfAngle q := norm_log h
    rw [hZero, Vec3.norm_eq_zero_iff.mpr rfl] at hNorm
    linarith
  · exact log_of_vector_zero

namespace Placement

def flipped {α : Type} [Scalar α] (m : Placement α) : Placement α := ⟨m.translation, -m.rotation⟩

/-- The same place and the same rotation, whichever of its two quaternions. -/
def Same (m n : Placement ℝ) : Prop :=
  m.translation = n.translation ∧ (m.rotation = n.rotation ∨ m.rotation = -n.rotation)

theorem same_iff {m n : Placement ℝ} : m.Same n ↔ m = n ∨ m = n.flipped := by
  constructor
  · rintro ⟨hTranslation, hRotation⟩
    exact hRotation.imp (Placement.ext hTranslation) (Placement.ext hTranslation)
  · rintro (rfl | rfl)
    · exact ⟨rfl, .inl rfl⟩
    · exact ⟨rfl, .inr rfl⟩

theorem mul_flipped (m n : Placement ℝ) : m * n.flipped = (m * n).flipped :=
  Placement.ext rfl (mul_neg m.rotation n.rotation)

theorem flipped_inverse_mul (m n : Placement ℝ) :
    m.flipped.inverse * n = (m.inverse * n).flipped := by
  apply Placement.ext
  · change (-m.rotation).inverse.rotate (-m.translation) +
      (-m.rotation).inverse.rotate n.translation = _
    rw [Quaternion.neg_inverse_rotate, Quaternion.neg_inverse_rotate]
    rfl
  · exact neg_mul m.rotation.inverse n.rotation

theorem relative_of_moved {g m : Placement ℝ} (hg : g.rotation.normSq = 1)
    (hm : m.rotation.normSq = 1) (n : Placement ℝ) :
    (g * m).inverse * (g * n) = m.inverse * n := by
  have hMoved : (g * m).rotation.normSq = 1 := by
    change (g.rotation * m.rotation).normSq = 1
    rw [Quaternion.normSq_mul, hg, hm, one_mul]
  calc (g * m).inverse * (g * n)
      = (g * m).inverse * (g * (m * (m.inverse * n))) := by rw [mul_inverse_cancel hm]
    _ = (g * m).inverse * (g * m * (m.inverse * n)) := by rw [Placement.mul_assoc hg hm]
    _ = m.inverse * n := inverse_mul_cancel hMoved _

theorem log_flipped {m : Placement ℝ} (h : m.rotation.w ≠ 0) : log m.flipped = log m := by
  have hAngular : Rotation.log (-m.rotation) = Rotation.log m.rotation := Rotation.log_neg h
  simp only [log, flipped, hAngular]

theorem log_flipped_ne_of_halfTurn {m : Placement ℝ} (h : m.rotation.normSq = 1)
    (hw : m.rotation.w = 0) : log m.flipped ≠ log m := by
  intro hSame
  have hAngular : -Rotation.log m.rotation = Rotation.log m.rotation := by
    rw [← Rotation.log_neg_of_halfTurn hw]
    exact congrArg Motion.angular hSame
  -- A vector that is its own opposite has no length, and this one has the length of half a turn.
  obtain ⟨hx, hy, hz⟩ := Vec3.mk.inj hAngular
  have hZero : Rotation.log m.rotation = .zero :=
    Vec3.ext (self_eq_neg.mp hx.symm) (self_eq_neg.mp hy.symm) (self_eq_neg.mp hz.symm)
  have hNorm := Rotation.norm_log_of_halfTurn h hw
  rw [hZero, Vec3.norm_eq_zero_iff.mpr rfl] at hNorm
  exact Real.pi_ne_zero hNorm.symm

theorem log_eq_zero_iff {m : Placement ℝ} (h : m.rotation.normSq = 1) :
    log m = .zero ↔ m.Same one := by
  constructor
  · intro hZero
    have hAngular : Rotation.log m.rotation = .zero := congrArg Motion.angular hZero
    have hLinear : (Rotation.inverseLeftJacobian (Rotation.log m.rotation)).apply m.translation =
        .zero := congrArg Motion.linear hZero
    rw [hAngular, Rotation.inverseLeftJacobian_apply, Vec3.turn_zero_axis] at hLinear
    have hVector := (Rotation.log_eq_zero_iff h).mp hAngular
    obtain ⟨hx, hy, hz⟩ := Vec3.mk.inj hVector
    refine ⟨hLinear, (Rotation.w_of_vector_zero h hVector).imp ?_ ?_⟩
    · exact Quaternion.ext (x := m.rotation) (y := .one) hx hy hz
    · exact Quaternion.ext (x := m.rotation) (y := -.one) (hx.trans neg_zero.symm)
        (hy.trans neg_zero.symm) (hz.trans neg_zero.symm)
  · intro hSame
    have hOne : log (one : Placement ℝ) = .zero := by
      have hAngular : Rotation.log (.one : Quaternion ℝ) = .zero := Rotation.log_of_vector_zero rfl
      change (⟨(Rotation.inverseLeftJacobian (Rotation.log .one)).apply .zero,
        Rotation.log .one⟩ : Motion ℝ) = .zero
      rw [hAngular, Mat3.apply_zero]
      rfl
    rcases same_iff.mp hSame with rfl | rfl
    · exact hOne
    · rw [log_flipped one_ne_zero, hOne]

theorem log_relative_eq_zero_iff {m n : Placement ℝ} (hm : m.rotation.normSq = 1)
    (hn : n.rotation.normSq = 1) : log (m.inverse * n) = .zero ↔ n.Same m := by
  rw [log_eq_zero_iff (Quaternion.normSq_relative hm hn), same_iff, same_iff]
  have hForth : ∀ k, m.inverse * n = k ↔ n = m * k := by
    intro k
    constructor
    · rintro rfl
      exact (mul_inverse_cancel hm n).symm
    · rintro rfl
      exact inverse_mul_cancel hm k
  rw [hForth, hForth, mul_flipped, Placement.mul_one]

end Placement

end MultibodyCost
