import MultibodyCost.Proofs.Geometry.Jacobian

/-! # The adjoint of a placement

Placements act on motions by their adjoint: the product of two placements acts as one after the
other, and the inverse undoes the action. Conjugating the exponential of a motion by a placement
gives the exponential of the motion acted upon. For rotations this needs no closed form, because a
rotation commutes with everything that is made of cross products; for translations it is the equation
between a rotation and the operator that takes the linear part of a motion to its translation.
-/

namespace MultibodyCost

theorem Vec3.turn_cross_axis (a b : ℝ) (w v : Vec3 ℝ) :
    turn a b w (w.cross v) =
      (w.cross v).scale (1 - w.normSq * b) + (w.cross (w.cross v)).scale a := by
  simp only [turn, add_eq, scale, cross, normSq, dot, mk.injEq]
  refine ⟨?_, ?_, ?_⟩ <;> ring

namespace Quaternion

theorem ext_parts {p q : Quaternion ℝ} (hVector : p.vector = q.vector) (hScalar : p.w = q.w) :
    p = q := by
  obtain ⟨hx, hy, hz⟩ := Vec3.mk.inj hVector
  exact Quaternion.ext hx hy hz hScalar

theorem conj_parts {q : Quaternion ℝ} (h : q.normSq = 1) (r : Quaternion ℝ) :
    (q * r * q.inverse).vector = q.rotate r.vector ∧ (q * r * q.inverse).w = r.w := by
  have hTwo : (2.0 : ℝ) = 2 := by norm_num
  unfold normSq at h
  constructor
  · apply Vec3.ext
    all_goals simp only [vector, mul_eq, inverse, rotate, Vec3.add_eq, Vec3.scale, Vec3.cross, hTwo]
    · linear_combination r.x * h
    · linear_combination r.y * h
    · linear_combination r.z * h
  · simp only [mul_eq, inverse]
    linear_combination r.w * h

theorem rotate_turn {q : Quaternion ℝ} (h : q.normSq = 1) (a b : ℝ) (w v : Vec3 ℝ) :
    q.rotate (Vec3.turn a b w v) = Vec3.turn a b (q.rotate w) (q.rotate v) := by
  simp only [Vec3.turn, rotate_add, rotate_scale, rotate_cross h]

end Quaternion

namespace Rotation

theorem conj_exp {q : Quaternion ℝ} (h : q.normSq = 1) (w : Vec3 ℝ) :
    q * exp w * q.inverse = exp (q.rotate w) := by
  have hHalf : (q.rotate w).unscale 2.0 = q.rotate (w.unscale 2.0) := by
    rw [Vec3.unscale_eq_scale, Vec3.unscale_eq_scale, Quaternion.rotate_scale]
  have hSq : (q.rotate (w.unscale 2.0)).normSq = (w.unscale 2.0).normSq :=
    Quaternion.normSq_rotate h _
  unfold exp
  dsimp only
  rw [hHalf, hSq]
  split
  · rw [Quaternion.one_eq, mul_one, Quaternion.mul_inverse_self h]
  · obtain ⟨hVector, hScalar⟩ := Quaternion.conj_parts h _
    rw [← Quaternion.rotate_scale]
    exact Quaternion.ext_parts hVector hScalar

theorem leftJacobian_rotate {q : Quaternion ℝ} (h : q.normSq = 1) (w v : Vec3 ℝ) :
    (leftJacobian (q.rotate w)).apply (q.rotate v) = q.rotate ((leftJacobian w).apply v) := by
  rw [leftJacobian_apply, leftJacobian_apply, Quaternion.norm_rotate h, Quaternion.rotate_turn h]

/-- A rotation moves a vector by what the left Jacobian makes of its product with the rotation
vector. -/
theorem exp_rotate_eq_add {w : Vec3 ℝ} (h : w.norm = 0 ∨ 1e-4 ≤ w.norm) (v : Vec3 ℝ) :
    (exp w).rotate v = v + (leftJacobian w).apply (w.cross v) := by
  rw [leftJacobian_apply, Vec3.turn_cross_axis]
  rcases h with hZero | hLarge
  · rw [Vec3.norm_eq_zero_iff.mp hZero, exp_zero, Quaternion.one_rotate]
    simp only [Vec3.cross, Vec3.scale, Vec3.add_eq, Vec3.zero, zero_mul, sub_zero, add_zero]
  · have hPos : 0 < w.norm := lt_of_lt_of_le (by norm_num) hLarge
    have hExp : Coefficient.exp w.norm = Coefficient.expClosed w.norm := if_neg (not_lt.mpr hLarge)
    obtain ⟨-, hSine, -⟩ := Coefficient.closed_relations hPos.ne'
    rw [Vec3.norm_mul_norm] at hSine
    rw [exp_rotate (lt_of_lt_of_le (by norm_num) hLarge), hExp, hSine, Vec3.turn, add_assoc]

end Rotation

namespace Placement

theorem adjoint_mul {m n : Placement ℝ} (hm : m.rotation.normSq = 1) (hn : n.rotation.normSq = 1) :
    (m * n).adjoint = m.adjoint * n.adjoint := by
  have hmn : (m * n).rotation.normSq = 1 := by
    rw [mul_eq, Quaternion.normSq_mul, hm, hn, one_mul]
  apply Mat6.ext_apply
  intro ν
  rw [Mat6.apply_mul, adjoint_apply hm, adjoint_apply hn, adjoint_apply hmn]
  apply Motion.ext
  · simp only [mul_eq, Quaternion.rotate_mul hm hn, Quaternion.rotate_add, Vec3.add_cross,
      Quaternion.rotate_cross hm]
    rw [add_comm (m.translation.cross _), add_assoc]
  · exact Quaternion.rotate_mul hm hn ν.angular

theorem adjoint_one : (one : Placement ℝ).adjoint = Mat6.identity := by
  have hUnit : (one : Placement ℝ).rotation.normSq = 1 := by
    simp [one, Quaternion.one, Quaternion.normSq]
  apply Mat6.ext_apply
  intro ν
  rw [adjoint_apply hUnit, Mat6.apply_identity]
  simp only [one, Quaternion.one_rotate, Vec3.cross, Vec3.add_eq, Vec3.zero, zero_mul, sub_zero,
    add_zero]

theorem adjoint_inverse_mul {m : Placement ℝ} (h : m.rotation.normSq = 1) :
    m.inverse.adjoint * m.adjoint = Mat6.identity := by
  have hInverse : m.inverse.rotation.normSq = 1 := (Quaternion.normSq_inverse _).trans h
  rw [← adjoint_mul hInverse h, inverse_mul_self h, adjoint_one]

theorem conj_exp {m : Placement ℝ} (h : m.rotation.normSq = 1) {δ : Motion ℝ}
    (hAngle : δ.angular.norm = 0 ∨ 1e-4 ≤ δ.angular.norm) :
    m * exp δ * m.inverse = exp (m.adjoint.apply δ) := by
  rw [adjoint_apply h]
  have hConj := Rotation.conj_exp h δ.angular
  have hTurned : (m.rotation * Rotation.exp δ.angular).normSq = 1 := by
    rw [Quaternion.normSq_mul, h, Rotation.normSq_exp, one_mul]
  have hInverse : m.rotation.inverse.normSq = 1 := (Quaternion.normSq_inverse _).trans h
  apply Placement.ext
  · -- The way back runs along the conjugated rotation.
    have hBack : (m.rotation * Rotation.exp δ.angular).rotate
        (m.rotation.inverse.rotate (-m.translation)) = -m.translation +
          (Rotation.leftJacobian (m.rotation.rotate δ.angular)).apply
            (m.translation.cross (m.rotation.rotate δ.angular)) := by
      rw [← Quaternion.rotate_mul hTurned hInverse, hConj,
        Rotation.exp_rotate_eq_add (by rwa [Quaternion.norm_rotate h]), Vec3.cross_neg]
    simp only [mul_eq, inverse, exp]
    rw [hBack, Mat3.add_apply, Rotation.leftJacobian_rotate h, add_comm m.translation,
      add_assoc, add_neg_cancel_left]
  · exact hConj

/-- The adjoint is a representation of the placements with a rotation of norm one, and it is how they
move the motions under the exponential. -/
theorem adjoint_represents {m : Placement ℝ} (hm : m.rotation.normSq = 1) :
    (∀ n : Placement ℝ, n.rotation.normSq = 1 → (m * n).adjoint = m.adjoint * n.adjoint) ∧
    m.inverse.adjoint * m.adjoint = Mat6.identity ∧
    ∀ δ : Motion ℝ, δ.angular.norm = 0 ∨ 1e-4 ≤ δ.angular.norm →
      m * exp δ * m.inverse = exp (m.adjoint.apply δ) :=
  ⟨fun _ hn => adjoint_mul hm hn, adjoint_inverse_mul hm, fun _ h => conj_exp hm h⟩

noncomputable def corner : Placement ℝ := ⟨⟨1, -1, 2.5⟩, ⟨0.5, 0.5, 0.5, 0.5⟩⟩

noncomputable def hinge : Placement ℝ := ⟨⟨0, 1.5, 0⟩, ⟨0.6, 0, 0, -0.8⟩⟩

theorem adjoint_represents_corner : corner.rotation.normSq = 1 ∧ hinge.rotation.normSq = 1 ∧
    1e-4 ≤ screw.angular.norm ∧
    (corner * hinge).adjoint = corner.adjoint * hinge.adjoint ∧
    corner.inverse.adjoint * corner.adjoint = Mat6.identity ∧
    corner * exp screw * corner.inverse = exp (corner.adjoint.apply screw) := by
  have hCorner : corner.rotation.normSq = 1 := by
    norm_num [corner, Quaternion.normSq]
  have hHinge : hinge.rotation.normSq = 1 := by
    norm_num [hinge, Quaternion.normSq]
  have hLarge : 1e-4 ≤ screw.angular.norm := by
    rw [norm_screw]
    norm_num
  obtain ⟨hProduct, hInverse, hConj⟩ := adjoint_represents hCorner
  exact ⟨hCorner, hHinge, hLarge, hProduct hinge hHinge, hInverse, hConj screw (.inr hLarge)⟩

end Placement

end MultibodyCost
