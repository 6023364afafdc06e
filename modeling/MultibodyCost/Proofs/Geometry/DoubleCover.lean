import MultibodyCost.Proofs.Geometry.Inversion
import MultibodyCost.Proofs.Geometry.Jacobian

/-! # The two quaternions of a rotation

A quaternion and its opposite rotate alike. The logarithm gives both the same rotation vector, the
shortest that there is, except for half a turn: there the scalar part has no sign, both rotation
vectors have the length of half a turn, and each is the opposite of the other. Back from a logarithm
the exponential gives one of the two quaternions, or the identity below its cut-off.
-/

namespace MultibodyCost

open Elementary

namespace Rotation

theorem log_neg {q : Quaternion ℝ} (h : q.w ≠ 0) : log (-q) = log q := by
  have hVector : (-q).vector = -q.vector := rfl
  have hScalar : (-q).w = -q.w := rfl
  -- Of the two scalar parts one is positive, and its vector part is taken on both sides.
  have hShorter : (if 0 ≤ -q.w then -q.vector else - -q.vector) =
      if 0 ≤ q.w then q.vector else -q.vector := by
    rcases lt_or_gt_of_ne h with hNeg | hPos
    · rw [if_pos (neg_nonneg.mpr hNeg.le), if_neg (not_le.mpr hNeg)]
    · rw [if_neg (not_le.mpr (neg_neg_of_pos hPos)), if_pos hPos.le, neg_neg]
  have hAbs : Scalar.abs (-q.w) = Scalar.abs q.w := by
    rw [Scalar.abs_real, Scalar.abs_real, abs_neg]
  unfold log
  dsimp only
  rw [hVector, hScalar, hShorter, hAbs, Vec3.norm_neg]

theorem log_neg_of_halfTurn {q : Quaternion ℝ} (h : q.w = 0) : log (-q) = -log q := by
  have hConj : -q = q.inverse := by
    simp only [Quaternion.neg_eq, Quaternion.inverse, h, neg_zero]
  rw [hConj, log_inverse]

theorem halfAngle_neg (q : Quaternion ℝ) : halfAngle (-q) = halfAngle q :=
  congrArg Real.arccos (abs_neg q.w)

theorem norm_log_of_halfTurn {q : Quaternion ℝ} (h : q.normSq = 1) (hw : q.w = 0) :
    (log q).norm = Real.pi := by
  rw [norm_log h, halfAngle, hw, abs_zero, Real.arccos_zero]
  ring

theorem arccos_abs_cos_le {t : ℝ} (ht : 0 ≤ t) : Real.arccos |Real.cos t| ≤ t := by
  rcases le_or_gt t (Real.pi / 2) with hQuarter | hBeyond
  · have hCos : 0 ≤ Real.cos t := Real.cos_nonneg_of_mem_Icc ⟨by linarith, hQuarter⟩
    rw [abs_of_nonneg hCos, Real.arccos_cos ht (by linarith [Real.pi_pos])]
  · exact (Real.arccos_le_pi_div_two.mpr (abs_nonneg _)).trans hBeyond.le

theorem halfAngle_exp_le (w : Vec3 ℝ) : halfAngle (exp w) ≤ w.norm / 2 := by
  have hHalf : 0 ≤ w.norm / 2 := div_nonneg w.norm_nonneg zero_le_two
  rcases exp_cases w with hOne | ⟨a, -, hPolar⟩
  · rw [hOne]
    change Real.arccos |1| ≤ _
    rwa [abs_one, Real.arccos_one]
  · rw [hPolar]
    exact arccos_abs_cos_le hHalf

/-- Every rotation vector of a rotation is at least as long as its logarithm. -/
theorem norm_log_le {q : Quaternion ℝ} (h : q.normSq = 1) {w : Vec3 ℝ}
    (hw : exp w = q ∨ exp w = -q) : (log q).norm ≤ w.norm := by
  have hAngle : halfAngle (exp w) = halfAngle q := by
    rcases hw with hSame | hOpposite
    · rw [hSame]
    · rw [hOpposite, halfAngle_neg]
  have hLe := halfAngle_exp_le w
  rw [norm_log h]
  linarith

structure LogShortest (q : Quaternion ℝ) : Prop where
  norm_le : (log q).norm ≤ Real.pi
  shortest : ∀ w, exp w = q ∨ exp w = -q → (log q).norm ≤ w.norm
  opposite : q.w ≠ 0 → log (-q) = log q
  halfTurn : q.w = 0 →
    (log q).norm = Real.pi ∧ (log (-q)).norm = Real.pi ∧ log (-q) = -log q
  exp_of_long : 0.5 ^ 51 < (log q).norm → exp (log q) = q ∨ exp (log q) = -q
  exp_of_short : (log q).norm ≤ 0.5 ^ 51 → exp (log q) = .one

theorem logShortest {q : Quaternion ℝ} (h : q.normSq = 1) : LogShortest q where
  norm_le := norm_log_le_pi h
  shortest _ := norm_log_le h
  opposite := log_neg
  halfTurn hw := by
    have hNorm := norm_log_of_halfTurn h hw
    refine ⟨hNorm, ?_, log_neg_of_halfTurn hw⟩
    rw [log_neg_of_halfTurn hw, Vec3.norm_neg, hNorm]
  exp_of_long hLong := exp_log h (.inr hLong)
  exp_of_short hShort := by
    apply Rotation.exp_of_short
    rw [pow_succ] at hShort
    rw [pow_succ, pow_succ]
    linarith

/-- The logarithm is the shortest rotation vector whatever the sign of the quaternion, and between the
cut-off and half a turn exponential and logarithm undo each other. -/
theorem log_exp_shortest :
    (∀ q : Quaternion ℝ, q.normSq = 1 → LogShortest q) ∧
      ∀ w : Vec3 ℝ, 0.5 ^ 51 < w.norm → w.norm ≤ Real.pi → log (exp w) = w :=
  ⟨fun _ h => logShortest h, fun _ hLong hPi => log_exp (.inr hLong) hPi⟩

theorem log_exp_shortest_flip :
    let flip : Quaternion ℝ := ⟨0.6, 0, 0.8, 0⟩
    let tilt : Quaternion ℝ := ⟨0, 0.6, 0, -0.8⟩
    flip.normSq = 1 ∧ (log flip).norm = Real.pi ∧ log (-flip) = -log flip ∧
      tilt.normSq = 1 ∧ log (-tilt) = log tilt ∧
      0.5 ^ 51 < (Placement.screw.angular).norm ∧ Placement.screw.angular.norm ≤ Real.pi ∧
      log (exp Placement.screw.angular) = Placement.screw.angular := by
  intro flip tilt
  obtain ⟨hShortest, hBack⟩ := log_exp_shortest
  have hFlip : flip.normSq = 1 := by
    norm_num [flip, Quaternion.normSq]
  have hTilt : tilt.normSq = 1 := by
    norm_num [tilt, Quaternion.normSq]
  have hLong : 0.5 ^ 51 < Placement.screw.angular.norm := by
    rw [Placement.norm_screw]
    norm_num
  have hPi : Placement.screw.angular.norm ≤ Real.pi := by
    rw [Placement.norm_screw]
    linarith [Real.pi_gt_three]
  obtain ⟨hNorm, -, hOpposite⟩ := (hShortest flip hFlip).halfTurn rfl
  have hSame : log (-tilt) = log tilt := (hShortest tilt hTilt).opposite (by norm_num [tilt])
  exact ⟨hFlip, hNorm, hOpposite, hTilt, hSame, hLong, hPi, hBack _ hLong hPi⟩

end Rotation

end MultibodyCost
