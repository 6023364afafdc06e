import MultibodyCost.Proofs.Geometry.Inversion
import MultibodyCost.Proofs.State.Flow

/-! # Differences are antisymmetric

What leads from one state to another and what leads back are opposite tangents, because the relative
placement of a joint is inverted where its two configurations are exchanged. A free-flying joint has
to turn by an angle at which its logarithm is in closed form, or not at all; rotations alone need
nothing. A difference of a state with itself is its own opposite, and so zero.
-/

namespace MultibodyCost

theorem Vec3.toVec_neg (v : Vec3 ℝ) : (-v).toVec = v.toVec.scale (-1) := by
  apply Vec.ext_entry ((size_toVec (-v)).trans ((Vec.size_scale _ _).trans (size_toVec v)).symm)
  intro i hi
  rw [size_toVec] at hi
  rw [Vec.entry_scale, mul_neg, mul_one]
  interval_cases i <;> rfl

theorem Motion.toVec_neg (ν : Motion ℝ) : (-ν).toVec = ν.toVec.scale (-1) := by
  apply Vec.ext_entry ((size_toVec (-ν)).trans ((Vec.size_scale _ _).trans (size_toVec ν)).symm)
  intro i hi
  rw [size_toVec] at hi
  rw [Vec.entry_scale, mul_neg, mul_one]
  interval_cases i <;> rfl

theorem Rotation.angleBetween_self {q : Quaternion ℝ} (h : q.normSq ≠ 0) : angleBetween q q = 0 := by
  have hProduct : q.x * q.x + q.y * q.y + q.z * q.z + q.w * q.w = q.norm * q.norm :=
    q.norm_mul_norm.symm
  have hPos : 0 < q.norm * q.norm := mul_self_pos.mpr (Quaternion.norm_ne_zero h)
  rw [angleBetween, hProduct, abs_of_pos hPos, div_self hPos.ne', Real.arccos_one, mul_zero]

namespace JointKind

/-- A free-flying joint turns by no angle, or by one at which the logarithm is in closed form. -/
def Discerns (k : JointKind) (θ : ℝ) : Prop := k = freeFlyer → θ = 0 ∨ 1e-4 ≤ θ

theorem diff_swap {k : JointKind} {q0 q1 : Vec ℝ} (h0 : k.Oriented q0) (h1 : k.Oriented q1)
    (hAngle : ∀ r, k.rotationStart? = some r →
      k.Discerns (Rotation.angleBetween (Quaternion.stored q0 r) (Quaternion.stored q1 r))) :
    k.diff q1 q0 = (k.diff q0 q1).scale (-1) := by
  have ofCoordinate :
      (#[q0.entry 0 - q1.entry 0] : Vec ℝ) = Vec.scale #[q1.entry 0 - q0.entry 0] (-1) := by
    rw [← neg_sub, ← mul_neg_one]
    rfl
  cases k with
  | revolute => exact ofCoordinate
  | prismatic => exact ofCoordinate
  | spherical =>
    change (Rotation.log ((Quaternion.ofVec q1 0).inverse * Quaternion.ofVec q0 0)).toVec =
      (Rotation.log ((Quaternion.ofVec q0 0).inverse * Quaternion.ofVec q1 0)).toVec.scale (-1)
    rw [← Quaternion.inverse_relative, Rotation.log_inverse, Vec3.toVec_neg]
  | freeFlyer =>
    have hp := Quaternion.normSq_ne_zero (h0 3 rfl)
    have hq := Quaternion.normSq_ne_zero (h1 3 rfl)
    have hm : (Placement.ofVec q0 0).rotation.normSq = 1 := Quaternion.normSq_ofVec (h0 3 rfl)
    have hn : (Placement.ofVec q1 0).rotation.normSq = 1 := Quaternion.normSq_ofVec (h1 3 rfl)
    have hNorm := hAngle 3 rfl rfl
    rw [← Rotation.norm_log_relative hp hq] at hNorm
    have hLog := Placement.log_inverse (m := (Placement.ofVec q0 0).inverse * Placement.ofVec q1 0)
      (Quaternion.normSq_relative hm hn) hNorm
    change (Placement.log ((Placement.ofVec q1 0).inverse * Placement.ofVec q0 0)).toVec =
      (Placement.log ((Placement.ofVec q0 0).inverse * Placement.ofVec q1 0)).toVec.scale (-1)
    rw [← Placement.inverse_relative hm hn, hLog, Motion.toVec_neg]

end JointKind

namespace Multibody

/-- Between the two states every free-flying joint turns by no angle, or by one at which the logarithm
is in closed form. -/
def DiscernsBases (s : Multibody ℝ) (x0 x1 : Vec ℝ) : Prop :=
  ∀ j ∈ s.model.joints, ∀ r, j.kind.rotationStart? = some r → j.kind.Discerns
    (Rotation.angleBetween (Quaternion.stored x0 (j.idxQ + r)) (Quaternion.stored x1 (j.idxQ + r)))

variable {s : Multibody ℝ}

theorem IsDiff.swap (h : s.model.WellFormed) {x0 x1 d d' : Vec ℝ} (h0 : s.Oriented x0)
    (h1 : s.Oriented x1) (hAngle : s.DiscernsBases x0 x1) (hd : s.IsDiff x0 x1 d)
    (hd' : s.IsDiff x1 x0 d') : d' = d.scale (-1) := by
  apply ext_tangent h hd'.size ((Vec.size_scale d _).trans hd.size)
  · intro j hj
    rw [Vec.slice_scale, hd.joint j hj, hd'.joint j hj]
    apply JointKind.diff_swap (h0.joint hj) (h1.joint hj)
    intro r hr
    obtain ⟨hFits, -⟩ := JointKind.rotation_fits hr
    rw [Quaternion.stored_slice x0 hFits, Quaternion.stored_slice x1 hFits]
    exact hAngle j hj r hr
  · intro k hk
    rw [Vec.entry_scale, hd.velocity k hk, hd'.velocity k hk, mul_neg_one, neg_sub]

theorem Oriented.discernsBases_self {x : Vec ℝ} (hx : s.Oriented x) : s.DiscernsBases x x :=
  fun j hj r hr _ => .inl (Rotation.angleBetween_self (Quaternion.normSq_ne_zero (hx j hj r hr)))

/-- On the states of every built model the difference of two states changes its sign where they are
exchanged, up to and including half a turn of each joint; a state does not differ from itself. -/
theorem differences_antisymmetric (es : List (Model.Edit ℝ)) :
    let s : Multibody ℝ := ⟨(Model.empty : Model ℝ).edited es⟩
    (∀ x0 x1, x0.size = s.nx → x1.size = s.nx → s.Oriented x0 → s.Oriented x1 →
      s.DiscernsBases x0 x1 →
        ∃ d, s.diff x0 x1 = .ok d ∧ s.diff x1 x0 = .ok (d.scale (-1))) ∧
    ∀ x, x.size = s.nx → s.Oriented x → s.diff x x = .ok (Vec.zeros s.ndx) := by
  intro s
  have h : s.model.WellFormed := Model.WellFormed.empty.edited es
  constructor
  · intro x0 x1 hx0 hx1 h0 h1 hAngle
    obtain ⟨d, hDiff, hd⟩ := exists_diff h hx0 hx1
    obtain ⟨d', hDiff', hd'⟩ := exists_diff h hx1 hx0
    refine ⟨d, hDiff, ?_⟩
    rw [hDiff', hd.swap h h0 h1 hAngle hd']
  · intro x hx hOriented
    obtain ⟨d, hDiff, hd⟩ := exists_diff h hx hx
    have hOpposite : d = d.scale (-1) :=
      hd.swap h hOriented hOriented hOriented.discernsBases_self hd
    have hZero : d = Vec.zeros s.ndx := by
      apply Vec.ext_entry (hd.size.trans (Vec.size_zeros _).symm)
      intro k _
      have hEntry := congrArg (fun v : Vec ℝ => v.entry k) hOpposite
      rw [Vec.entry_scale] at hEntry
      rw [Vec.entry_zeros]
      linarith
    rw [hDiff, hZero]

theorem differences_antisymmetric_arm :
    let x0 := armState ⟨0, 0, 0, 2⟩ ⟨0, 0, 0, 1⟩
    let x1 := armState ⟨0, 0, 3, 0⟩ ⟨1, 0, 0, -2⟩
    (x0.size = arm.nx ∧ x1.size = arm.nx ∧ arm.Oriented x0 ∧ arm.Oriented x1 ∧
      arm.DiscernsBases x0 x1) ∧
    (∃ d, arm.diff x0 x1 = .ok d ∧ arm.diff x1 x0 = .ok (d.scale (-1))) ∧
    arm.diff x1 x1 = .ok (Vec.zeros arm.ndx) := by
  intro x0 x1
  have hx0 : x0.size = arm.nx := size_armState _ _
  have hx1 : x1.size = arm.nx := size_armState _ _
  have h0 : arm.Oriented x0 := oriented_armState (by simp) (by simp)
  have h1 : arm.Oriented x1 := oriented_armState (by simp) (by simp)
  have hAngle : arm.DiscernsBases x0 x1 := by
    apply forall_rotation_arm
    · -- The base has half a turn to go.
      intro _
      right
      change 1e-4 ≤ Rotation.angleBetween ⟨0, 0, 0, 2⟩ ⟨0, 0, 3, 0⟩
      rw [angleBetween_base]
      linarith [Real.pi_gt_three]
    · rintro ⟨⟩
  obtain ⟨hSwap, hSelf⟩ := differences_antisymmetric armRun
  exact ⟨⟨hx0, hx1, h0, h1, hAngle⟩, hSwap x0 x1 hx0 hx1 h0 h1 hAngle, hSelf x1 hx1 h1⟩

end Multibody

end MultibodyCost
