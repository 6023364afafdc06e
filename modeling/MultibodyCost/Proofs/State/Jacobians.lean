import MultibodyCost.Proofs.Geometry.Entries
import MultibodyCost.Proofs.Geometry.Jacobian
import MultibodyCost.Proofs.State.Offsets

/-! # The derivatives of states fit together

An increment by a difference ends at the second state, whatever the first one is. The derivatives of
the two operations therefore satisfy two equations, one for each state. They hold for the blocks of
every joint and for the velocities, and products of matrices along a diagonal are taken block by
block. For rotations they need an angle at which the Jacobians are inverse to each other.
-/

namespace MultibodyCost

namespace Jacobians

def Square (n : Nat) (j : Jacobians ℝ) : Prop :=
  (j.first.rows = n ∧ j.first.cols = n) ∧ j.second.rows = n ∧ j.second.cols = n

/-- The derivatives `jd` of a difference and `ji` of an increment by it, where the increment ends at
the second argument of the difference. -/
structure ChainRule (n : Nat) (jd ji : Jacobians ℝ) : Prop where
  diff : jd.Square n
  increment : ji.Square n
  target : ji.second.mul jd.second = Mat.identity n
  origin : ji.first.add (ji.second.mul jd.first) = Mat.zeros n n

noncomputable def directSum (a b : Jacobians ℝ) : Jacobians ℝ :=
  ⟨Mat.directSum 0 a.first b.first, Mat.directSum 0 a.second b.second⟩

theorem Square.directSum {m n : Nat} {a b : Jacobians ℝ} (ha : a.Square m) (hb : b.Square n) :
    (a.directSum b).Square (m + n) := by
  obtain ⟨⟨hRows, hCols⟩, hRows', hCols'⟩ := ha
  obtain ⟨⟨kRows, kCols⟩, kRows', kCols'⟩ := hb
  exact ⟨⟨congrArg₂ (· + ·) hRows kRows, congrArg₂ (· + ·) hCols kCols⟩,
    congrArg₂ (· + ·) hRows' kRows', congrArg₂ (· + ·) hCols' kCols'⟩

theorem ChainRule.directSum {m n : Nat} {jd ji kd ki : Jacobians ℝ} (h : ChainRule m jd ji)
    (h' : ChainRule n kd ki) : ChainRule (m + n) (jd.directSum kd) (ji.directSum ki) := by
  have hProduct : ∀ {a b c d : Mat ℝ}, a.cols = m → c.rows = m → b.cols = n → d.rows = n →
      (Mat.directSum 0 a b).mul (Mat.directSum 0 c d) = Mat.directSum 0 (a.mul c) (b.mul d) :=
    fun ha hc hb hd => Mat.mul_directSum (ha.trans hc.symm) (hb.trans hd.symm)
  obtain ⟨⟨jFirst, jSecond⟩, ⟨iFirst, iSecond⟩, jTarget, jOrigin⟩ := h
  obtain ⟨⟨kFirst, kSecond⟩, ⟨lFirst, lSecond⟩, kTarget, kOrigin⟩ := h'
  refine ⟨Square.directSum ⟨jFirst, jSecond⟩ ⟨kFirst, kSecond⟩,
    Square.directSum ⟨iFirst, iSecond⟩ ⟨lFirst, lSecond⟩, ?_, ?_⟩
  · change (Mat.directSum 0 ji.second ki.second).mul (Mat.directSum 0 jd.second kd.second) = _
    rw [hProduct iSecond.2 jSecond.1 lSecond.2 kSecond.1, jTarget, kTarget, Mat.directSum_identity]
  · change (Mat.directSum 0 ji.first ki.first).add
      ((Mat.directSum 0 ji.second ki.second).mul (Mat.directSum 0 jd.first kd.first)) = _
    rw [hProduct iSecond.2 jFirst.1 lSecond.2 kFirst.1,
      Mat.add_directSum (c := ji.second.mul jd.first) (d := ki.second.mul kd.first)
        (iFirst.1.trans iSecond.1.symm) (iFirst.2.trans jFirst.2.symm)
        (lFirst.1.trans lSecond.1.symm) (lFirst.2.trans kFirst.2.symm),
      jOrigin, kOrigin, Mat.directSum_zeros]

end Jacobians

section Cancel

theorem Mat3.mul_neg_mul {a j k : Mat3 ℝ} (h : j * k = identity) : j * (-k * a) = -a := by
  apply ext_apply
  intro v
  rw [apply_mul, apply_mul, apply_neg, neg_apply, ← apply_mul j k, h, apply_identity, apply_neg]

theorem Mat6.mul_neg_mul {a j k : Mat6 ℝ} (h : j * k = identity) : j * (-k * a) = -a := by
  apply ext_apply
  intro m
  rw [apply_mul, apply_mul, apply_neg, neg_apply, ← apply_mul j k, h, apply_identity, apply_neg]

theorem Mat3.chainRule {a j k : Mat3 ℝ} (h : j * k = identity) :
    Jacobians.ChainRule 3 ⟨(-k * a).toMat, k.toMat⟩ ⟨a.toMat, j.toMat⟩ := by
  refine ⟨⟨⟨rfl, rfl⟩, rfl, rfl⟩, ⟨⟨rfl, rfl⟩, rfl, rfl⟩, ?_, ?_⟩
  · change j.toMat.mul k.toMat = _
    rw [← toMat_mul, h, toMat_identity]
  · change a.toMat.add (j.toMat.mul (-k * a).toMat) = _
    rw [← toMat_mul, mul_neg_mul h, toMat_add_neg]

theorem Mat6.chainRule {a j k : Mat6 ℝ} (h : j * k = identity) :
    Jacobians.ChainRule 6 ⟨(-k * a).toMat, k.toMat⟩ ⟨a.toMat, j.toMat⟩ := by
  refine ⟨⟨⟨rfl, rfl⟩, rfl, rfl⟩, ⟨⟨rfl, rfl⟩, rfl, rfl⟩, ?_, ?_⟩
  · change j.toMat.mul k.toMat = _
    rw [← toMat_mul, h, toMat_identity]
  · change a.toMat.add (j.toMat.mul (-k * a).toMat) = _
    rw [← toMat_mul, mul_neg_mul h, toMat_add_neg]

theorem Mat.chainRule_identity (n : Nat) : Jacobians.ChainRule n
    ⟨(identity n).scale (-1), (identity n).scale 1⟩ ⟨(identity n).scale 1, (identity n).scale 1⟩ := by
  refine ⟨⟨⟨rfl, rfl⟩, rfl, rfl⟩, ⟨⟨rfl, rfl⟩, rfl, rfl⟩, ?_, ?_⟩
  · have hRows : (identity n : Mat ℝ).rows = n := rfl
    change ((identity n).scale 1).mul ((identity n).scale 1) = _
    rw [scale_one, identity_mul hRows]
  · have hRows : ((identity n : Mat ℝ).scale (-1)).rows = n := rfl
    change ((identity n).scale 1).add (((identity n).scale 1).mul ((identity n).scale (-1))) = _
    rw [scale_one, identity_mul hRows]
    exact add_scale_neg_one (identity n)

end Cancel

namespace JointKind

open Multibody

noncomputable def diffJacobians (k : JointKind) (d : Vec ℝ) : Jacobians ℝ :=
  ⟨k.block (-1) diffFirst d, k.block 1 diffSecond d⟩

noncomputable def integrateJacobians (k : JointKind) (d : Vec ℝ) : Jacobians ℝ :=
  ⟨k.block 1 integrateFirst d, k.block 1 integrateSecond d⟩

theorem chainRule {k : JointKind} {d : Vec ℝ} (h : ∀ r, k.rotationStart? = some r →
      ((Vec3.ofVec d r).norm = 0 ∨ 1e-4 ≤ (Vec3.ofVec d r).norm) ∧
        (Vec3.ofVec d r).norm ≤ Real.pi) :
    Jacobians.ChainRule k.nv (k.diffJacobians d) (k.integrateJacobians d) := by
  cases k with
  | revolute => exact Mat.chainRule_identity 1
  | prismatic => exact Mat.chainRule_identity 1
  | spherical =>
    obtain ⟨hAngle, hPi⟩ := h 0 rfl
    exact Mat3.chainRule (Rotation.jacobian_mul_inverseJacobian hAngle hPi)
  | freeFlyer =>
    obtain ⟨hAngle, hPi⟩ := h 3 rfl
    exact Mat6.chainRule (Placement.jacobian_mul_inverseJacobian hAngle hPi)

theorem norm_diff {k : JointKind} {q0 q1 : Vec ℝ} (h0 : k.Oriented q0) (h1 : k.Oriented q1) {r : Nat}
    (hr : k.rotationStart? = some r) : (Vec3.ofVec (k.diff q0 q1) r).norm =
      Rotation.angleBetween (Quaternion.stored q0 r) (Quaternion.stored q1 r) := by
  have hAngle := Rotation.norm_log_relative (Quaternion.normSq_ne_zero (h0 r hr))
    (Quaternion.normSq_ne_zero (h1 r hr))
  cases k with
  | revolute => cases hr
  | prismatic => cases hr
  | spherical =>
    cases hr
    exact hAngle
  | freeFlyer =>
    cases hr
    exact hAngle

end JointKind

theorem Rotation.angleBetween_le_pi (p q : Quaternion ℝ) : angleBetween p q ≤ Real.pi := by
  have hNonneg : 0 ≤ |p.x * q.x + p.y * q.y + p.z * q.z + p.w * q.w| / (p.norm * q.norm) :=
    div_nonneg (abs_nonneg _) (mul_nonneg (Real.sqrt_nonneg _) (Real.sqrt_nonneg _))
  have hHalf := Real.arccos_le_pi_div_two.mpr hNonneg
  rw [angleBetween]
  linarith

namespace Product

open Multibody

noncomputable def diffJacobians (ks : List JointKind) (d : List ℝ) : Jacobians ℝ :=
  ⟨jacobian (-1) diffFirst ks d, jacobian 1 diffSecond ks d⟩

noncomputable def integrateJacobians (ks : List JointKind) (d : List ℝ) : Jacobians ℝ :=
  ⟨jacobian 1 integrateFirst ks d, jacobian 1 integrateSecond ks d⟩

theorem diffJacobians_cons (k : JointKind) (ks : List JointKind) (d : List ℝ) :
    diffJacobians (k :: ks) d =
      (k.diffJacobians (d.take k.nv).toArray).directSum (diffJacobians ks (d.drop k.nv)) := by
  simp only [diffJacobians, jacobian, zero_mul]
  rfl

theorem integrateJacobians_cons (k : JointKind) (ks : List JointKind) (d : List ℝ) :
    integrateJacobians (k :: ks) d =
      (k.integrateJacobians (d.take k.nv).toArray).directSum (integrateJacobians ks (d.drop k.nv)) := by
  simp only [integrateJacobians, jacobian, zero_mul]
  rfl

theorem chainRule {js : List (Joint ℝ)} {start stop : Nat} {d : Vec ℝ}
    (hTiles : Tiles start stop (js.map fun j => (j.idxV, j.kind.nv))) (hStop : stop ≤ d.size)
    (hJoint : ∀ j ∈ js, Jacobians.ChainRule j.kind.nv (j.kind.diffJacobians (d.slice j.idxV j.kind.nv))
      (j.kind.integrateJacobians (d.slice j.idxV j.kind.nv))) :
    Jacobians.ChainRule (d.size - start)
      (diffJacobians (js.map Joint.kind) (d.toList.drop start))
      (integrateJacobians (js.map Joint.kind) (d.toList.drop start)) := by
  induction js generalizing start with
  | nil =>
    have hLength : (d.toList.drop start).length = d.size - start := by
      rw [List.length_drop, Array.length_toList]
    rw [← hLength]
    exact Mat.chainRule_identity _
  | cons j js ih =>
    obtain ⟨hFirst, hRest⟩ := hTiles
    replace hFirst : j.idxV = start := hFirst
    have hFits : start + j.kind.nv ≤ d.size := hRest.start_le_stop.trans hStop
    have hHead := hJoint j List.mem_cons_self
    have hTail := ih hRest fun j' hj' => hJoint j' (List.mem_cons_of_mem j hj')
    have hSize : d.size - start = j.kind.nv + (d.size - (start + j.kind.nv)) := by
      omega
    rw [hFirst, ← Vec.toArray_take_drop hFits] at hHead
    rw [List.map_cons, diffJacobians_cons, integrateJacobians_cons, List.drop_drop, hSize]
    exact hHead.directSum hTail

end Product

namespace Jacobians

variable {α : Type} [Scalar α]

def restrict (j : Jacobians α) : Wanted → Jacobians α
  | .both => j
  | .first => ⟨j.first, .zeros 0 0⟩
  | .second => ⟨.zeros 0 0, j.second⟩

theorem select_eq_restrict (wanted : Wanted) (first second : Mat α) :
    select wanted first second = (select .both first second).restrict wanted := by
  cases wanted <;> rfl

end Jacobians

namespace Multibody

theorem jdiff_wanted {α : Type} [Elementary α] (s : Multibody α) (x0 x1 : Vec α) (wanted : Wanted) :
    s.jdiff x0 x1 wanted = (s.jdiff x0 x1 .both).map fun j => j.restrict wanted := by
  rw [jdiff, jdiff]
  cases s.diff x0 x1 with
  | error e => rfl
  | ok d => exact congrArg Except.ok (Jacobians.select_eq_restrict wanted _ _)

theorem jintegrate_wanted {α : Type} [Elementary α] (s : Multibody α) (x dx : Vec α)
    (wanted : Wanted) :
    s.jintegrate x dx wanted = (s.jintegrate x dx .both).map fun j => j.restrict wanted := by
  rw [jintegrate, jintegrate]
  cases s.checkStep x dx with
  | error e => rfl
  | ok u => exact congrArg Except.ok (Jacobians.select_eq_restrict wanted _ _)

structure IsBlockDiagonal (s : Multibody ℝ) (m : Mat ℝ) : Prop where
  rows : m.rows = s.ndx
  cols : m.cols = s.ndx
  outside : ∀ i k, (∀ j ∈ s.model.joints, ¬j.InBlock i k) → ¬(s.nv ≤ i ∧ s.nv ≤ k) →
    m.entry i k = 0

def Discerns (s : Multibody ℝ) (d : Vec ℝ) : Prop :=
  ∀ j ∈ s.model.joints, ∀ r, j.kind.rotationStart? = some r →
    (Vec3.ofVec d (j.idxV + r)).norm = 0 ∨ 1e-4 ≤ (Vec3.ofVec d (j.idxV + r)).norm

variable {s : Multibody ℝ}

theorem IsBlocks.isBlockDiagonal (h : s.model.WellFormed) {sign : ℝ} {blocks : JointKind.Blocks ℝ}
    {d : Vec ℝ} {m : Mat ℝ} (hm : s.IsBlocks sign blocks d m) : s.IsBlockDiagonal m where
  rows := hm.rows
  cols := hm.cols
  outside i k hOutside hFront := by
    by_cases hShape : i < s.ndx ∧ k < s.ndx
    · rw [hm.outside i k hShape.1 hShape.2 hOutside, if_neg, zero_mul]
      -- An entry on the diagonal is in the block of a joint or of the velocities.
      rintro rfl
      obtain ⟨_, hMem, hIn⟩ := h.tilesV.exists_slice (Nat.zero_le i)
        (Nat.lt_of_not_le fun hi => hFront ⟨hi, hi⟩)
      obtain ⟨j, hj, rfl⟩ := List.mem_map.mp hMem
      exact hOutside j hj ⟨hIn.1, hIn.2, hIn.1, hIn.2⟩
    · apply Mat.entry_eq_zero
      rw [hm.rows, hm.cols]
      omega

theorem IsDiff.norm_rotation {x0 x1 d : Vec ℝ} (h0 : s.Oriented x0) (h1 : s.Oriented x1)
    (hd : s.IsDiff x0 x1 d) {j : Joint ℝ} (hj : j ∈ s.model.joints) {r : Nat}
    (hr : j.kind.rotationStart? = some r) : (Vec3.ofVec d (j.idxV + r)).norm =
      Rotation.angleBetween (Quaternion.stored x0 (j.idxQ + r))
        (Quaternion.stored x1 (j.idxQ + r)) := by
  obtain ⟨hFitsQ, hFitsV⟩ := JointKind.rotation_fits hr
  rw [← Vec3.ofVec_slice d hFitsV, hd.joint j hj, JointKind.norm_diff (h0.joint hj) (h1.joint hj) hr,
    Quaternion.stored_slice x0 hFitsQ, Quaternion.stored_slice x1 hFitsQ]

theorem IsDiff.chainRule (h : s.model.WellFormed) {x0 x1 d : Vec ℝ} (h0 : s.Oriented x0)
    (h1 : s.Oriented x1) (hd : s.IsDiff x0 x1 d) (hAngle : s.Discerns d) :
    Jacobians.ChainRule s.ndx (Product.diffJacobians s.kinds d.toList)
      (Product.integrateJacobians s.kinds d.toList) := by
  have hFits : s.nv ≤ d.size := (Nat.le_mul_of_pos_left _ Nat.zero_lt_two).trans hd.size.ge
  have hRule := Product.chainRule h.tilesV hFits (by
    intro j hj
    apply JointKind.chainRule
    intro r hr
    rw [Vec3.ofVec_slice d (JointKind.rotation_fits hr).2]
    refine ⟨hAngle j hj r hr, ?_⟩
    rw [hd.norm_rotation h0 h1 hj hr]
    exact Rotation.angleBetween_le_pi _ _)
  rwa [List.drop_zero, Nat.sub_zero, hd.size] at hRule

/-- The derivatives of a difference of states and of the increment by it: each of them is zero
outside of the diagonal blocks, those that are not wanted are left out, and at angles that are
discerned they satisfy the chain rule. -/
theorem derivatives_chainRule (es : List (Model.Edit ℝ)) :
    let s : Multibody ℝ := ⟨(Model.empty : Model ℝ).edited es⟩
    ∀ x0 x1, x0.size = s.nx → x1.size = s.nx → s.Oriented x0 → s.Oriented x1 →
      ∃ (d : Vec ℝ) (jd ji : Jacobians ℝ), s.diff x0 x1 = .ok d ∧
        (∀ wanted, s.jdiff x0 x1 wanted = .ok (jd.restrict wanted) ∧
          s.jintegrate x0 d wanted = .ok (ji.restrict wanted)) ∧
        (s.IsBlockDiagonal jd.first ∧ s.IsBlockDiagonal jd.second ∧
          s.IsBlockDiagonal ji.first ∧ s.IsBlockDiagonal ji.second) ∧
        (s.Discerns d → ji.second.mul jd.second = Mat.identity s.ndx ∧
          ji.first.add (ji.second.mul jd.first) = Mat.zeros s.ndx s.ndx) := by
  intro s x0 x1 hx0 hx1 h0 h1
  have h : s.model.WellFormed := Model.WellFormed.empty.edited es
  obtain ⟨d, hDiff, hd⟩ := exists_diff h hx0 hx1
  have hDiagonal : ∀ sign blocks, s.IsBlockDiagonal (s.blockJacobian sign blocks d) :=
    fun sign blocks => (isBlocks_blockJacobian h sign blocks d).isBlockDiagonal h
  have hBothDiff : s.jdiff x0 x1 .both =
      .ok ⟨s.blockJacobian (-1) diffFirst d, s.blockJacobian 1 diffSecond d⟩ := by
    rw [jdiff, hDiff]
    rfl
  have hBothStep : s.jintegrate x0 d .both =
      .ok ⟨s.blockJacobian 1 integrateFirst d, s.blockJacobian 1 integrateSecond d⟩ := by
    rw [jintegrate, checkStep_eq_ok hx0 hd.size]
    rfl
  refine ⟨d, ⟨s.blockJacobian (-1) diffFirst d, s.blockJacobian 1 diffSecond d⟩,
    ⟨s.blockJacobian 1 integrateFirst d, s.blockJacobian 1 integrateSecond d⟩, hDiff, ?_,
    ⟨hDiagonal (-1) diffFirst, hDiagonal 1 diffSecond, hDiagonal 1 integrateFirst,
      hDiagonal 1 integrateSecond⟩, ?_⟩
  · intro wanted
    rw [jdiff_wanted, hBothDiff, jintegrate_wanted, hBothStep]
    exact ⟨rfl, rfl⟩
  · intro hAngle
    have hRule := hd.chainRule h h0 h1 hAngle
    simp only [blockJacobian_eq h _ _ hd.size]
    exact ⟨hRule.target, hRule.origin⟩

theorem discerns_arm {d : Vec ℝ}
    (hd : arm.IsDiff (armState ⟨0, 0, 0, 2⟩ ⟨0, 0, 0, 1⟩) (armState ⟨0, 0, 3, 0⟩ ⟨0, 0, 0, -2⟩) d) :
    arm.Discerns d := by
  have h0 : arm.Oriented (armState ⟨0, 0, 0, 2⟩ ⟨0, 0, 0, 1⟩) :=
    oriented_armState (by simp) (by simp)
  have h1 : arm.Oriented (armState ⟨0, 0, 3, 0⟩ ⟨0, 0, 0, -2⟩) :=
    oriented_armState (by simp) (by simp)
  intro j hj r hr
  rw [hd.norm_rotation h0 h1 hj hr]
  revert r j
  apply forall_rotation_arm
  · right
    change 1e-4 ≤ Rotation.angleBetween ⟨0, 0, 0, 2⟩ ⟨0, 0, 3, 0⟩
    rw [angleBetween_base]
    linarith [Real.pi_gt_three]
  · exact .inl angleBetween_wrist

theorem derivatives_chainRule_arm :
    let x0 := armState ⟨0, 0, 0, 2⟩ ⟨0, 0, 0, 1⟩
    let x1 := armState ⟨0, 0, 3, 0⟩ ⟨0, 0, 0, -2⟩
    (x0.size = arm.nx ∧ x1.size = arm.nx ∧ arm.Oriented x0 ∧ arm.Oriented x1) ∧
      ∃ (d : Vec ℝ) (jd ji : Jacobians ℝ), arm.diff x0 x1 = .ok d ∧ arm.Discerns d ∧
        arm.jdiff x0 x1 .both = .ok jd ∧ arm.jintegrate x0 d .both = .ok ji ∧
        ji.second.mul jd.second = Mat.identity arm.ndx ∧
        ji.first.add (ji.second.mul jd.first) = Mat.zeros arm.ndx arm.ndx := by
  intro x0 x1
  have hx0 : x0.size = arm.nx := size_armState _ _
  have hx1 : x1.size = arm.nx := size_armState _ _
  have h0 : arm.Oriented x0 := oriented_armState (by simp) (by simp)
  have h1 : arm.Oriented x1 := oriented_armState (by simp) (by simp)
  refine ⟨⟨hx0, hx1, h0, h1⟩, ?_⟩
  obtain ⟨d, jd, ji, hDiff, hWanted, -, hRule⟩ := derivatives_chainRule armRun x0 x1 hx0 hx1 h0 h1
  have hAngle : arm.Discerns d := by
    obtain ⟨d', hDiff', hd'⟩ := exists_diff (Model.WellFormed.empty.edited armRun) hx0 hx1
    obtain rfl : d' = d := Except.ok.inj (hDiff'.symm.trans hDiff)
    exact discerns_arm hd'
  obtain ⟨hTarget, hOrigin⟩ := hRule hAngle
  exact ⟨d, jd, ji, hDiff, hAngle, (hWanted .both).1, (hWanted .both).2, hTarget, hOrigin⟩

end Multibody

end MultibodyCost
