import MultibodyCost.Proofs.State.Joint
import MultibodyCost.Proofs.State.Layout

/-! # Differences and increments undo each other

What holds on the slice of one joint is carried to states of any built model: the quaternion and the
rotation vector of a joint are found at fixed places behind its offsets, and the slices determine a
tangent. The length of a stored quaternion never matters; its sign is lost, because the logarithm
takes the short way round.
-/

namespace MultibodyCost

theorem Quaternion.stored_slice {α : Type} [Scalar α] (v : Vec α) {i n r : Nat} (h : r + 4 ≤ n) :
    stored (v.slice i n) r = stored v (i + r) := by
  simp only [stored]
  rw [Vec.entry_slice v (by omega), Vec.entry_slice v (by omega), Vec.entry_slice v (by omega),
    Vec.entry_slice v (by omega)]
  rfl

theorem Vec3.ofVec_slice {α : Type} [Scalar α] (v : Vec α) {i n r : Nat} (h : r + 3 ≤ n) :
    ofVec (v.slice i n) r = ofVec v (i + r) := by
  simp only [ofVec]
  rw [Vec.entry_slice v (by omega), Vec.entry_slice v (by omega), Vec.entry_slice v (by omega)]
  rfl

theorem JointKind.rotation_fits {k : JointKind} {r : Nat} (h : k.rotationStart? = some r) :
    r + 4 ≤ k.nq ∧ r + 3 ≤ k.nv := by
  cases k <;> cases h <;> decide

namespace Multibody

/-- No quaternion of a state is zero. -/
def Oriented (s : Multibody ℝ) (x : Vec ℝ) : Prop :=
  ∀ j ∈ s.model.joints, ∀ r, j.kind.rotationStart? = some r →
    Quaternion.stored x (j.idxQ + r) ≠ ⟨0, 0, 0, 0⟩

/-- No rotation vector of a tangent exceeds half a turn, and none is short without being zero. -/
def WithinHalfTurn (s : Multibody ℝ) (dx : Vec ℝ) : Prop :=
  ∀ j ∈ s.model.joints, ∀ r, j.kind.rotationStart? = some r →
    (Vec3.ofVec dx (j.idxV + r)).norm = 0 ∨
      1e-4 ≤ (Vec3.ofVec dx (j.idxV + r)).norm ∧ (Vec3.ofVec dx (j.idxV + r)).norm ≤ Real.pi

/-- The joints whose orientations differ do so by an angle at which an increment is exact. -/
def Resolves (s : Multibody ℝ) (x0 x1 : Vec ℝ) : Prop :=
  ∀ j ∈ s.model.joints, ∀ r, j.kind.rotationStart? = some r → j.kind.Resolves
    (Rotation.angleBetween (Quaternion.stored x0 (j.idxQ + r)) (Quaternion.stored x1 (j.idxQ + r)))

/-- A state like the target: the same coordinates outside the quaternions, the same orientations. -/
structure Reaches (s : Multibody ℝ) (y target : Vec ℝ) : Prop where
  size : y.size = s.nx
  coordinate : ∀ k, k < s.nx → (∀ j ∈ s.model.joints, ∀ r, j.kind.rotationStart? = some r →
    k < j.idxQ + r ∨ j.idxQ + r + 4 ≤ k) → y.entry k = target.entry k
  orientation : ∀ j ∈ s.model.joints, ∀ r, j.kind.rotationStart? = some r →
    JointKind.SameOrientation (Quaternion.stored y (j.idxQ + r))
      (Quaternion.stored target (j.idxQ + r))

variable {s : Multibody ℝ}

theorem Oriented.joint {x : Vec ℝ} (h : s.Oriented x) {j : Joint ℝ} (hj : j ∈ s.model.joints) :
    j.kind.Oriented (x.slice j.idxQ j.kind.nq) := by
  intro r hr
  rw [Quaternion.stored_slice x (JointKind.rotation_fits hr).1]
  exact h j hj r hr

theorem IsDiff.eq_of_increment (h : s.model.WellFormed) {x dx y back : Vec ℝ}
    (hdx : dx.size = s.ndx) (hx : s.Oriented x) (hAngle : s.WithinHalfTurn dx)
    (hy : s.IsIncrement x dx y) (hBack : s.IsDiff x y back) : back = dx := by
  apply ext_tangent h hBack.size hdx
  · intro j hj
    rw [hBack.joint j hj, hy.joint j hj]
    apply JointKind.diff_integrate (Vec.size_slice dx _ _) (hx.joint hj)
    intro r hr
    rw [Vec3.ofVec_slice dx (JointKind.rotation_fits hr).2]
    exact hAngle j hj r hr
  · intro k hk
    rw [hBack.velocity k hk, hy.velocity k hk, add_sub_cancel_left]

theorem IsIncrement.reaches (h : s.model.WellFormed) {x0 x1 dx y : Vec ℝ} (h0 : s.Oriented x0)
    (h1 : s.Oriented x1) (hAngle : s.Resolves x0 x1) (hdx : s.IsDiff x0 x1 dx)
    (hy : s.IsIncrement x0 dx y) : s.Reaches y x1 := by
  have onSlice : ∀ j ∈ s.model.joints, ∀ r, j.kind.rotationStart? = some r → j.kind.Resolves
      (Rotation.angleBetween (Quaternion.stored (x0.slice j.idxQ j.kind.nq) r)
        (Quaternion.stored (x1.slice j.idxQ j.kind.nq) r)) := by
    intro j hj r hr
    obtain ⟨hFits, -⟩ := JointKind.rotation_fits hr
    rw [Quaternion.stored_slice x0 hFits, Quaternion.stored_slice x1 hFits]
    exact hAngle j hj r hr
  constructor
  · exact hy.size
  · intro k hk hOutside
    by_cases hFront : k < s.nq
    · -- A coordinate in front of the velocities lies in the slice of some joint.
      obtain ⟨slice, hMem, hStart, hStop⟩ := h.tilesQ.exists_slice (Nat.zero_le k) hFront
      obtain ⟨j, hj, rfl⟩ := List.mem_map.mp hMem
      obtain ⟨i, rfl⟩ := Nat.exists_eq_add_of_le hStart
      have hi : i < j.kind.nq := Nat.lt_of_add_lt_add_left hStop
      rw [← Vec.entry_slice y hi, ← Vec.entry_slice x1 hi, hy.joint j hj, hdx.joint j hj]
      apply (JointKind.integrate_diff (h0.joint hj) (h1.joint hj) (onSlice j hj)).1 i hi
      intro r hr
      have := hOutside j hj r hr
      omega
    · obtain ⟨i, rfl⟩ := Nat.exists_eq_add_of_le (Nat.le_of_not_lt hFront)
      have hi : i < s.nv := Nat.lt_of_add_lt_add_left hk
      rw [hy.velocity i hi, hdx.velocity i hi, add_sub_cancel]
  · intro j hj r hr
    obtain ⟨hFits, -⟩ := JointKind.rotation_fits hr
    rw [← Quaternion.stored_slice y hFits, ← Quaternion.stored_slice x1 hFits, hy.joint j hj,
      hdx.joint j hj]
    exact (JointKind.integrate_diff (h0.joint hj) (h1.joint hj) (onSlice j hj)).2 r hr

theorem IsIncrement.normSq_stored {x dx y : Vec ℝ} (hx : s.Oriented x) (hy : s.IsIncrement x dx y)
    {j : Joint ℝ} (hj : j ∈ s.model.joints) {r : Nat} (hr : j.kind.rotationStart? = some r) :
    (Quaternion.stored y (j.idxQ + r)).normSq = 1 := by
  rw [← Quaternion.stored_slice y (JointKind.rotation_fits hr).1, hy.joint j hj]
  exact JointKind.normSq_stored_integrate (hx.joint hj) _ hr

def armRun : List (Model.Edit ℝ) :=
  [.jointWithLimits "base" .freeFlyer none (-1) 1,
    .jointWithLimits "wrist" .spherical (some 0) (-1) 1,
    .jointWithLimits "slide" .prismatic (some 1) (-1) 1]

noncomputable def arm : Multibody ℝ := ⟨(Model.empty : Model ℝ).edited armRun⟩

theorem model_arm : arm.model =
    ⟨[⟨"base", .freeFlyer, none, 0, 0, -1, 1⟩, ⟨"wrist", .spherical, some 0, 7, 6, -1, 1⟩,
      ⟨"slide", .prismatic, some 1, 11, 9, -1, 1⟩],
     [⟨"base", 0⟩, ⟨"wrist", 1⟩, ⟨"slide", 2⟩], 12, 10⟩ := by
  have hLimits : (-1 : ℝ) ≤ 1 := by norm_num
  simp [arm, armRun, Model.edited, Model.edit, Model.attempt, Model.addJointWithLimits, Model.empty,
    Model.jointId?, Model.frameId?, Model.checkParent, Model.pushJoint, hLimits, JointKind.nq,
    JointKind.nv]

theorem forall_rotation_arm {p : Joint ℝ → Nat → Prop}
    (hBase : p ⟨"base", .freeFlyer, none, 0, 0, -1, 1⟩ 3)
    (hWrist : p ⟨"wrist", .spherical, some 0, 7, 6, -1, 1⟩ 0) :
    ∀ j ∈ arm.model.joints, ∀ r, j.kind.rotationStart? = some r → p j r := by
  rw [model_arm]
  intro j hj r hr
  simp only [List.mem_cons, List.not_mem_nil, or_false] at hj
  rcases hj with rfl | rfl | rfl
  · cases hr
    exact hBase
  · cases hr
    exact hWrist
  · cases hr

def armState (base wrist : Quaternion ℝ) : Vec ℝ :=
  #[1, -1, 0.25, base.x, base.y, base.z, base.w, wrist.x, wrist.y, wrist.z, wrist.w, 0.5,
    0, 0, 0, 0, 0, 0, 0, 0, 0, 0]

def armTangent : Vec ℝ := #[0.5, -1, 1, 0, 0, 1, 0, 0, 0, 0.25, 1, 1, 1, 1, 1, 1, 1, 1, 1, 1]

theorem size_armState (base wrist : Quaternion ℝ) : (armState base wrist).size = arm.nx := by
  rw [nx, nq, nv, model_arm]
  rfl

theorem size_armTangent : armTangent.size = arm.ndx := by
  rw [ndx, nv, model_arm]
  rfl

theorem oriented_armState {base wrist : Quaternion ℝ} (hBase : base ≠ ⟨0, 0, 0, 0⟩)
    (hWrist : wrist ≠ ⟨0, 0, 0, 0⟩) : arm.Oriented (armState base wrist) :=
  forall_rotation_arm hBase hWrist

theorem withinHalfTurn_armTangent : arm.WithinHalfTurn armTangent := by
  apply forall_rotation_arm
  · right
    have hOne : (Vec3.ofVec armTangent 3).norm = 1 := by
      simp [armTangent, Vec3.ofVec, Vec.entry, Vec3.norm, Vec3.normSq, Vec3.dot]
    change 1e-4 ≤ (Vec3.ofVec armTangent 3).norm ∧ (Vec3.ofVec armTangent 3).norm ≤ Real.pi
    rw [hOne]
    exact ⟨by norm_num, by linarith [Real.pi_gt_three]⟩
  · left
    exact Vec3.norm_eq_zero_iff.mpr rfl

theorem angleBetween_base : Rotation.angleBetween ⟨0, 0, 0, 2⟩ ⟨0, 0, 3, 0⟩ = Real.pi := by
  simp [Rotation.angleBetween, mul_div_cancel₀]

theorem angleBetween_wrist : Rotation.angleBetween ⟨0, 0, 0, 1⟩ ⟨0, 0, 0, -2⟩ = 0 := by
  have hRoot : Real.sqrt 4 = 2 := by
    rw [show (4 : ℝ) = 2 * 2 by norm_num, Real.sqrt_mul_self zero_le_two]
  simp [Rotation.angleBetween, Quaternion.norm, Quaternion.normSq]

theorem resolves_armState :
    arm.Resolves (armState ⟨0, 0, 0, 2⟩ ⟨0, 0, 0, 1⟩) (armState ⟨0, 0, 3, 0⟩ ⟨0, 0, 0, -2⟩) := by
  apply forall_rotation_arm
  · -- The base has half a turn to go.
    right
    change 1e-4 ≤ Rotation.angleBetween ⟨0, 0, 0, 2⟩ ⟨0, 0, 3, 0⟩
    rw [angleBetween_base]
    linarith [Real.pi_gt_three]
  · -- The quaternion of the wrist only changes its length and sign.
    exact .inl angleBetween_wrist

/-- On the states of every built model a difference takes back an increment. -/
theorem tangent_recovered (es : List (Model.Edit ℝ)) (x dx : Vec ℝ) :
    let s : Multibody ℝ := ⟨(Model.empty : Model ℝ).edited es⟩
    x.size = s.nx → dx.size = s.ndx → s.Oriented x → s.WithinHalfTurn dx →
      ∃ y, s.integrate x dx = .ok y ∧ s.diff x y = .ok dx := by
  intro s hx hdx hOriented hAngle
  have h : s.model.WellFormed := Model.WellFormed.empty.edited es
  obtain ⟨y, hIntegrate, hy⟩ := exists_increment h hx hdx
  obtain ⟨back, hDiff, hBack⟩ := exists_diff h hx hy.size
  obtain rfl : back = dx := hBack.eq_of_increment h hdx hOriented hAngle hy
  exact ⟨y, hIntegrate, hDiff⟩

theorem tangent_recovered_arm :
    let x := armState ⟨0, 0, 0, 2⟩ ⟨1, 0, 0, 0⟩
    (x.size = arm.nx ∧ armTangent.size = arm.ndx ∧ arm.Oriented x ∧ arm.WithinHalfTurn armTangent) ∧
      ∃ y, arm.integrate x armTangent = .ok y ∧ arm.diff x y = .ok armTangent := by
  intro x
  have hx : x.size = arm.nx := size_armState _ _
  have hOriented : arm.Oriented x := oriented_armState (by simp) (by simp)
  refine ⟨⟨hx, size_armTangent, hOriented, withinHalfTurn_armTangent⟩, ?_⟩
  exact tangent_recovered armRun x armTangent hx size_armTangent hOriented withinHalfTurn_armTangent

/-- On the states of every built model an increment by a difference ends at the target, and every
increment ends at quaternions of norm one. -/
theorem target_reached (es : List (Model.Edit ℝ)) :
    let s : Multibody ℝ := ⟨(Model.empty : Model ℝ).edited es⟩
    (∀ x0 x1, x0.size = s.nx → x1.size = s.nx → s.Oriented x0 → s.Oriented x1 →
      s.Resolves x0 x1 →
        ∃ dx y, s.diff x0 x1 = .ok dx ∧ s.integrate x0 dx = .ok y ∧ s.Reaches y x1) ∧
    ∀ x dx, x.size = s.nx → dx.size = s.ndx → s.Oriented x →
      ∃ y, s.integrate x dx = .ok y ∧ ∀ j ∈ s.model.joints, ∀ r,
        j.kind.rotationStart? = some r → (Quaternion.stored y (j.idxQ + r)).norm = 1 := by
  intro s
  have h : s.model.WellFormed := Model.WellFormed.empty.edited es
  constructor
  · intro x0 x1 hx0 hx1 h0 h1 hAngle
    obtain ⟨dx, hDiff, hdx⟩ := exists_diff h hx0 hx1
    obtain ⟨y, hIntegrate, hy⟩ := exists_increment h hx0 hdx.size
    exact ⟨dx, y, hDiff, hIntegrate, hy.reaches h h0 h1 hAngle hdx⟩
  · intro x dx hx hdx hOriented
    obtain ⟨y, hIntegrate, hy⟩ := exists_increment h hx hdx
    refine ⟨y, hIntegrate, ?_⟩
    intro j hj r hr
    rw [Quaternion.norm, hy.normSq_stored hOriented hj hr]
    exact Real.sqrt_one

theorem target_reached_arm :
    let x0 := armState ⟨0, 0, 0, 2⟩ ⟨0, 0, 0, 1⟩
    let x1 := armState ⟨0, 0, 3, 0⟩ ⟨0, 0, 0, -2⟩
    (x0.size = arm.nx ∧ x1.size = arm.nx ∧ armTangent.size = arm.ndx ∧ arm.Oriented x0 ∧
      arm.Oriented x1 ∧ arm.Resolves x0 x1) ∧
    (∃ dx y, arm.diff x0 x1 = .ok dx ∧ arm.integrate x0 dx = .ok y ∧ arm.Reaches y x1) ∧
    ∃ y, arm.integrate x0 armTangent = .ok y ∧ ∀ j ∈ arm.model.joints, ∀ r,
      j.kind.rotationStart? = some r → (Quaternion.stored y (j.idxQ + r)).norm = 1 := by
  intro x0 x1
  have hx0 : x0.size = arm.nx := size_armState _ _
  have hx1 : x1.size = arm.nx := size_armState _ _
  have h0 : arm.Oriented x0 := oriented_armState (by simp) (by simp)
  have h1 : arm.Oriented x1 := oriented_armState (by simp) (by simp)
  obtain ⟨hReached, hUnit⟩ := target_reached armRun
  refine ⟨⟨hx0, hx1, size_armTangent, h0, h1, resolves_armState⟩, ?_, ?_⟩
  · exact hReached x0 x1 hx0 hx1 h0 h1 resolves_armState
  · exact hUnit x0 armTangent hx0 size_armTangent h0

end Multibody

end MultibodyCost
