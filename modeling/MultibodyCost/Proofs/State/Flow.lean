import MultibodyCost.Proofs.Geometry.Flow
import MultibodyCost.Proofs.Linear.Forms
import MultibodyCost.Proofs.State.RoundTrip

/-! # Increments are a flow

Two increments along multiples of one tangent are the increment along the sum. The state between them
is stored and read back, which leaves its quaternions as they are because they have norm one; what is
left is the law of the exponentials, joint by joint.
-/

namespace MultibodyCost

theorem Vec3.ofVec_scale (d : Vec ℝ) (c : ℝ) (i : Nat) : ofVec (d.scale c) i = (ofVec d i).scale c := by
  simp only [ofVec, scale, Vec.entry_scale]

theorem Vec.slice_scale (v : Vec ℝ) (c : ℝ) (i n : Nat) :
    (v.scale c).slice i n = (v.slice i n).scale c := by
  apply ext_entry (by rw [size_slice, size_scale, size_slice])
  intro k hk
  rw [size_slice] at hk
  rw [entry_slice _ hk, entry_scale, entry_scale, entry_slice _ hk]

structure Rotation.Steps (w : Vec3 ℝ) (a b : ℝ) : Prop where
  first : Discerned w a
  second : Discerned w b
  whole : Discerned w (a + b)

theorem JointKind.integrate_integrate {k : JointKind} {q d : Vec ℝ} {a b : ℝ} (hq : k.Oriented q)
    (h : ∀ r, k.rotationStart? = some r → Rotation.Steps (Vec3.ofVec d r) a b) :
    k.integrate (k.integrate q (d.scale a)) (d.scale b) = k.integrate q (d.scale (a + b)) := by
  have ofCoordinate : (#[q.entry 0 + (d.scale a).entry 0 + (d.scale b).entry 0] : Vec ℝ) =
      #[q.entry 0 + (d.scale (a + b)).entry 0] := by
    rw [Vec.entry_scale, Vec.entry_scale, Vec.entry_scale, mul_add, add_assoc]
  cases k with
  | revolute => exact ofCoordinate
  | prismatic => exact ofCoordinate
  | spherical =>
    obtain ⟨hFirst, hSecond, hWhole⟩ := h 0 rfl
    have hStored := Quaternion.normSq_ofVec_mul_exp (hq 0 rfl) (Vec3.ofVec (d.scale a) 0)
    change ((Quaternion.ofVec q 0 * Rotation.exp (Vec3.ofVec (d.scale a) 0)).normalized *
      Rotation.exp (Vec3.ofVec (d.scale b) 0)).toVec =
        (Quaternion.ofVec q 0 * Rotation.exp (Vec3.ofVec (d.scale (a + b)) 0)).toVec
    rw [Quaternion.normalized_of_unit hStored, mul_assoc, Vec3.ofVec_scale,
      Vec3.ofVec_scale, Vec3.ofVec_scale, Rotation.exp_scale_mul hFirst hSecond hWhole]
  | freeFlyer =>
    obtain ⟨hFirst, hSecond, hWhole⟩ := h 3 rfl
    have hUnit : (Placement.ofVec q 0).rotation.normSq = 1 := Quaternion.normSq_ofVec (hq 3 rfl)
    have hStored := Quaternion.normSq_ofVec_mul_exp (hq 3 rfl) (Vec3.ofVec (d.scale a) 3)
    have hMotion : ∀ c, Motion.ofVec (d.scale c) 0 = (Motion.ofVec d 0).scale c := by
      intro c
      rw [Motion.ofVec, Vec3.ofVec_scale, Vec3.ofVec_scale]
      rfl
    have hRead : Placement.ofVec
        (Placement.ofVec q 0 * Placement.exp (Motion.ofVec (d.scale a) 0)).toVec 0 =
          Placement.ofVec q 0 * Placement.exp (Motion.ofVec (d.scale a) 0) :=
      Placement.ext rfl (Quaternion.normalized_of_unit hStored)
    have hProduct : Placement.exp ((Motion.ofVec d 0).scale a) *
        Placement.exp ((Motion.ofVec d 0).scale b) =
          Placement.exp ((Motion.ofVec d 0).scale (a + b)) :=
      Placement.exp_scale_mul hFirst hSecond hWhole
    change (Placement.ofVec
      (Placement.ofVec q 0 * Placement.exp (Motion.ofVec (d.scale a) 0)).toVec 0 *
        Placement.exp (Motion.ofVec (d.scale b) 0)).toVec =
          (Placement.ofVec q 0 * Placement.exp (Motion.ofVec (d.scale (a + b)) 0)).toVec
    rw [hRead, hMotion, hMotion, hMotion, Placement.mul_assoc hUnit (Rotation.normSq_exp _),
      hProduct]

namespace Multibody

/-- In the first step along the tangent, in the second and in both together, every joint that rotates
turns by an angle of the closed forms or not at all. -/
def Steps (s : Multibody ℝ) (dx : Vec ℝ) (a b : ℝ) : Prop :=
  ∀ j ∈ s.model.joints, ∀ r, j.kind.rotationStart? = some r →
    Rotation.Steps (Vec3.ofVec dx (j.idxV + r)) a b

variable {s : Multibody ℝ}

theorem IsIncrement.eq_of_steps (h : s.model.WellFormed) {x dx mid y z : Vec ℝ} {a b : ℝ}
    (hx : s.Oriented x) (hSteps : s.Steps dx a b) (hMid : s.IsIncrement x (dx.scale a) mid)
    (hy : s.IsIncrement mid (dx.scale b) y) (hz : s.IsIncrement x (dx.scale (a + b)) z) : y = z := by
  apply ext_state h hy.size hz.size
  · intro j hj
    rw [hy.joint j hj, hMid.joint j hj, hz.joint j hj, Vec.slice_scale, Vec.slice_scale,
      Vec.slice_scale]
    apply JointKind.integrate_integrate (hx.joint hj)
    intro r hr
    rw [Vec3.ofVec_slice dx (JointKind.rotation_fits hr).2]
    exact hSteps j hj r hr
  · intro k hk
    rw [hy.velocity k hk, hMid.velocity k hk, hz.velocity k hk, Vec.entry_scale, Vec.entry_scale,
      Vec.entry_scale, mul_add, add_assoc]

/-- On the states of every built model an increment along a multiple of a tangent, followed by one
along another multiple of it, is the increment along their sum. -/
theorem increments_add (es : List (Model.Edit ℝ)) (x dx : Vec ℝ) (a b : ℝ) :
    let s : Multibody ℝ := ⟨(Model.empty : Model ℝ).edited es⟩
    x.size = s.nx → dx.size = s.ndx → s.Oriented x → s.Steps dx a b →
      ∃ mid y, s.integrate x (dx.scale a) = .ok mid ∧ s.integrate mid (dx.scale b) = .ok y ∧
        s.integrate x (dx.scale (a + b)) = .ok y := by
  intro s hx hdx hOriented hSteps
  have h : s.model.WellFormed := Model.WellFormed.empty.edited es
  have hSize : ∀ c, (dx.scale c).size = s.ndx := fun c => (Vec.size_scale dx c).trans hdx
  obtain ⟨mid, hFirst, hMid⟩ := exists_increment h hx (hSize a)
  obtain ⟨y, hSecond, hy⟩ := exists_increment h hMid.size (hSize b)
  obtain ⟨z, hWhole, hz⟩ := exists_increment h hx (hSize (a + b))
  obtain rfl : y = z := hMid.eq_of_steps h hOriented hSteps hy hz
  exact ⟨mid, y, hFirst, hSecond, hWhole⟩

/-- Forth by two radians and back by five: the second step is more than half a turn. -/
theorem steps_armTangent : arm.Steps armTangent 2 (-5) := by
  have hBase : ∀ c : ℝ, 1 ≤ |c| → Rotation.Discerned (Vec3.ofVec armTangent 3) c := by
    intro c hc
    right
    have hAxis : (Vec3.ofVec armTangent 3).normSq = 1 := by
      simp [armTangent, Vec3.ofVec, Vec.entry, Vec3.normSq, Vec3.dot]
    rw [Vec3.norm_scale_unit hAxis]
    exact le_trans (by norm_num) hc
  have hWrist : ∀ c : ℝ, Rotation.Discerned (Vec3.ofVec armTangent 6) c := by
    intro c
    left
    have hZero : Vec3.ofVec armTangent 6 = .zero := rfl
    rw [hZero, Vec3.norm_eq_zero_iff]
    exact smul_zero c
  apply forall_rotation_arm
  · exact ⟨hBase 2 (by norm_num), hBase (-5) (by norm_num), hBase _ (by norm_num)⟩
  · exact ⟨hWrist 2, hWrist (-5), hWrist _⟩

theorem increments_add_arm :
    let x := armState ⟨0, 0, 0, 2⟩ ⟨1, 0, 0, 0⟩
    (x.size = arm.nx ∧ armTangent.size = arm.ndx ∧ arm.Oriented x ∧ arm.Steps armTangent 2 (-5)) ∧
      ∃ mid y, arm.integrate x (armTangent.scale 2) = .ok mid ∧
        arm.integrate mid (armTangent.scale (-5)) = .ok y ∧
        arm.integrate x (armTangent.scale (2 + -5)) = .ok y := by
  intro x
  have hx : x.size = arm.nx := size_armState _ _
  have hOriented : arm.Oriented x := oriented_armState (by simp) (by simp)
  refine ⟨⟨hx, size_armTangent, hOriented, steps_armTangent⟩, ?_⟩
  exact increments_add armRun x armTangent 2 (-5) hx size_armTangent hOriented steps_armTangent

end Multibody

end MultibodyCost
