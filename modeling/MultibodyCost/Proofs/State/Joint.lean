import MultibodyCost.Proofs.Geometry.Placement
import MultibodyCost.State.Multibody

/-! # Configurations of one joint

The quaternion of a joint begins in its slice of a configuration where its rotation vector begins in
its slice of a tangent: at the front for a ball joint, behind the translation for a free-flying one.
On one slice a difference takes back an increment, and an increment by a difference ends where the
difference ended, with the quaternion normalized and up to its sign.
-/

namespace MultibodyCost

def Quaternion.stored {α : Type} [Scalar α] (v : Vec α) (i : Nat) : Quaternion α :=
  ⟨v.entry i, v.entry (i + 1), v.entry (i + 2), v.entry (i + 3)⟩

theorem Quaternion.ofVec_eq (v : Vec ℝ) (i : Nat) : ofVec v i = (stored v i).normalized := rfl

theorem Quaternion.normSq_ofVec {v : Vec ℝ} {i : Nat} (h : stored v i ≠ ⟨0, 0, 0, 0⟩) :
    (ofVec v i).normSq = 1 := by
  rw [ofVec_eq]
  exact normSq_normalized (normSq_ne_zero h)

theorem Quaternion.normSq_ofVec_mul_exp {v : Vec ℝ} {i : Nat} (h : stored v i ≠ ⟨0, 0, 0, 0⟩)
    (w : Vec3 ℝ) : (ofVec v i * Rotation.exp w).normSq = 1 := by
  rw [normSq_mul, Rotation.normSq_exp, mul_one]
  exact normSq_ofVec h

theorem Vec3.toVec_ofVec {d : Vec ℝ} (h : d.size = 3) : (Vec3.ofVec d 0).toVec = d := by
  apply Vec.ext_entry ((size_toVec _).trans h.symm)
  intro i hi
  rw [size_toVec] at hi
  interval_cases i <;> rfl

theorem Motion.toVec_ofVec {d : Vec ℝ} (h : d.size = 6) : (Motion.ofVec d 0).toVec = d := by
  apply Vec.ext_entry ((size_toVec _).trans h.symm)
  intro i hi
  rw [size_toVec] at hi
  interval_cases i <;> rfl

namespace JointKind

/-- Where the rotation of a joint begins in its slices, if it has one. -/
def rotationStart? : JointKind → Option Nat
  | spherical => some 0
  | freeFlyer => some 3
  | _ => none

def Oriented (k : JointKind) (q : Vec ℝ) : Prop :=
  ∀ r, k.rotationStart? = some r → Quaternion.stored q r ≠ ⟨0, 0, 0, 0⟩

/-- The angles of rotation at which an increment by a difference is exact: none, or large enough for
the closed forms. -/
def Resolves (k : JointKind) (θ : ℝ) : Prop :=
  θ = 0 ∨ match k with
    | freeFlyer => 1e-4 ≤ θ
    | _ => 0.5 ^ 51 < θ

theorem diff_integrate {k : JointKind} {q d : Vec ℝ} (hd : d.size = k.nv) (hq : k.Oriented q)
    (hAngle : ∀ r, k.rotationStart? = some r →
      (Vec3.ofVec d r).norm = 0 ∨ 1e-4 ≤ (Vec3.ofVec d r).norm ∧ (Vec3.ofVec d r).norm ≤ Real.pi) :
    k.diff q (k.integrate q d) = d := by
  have ofCoordinate : d.size = 1 → #[q.entry 0 + d.entry 0 - q.entry 0] = d := by
    intro hOne
    apply Vec.ext_entry (show Array.size #[_] = d.size from hOne.symm)
    intro i hi
    obtain rfl : i = 0 := Nat.lt_one_iff.mp hi
    exact add_sub_cancel_left (q.entry 0) (d.entry 0)
  have hLarge : ∀ r, k.rotationStart? = some r →
      (Vec3.ofVec d r).norm = 0 ∨ 1e-4 ≤ (Vec3.ofVec d r).norm :=
    fun r hr => (hAngle r hr).imp_right And.left
  have hPi : ∀ r, k.rotationStart? = some r → (Vec3.ofVec d r).norm ≤ Real.pi := by
    intro r hr
    rcases hAngle r hr with hZero | ⟨-, hLe⟩
    · exact hZero.le.trans Real.pi_pos.le
    · exact hLe
  cases k with
  | revolute => exact ofCoordinate hd
  | prismatic => exact ofCoordinate hd
  | spherical =>
    have hUnit : (Quaternion.ofVec q 0).normSq = 1 := Quaternion.normSq_ofVec (hq 0 rfl)
    have hStored := Quaternion.normSq_ofVec_mul_exp (hq 0 rfl) (Vec3.ofVec d 0)
    have hLog : Rotation.log (Rotation.exp (Vec3.ofVec d 0)) = Vec3.ofVec d 0 :=
      Rotation.log_exp (Rotation.above_cutoff (hLarge 0 rfl)) (hPi 0 rfl)
    change (Rotation.log ((Quaternion.ofVec q 0).inverse *
      (Quaternion.ofVec q 0 * Rotation.exp (Vec3.ofVec d 0)).normalized)).toVec = d
    rw [Quaternion.normalized_of_unit hStored, Quaternion.inverse_mul_cancel hUnit, hLog,
      Vec3.toVec_ofVec hd]
  | freeFlyer =>
    have hUnit : (Placement.ofVec q 0).rotation.normSq = 1 := Quaternion.normSq_ofVec (hq 3 rfl)
    have hStored := Quaternion.normSq_ofVec_mul_exp (hq 3 rfl) (Vec3.ofVec d 3)
    have hLog : Placement.log (Placement.exp (Motion.ofVec d 0)) = Motion.ofVec d 0 :=
      Placement.log_exp (hLarge 3 rfl) (hPi 3 rfl)
    have hRead : Placement.ofVec (Placement.ofVec q 0 * Placement.exp (Motion.ofVec d 0)).toVec 0 =
        Placement.ofVec q 0 * Placement.exp (Motion.ofVec d 0) :=
      Placement.ext rfl (Quaternion.normalized_of_unit hStored)
    -- The base is stored and read back before the difference is taken.
    change (Placement.log ((Placement.ofVec q 0).inverse * Placement.ofVec
      (Placement.ofVec q 0 * Placement.exp (Motion.ofVec d 0)).toVec 0)).toVec = d
    rw [hRead, Placement.inverse_mul_cancel hUnit, hLog, Motion.toVec_ofVec hd]

theorem normSq_stored_integrate {k : JointKind} {q : Vec ℝ} (hq : k.Oriented q) (d : Vec ℝ) {r : Nat}
    (hr : k.rotationStart? = some r) : (Quaternion.stored (k.integrate q d) r).normSq = 1 := by
  have hUnit := Quaternion.normSq_ofVec_mul_exp (hq r hr) (Vec3.ofVec d r)
  cases k with
  | revolute => cases hr
  | prismatic => cases hr
  | spherical =>
    cases hr
    exact hUnit
  | freeFlyer =>
    cases hr
    exact hUnit

/-- An orientation reached: the quaternion of the target, normalized, with one sign or the other. -/
def SameOrientation (q target : Quaternion ℝ) : Prop :=
  q = target.normalized ∨ q = -target.normalized

/-- An increment by a difference ends at the target: in every coordinate outside the quaternion, and
in the orientation. -/
theorem integrate_diff {k : JointKind} {q0 q1 : Vec ℝ} (h0 : k.Oriented q0) (h1 : k.Oriented q1)
    (hAngle : ∀ r, k.rotationStart? = some r →
      k.Resolves (Rotation.angleBetween (Quaternion.stored q0 r) (Quaternion.stored q1 r))) :
    (∀ i, i < k.nq → (∀ r, k.rotationStart? = some r → i < r ∨ r + 4 ≤ i) →
      (k.integrate q0 (k.diff q0 q1)).entry i = q1.entry i) ∧
    ∀ r, k.rotationStart? = some r →
      SameOrientation (Quaternion.stored (k.integrate q0 (k.diff q0 q1)) r)
        (Quaternion.stored q1 r) := by
  have ofCoordinate : ∀ i, i < 1 →
      Vec.entry #[q0.entry 0 + (q1.entry 0 - q0.entry 0)] i = q1.entry i := by
    intro i hi
    obtain rfl : i = 0 := Nat.lt_one_iff.mp hi
    exact add_sub_cancel (q0.entry 0) (q1.entry 0)
  cases k with
  | revolute => exact ⟨fun i hi _ => ofCoordinate i hi, fun r hr => by cases hr⟩
  | prismatic => exact ⟨fun i hi _ => ofCoordinate i hi, fun r hr => by cases hr⟩
  | spherical =>
    constructor
    · -- A ball joint has no coordinate outside its quaternion.
      intro i hi hOutside
      have hFour : i < 4 := hi
      have := hOutside 0 rfl
      omega
    · rintro _ ⟨⟩
      have hp := Quaternion.normSq_ne_zero (h0 0 rfl)
      have hq := Quaternion.normSq_ne_zero (h1 0 rfl)
      have hNorm := hAngle 0 rfl
      rw [← Rotation.norm_log_relative hp hq] at hNorm
      exact Rotation.mul_exp_log (Quaternion.normSq_normalized hp)
        (Quaternion.normSq_normalized hq) hNorm
  | freeFlyer =>
    have hp := Quaternion.normSq_ne_zero (h0 3 rfl)
    have hq := Quaternion.normSq_ne_zero (h1 3 rfl)
    have hNorm := hAngle 3 rfl
    rw [← Rotation.norm_log_relative hp hq] at hNorm
    obtain ⟨hTranslation, hRotation⟩ := Placement.mul_exp_log (m := Placement.ofVec q0 0)
      (n := Placement.ofVec q1 0) (Quaternion.normSq_normalized hp) (Quaternion.normSq_normalized hq)
      hNorm
    obtain ⟨hx, hy, hz⟩ := Vec3.mk.inj hTranslation
    constructor
    · intro i hi hOutside
      have hSeven : i < 7 := hi
      have hThree : i < 3 := by
        have := hOutside 3 rfl
        omega
      interval_cases i
      · exact hx
      · exact hy
      · exact hz
    · rintro _ ⟨⟩
      exact hRotation

end JointKind

end MultibodyCost
