import MultibodyCost.Proofs.Sampling.Draws
import MultibodyCost.Proofs.State.Product
import MultibodyCost.Proofs.State.RoundTrip

/-! # Random states

Every joint draws its coordinates into its own slice and nowhere else, so a random state of a built
model has each bounded coordinate within the limits of its own joint, whatever the order of the
joints. The words it takes are counted joint by joint: one for each bounded coordinate, four for each
attempt at a rotation, and one for each velocity behind them.
-/

namespace MultibodyCost

namespace JointKind

/-- How many coordinates the limits of a joint bound; they stand at the front of its slice. -/
def limited : JointKind → Nat
  | revolute => 1
  | prismatic => 1
  | spherical => 0
  | freeFlyer => 3

theorem limited_le_nq (k : JointKind) : k.limited ≤ k.nq := by
  cases k <;> decide

/-- The attempts at the rotation of a joint, which is drawn after the bounded coordinates. -/
noncomputable def attempts (k : JointKind) (words : List UInt64) : List Nat :=
  match k.rotationStart? with
  | some _ => [Sampler.attempts (words.drop k.limited)]
  | none => []

noncomputable def draws (k : JointKind) (words : List UInt64) : Nat :=
  k.limited + 4 * (k.attempts words).sum

theorem draws_of_rotation {k : JointKind} {r : Nat} (h : k.rotationStart? = some r)
    (words : List UInt64) :
    k.draws words = k.limited + 4 * Sampler.attempts (words.drop k.limited) := by
  rw [draws, attempts, h, List.sum_singleton]

end JointKind

namespace Multibody

structure Drawn (j : Joint ℝ) (q : Vec ℝ) : Prop where
  size : q.size = j.kind.nq
  limits : ∀ i, i < j.kind.limited → q.entry i ∈ Set.Icc j.lower j.upper
  orientation : ∀ r, j.kind.rotationStart? = some r → (Quaternion.stored q r).normSq = 1

/-- A state with every joint within its limits, and of moderate velocity. -/
structure IsValid (s : Multibody ℝ) (x : Vec ℝ) : Prop where
  size : x.size = s.nx
  limits : ∀ j ∈ s.model.joints, ∀ i, i < j.kind.limited →
    x.entry (j.idxQ + i) ∈ Set.Icc j.lower j.upper
  orientation : ∀ j ∈ s.model.joints, ∀ r, j.kind.rotationStart? = some r →
    (Quaternion.stored x (j.idxQ + r)).norm = 1
  velocity : ∀ i, i < s.nv → x.entry (s.nq + i) ∈ Set.Icc (-1 : ℝ) 1

theorem drawn_coordinate {j : Joint ℝ} (hSize : j.kind.nq = 1) (hLimited : j.kind.limited = 1)
    (hRotation : j.kind.rotationStart? = none) {q : ℝ} (hq : j.lower ≤ q ∧ q ≤ j.upper) :
    Drawn j #[q] := by
  constructor
  · exact hSize.symm
  · intro i hi
    obtain rfl : i = 0 := Nat.lt_one_iff.mp (hi.trans_eq hLimited)
    exact hq
  · intro r hr
    rw [hRotation] at hr
    cases hr

open Sampler in
theorem takes_randomJoint {j : Joint ℝ} (h : j.lower ≤ j.upper) :
    (randomJoint j).Takes j.kind.draws (Drawn j) := by
  obtain ⟨name, kind, parent, idxQ, idxV, lower, upper⟩ := j
  cases kind with
  | revolute =>
    exact ((takes_closed h).bind fun r hr => takes_pure (drawn_coordinate rfl rfl rfl hr)).count_eq
      fun words => rfl
  | prismatic =>
    exact ((takes_closed h).bind fun r hr => takes_pure (drawn_coordinate rfl rfl rfl hr)).count_eq
      fun words => rfl
  | spherical =>
    refine (takes_rotation.bind fun q hq => takes_pure ?_).count_eq fun words => ?_
    · refine ⟨rfl, fun i hi => absurd hi (Nat.not_lt_zero i), ?_⟩
      rintro _ ⟨⟩
      exact hq
    · rw [JointKind.draws_of_rotation rfl]
      exact (Nat.zero_add _).symm
  | freeFlyer =>
    refine ((takes_closed h).bind fun x hx => (takes_closed h).bind fun y hy =>
      (takes_closed h).bind fun z hz => takes_rotation.bind fun q hq =>
        takes_pure ?_).count_eq fun words => ?_
    · refine ⟨rfl, fun i hi => ?_, ?_⟩
      · replace hi : i < 3 := hi
        interval_cases i
        · exact hx
        · exact hy
        · exact hz
      · rintro _ ⟨⟩
        exact hq
    · rw [JointKind.draws_of_rotation rfl, List.drop_drop, List.drop_drop]
      change 1 + (1 + (1 + (4 * Sampler.attempts (words.drop 3) + 0))) =
        3 + 4 * Sampler.attempts (words.drop 3)
      omega

noncomputable def attempts : List JointKind → List UInt64 → List Nat
  | [], _ => []
  | k :: ks, words => k.attempts words ++ attempts ks (words.drop (k.draws words))

noncomputable def draws (ks : List JointKind) (words : List UInt64) : Nat :=
  (ks.map JointKind.limited).sum + 4 * (attempts ks words).sum

theorem draws_cons (k : JointKind) (ks : List JointKind) (words : List UInt64) :
    draws (k :: ks) words = k.draws words + draws ks (words.drop (k.draws words)) := by
  have hHead : k.draws words = k.limited + 4 * (k.attempts words).sum := rfl
  rw [draws, draws, attempts, List.map_cons, List.sum_cons, List.sum_append]
  omega

theorem sum_limited (ks : List JointKind) : (ks.map JointKind.limited).sum =
    ks.count .revolute + ks.count .prismatic + 3 * ks.count .freeFlyer := by
  induction ks with
  | nil => rfl
  | cons k ks ih =>
    rw [List.map_cons, List.sum_cons, ih]
    cases k <;> simp [JointKind.limited] <;> omega

theorem length_attempts (ks : List JointKind) (words : List UInt64) :
    (attempts ks words).length = ks.count .spherical + ks.count .freeFlyer := by
  induction ks generalizing words with
  | nil => rfl
  | cons k ks ih =>
    rw [attempts, List.length_append, ih]
    cases k <;> simp [JointKind.attempts, JointKind.rotationStart?] <;> omega

theorem one_le_of_mem_attempts {ks : List JointKind} {words : List UInt64} {n : Nat}
    (h : n ∈ attempts ks words) : 1 ≤ n := by
  induction ks generalizing words with
  | nil => cases h
  | cons k ks ih =>
    rcases List.mem_append.mp h with hHead | hTail
    · rw [JointKind.attempts] at hHead
      split at hHead
      · obtain rfl := List.mem_singleton.mp hHead
        exact Sampler.one_le_attempts _
      · cases hHead
    · exact ih hTail

open Sampler in
theorem takes_placeRandom {js : List (Joint ℝ)} {start stop : Nat}
    (hTiles : Tiles start stop (js.map fun j => (j.idxQ, j.kind.nq)))
    (hLimits : ∀ j ∈ js, j.lower ≤ j.upper) {x : Vec ℝ} (hx : stop ≤ x.size) :
    (placeRandom js x).Takes (draws (js.map Joint.kind)) fun y => y.size = x.size ∧
      (∀ i n, i + n ≤ start → y.slice i n = x.slice i n) ∧
        ∀ j ∈ js, Drawn j (y.slice j.idxQ j.kind.nq) := by
  induction js generalizing start x with
  | nil => exact takes_pure ⟨rfl, fun i n _ => rfl, fun j hj => nomatch hj⟩
  | cons j js ih =>
    obtain ⟨hFirst, hRest⟩ := hTiles
    obtain ⟨hHead, hTail⟩ := List.forall_mem_cons.mp hLimits
    replace hFirst : j.idxQ = start := hFirst
    have hEnd : start + j.kind.nq ≤ stop := hRest.start_le_stop
    refine ((takes_randomJoint hHead).bind fun q hq => (ih hRest hTail (x := x.place j.idxQ q)
      (by rwa [Vec.size_place])).mono fun y hy => ?_).count_eq fun words => (draws_cons _ _ _).symm
    obtain ⟨hSize, hBefore, hDrawn⟩ := hy
    rw [Vec.size_place] at hSize
    refine ⟨hSize, fun i n hFits => ?_, List.forall_mem_cons.mpr ⟨?_, hDrawn⟩⟩
    · rw [hBefore i n (by omega)]
      exact Vec.slice_place_of_disjoint x q (by omega) (.inl (by omega))
    · -- The joints behind it do not write over the slice of the first one.
      rw [hBefore _ _ (by omega), ← hq.size, Vec.slice_place x q (by rw [hq.size]; omega)]
      exact hq

variable {s : Multibody ℝ}

theorem isValid_place {x : Vec ℝ} {vs : List ℝ} (h : s.model.WellFormed) (hx : x.size = s.nx)
    (hJoints : ∀ j ∈ s.model.joints, Drawn j (x.slice j.idxQ j.kind.nq)) (hLength : vs.length = s.nv)
    (hVelocity : ∀ v ∈ vs, -1 ≤ v ∧ v ≤ 1) : s.IsValid (x.place s.nq vs.toArray) := by
  have hSum : s.nx = s.nq + s.nv := rfl
  have hSize : vs.toArray.size = s.nv := by
    rw [List.size_toArray, hLength]
  have hDrawn : ∀ j ∈ s.model.joints, Drawn j
      ((x.place s.nq vs.toArray).slice j.idxQ j.kind.nq) := by
    intro j hj
    have hEnd : j.idxQ + j.kind.nq ≤ s.nq := (h.tilesQ.bounds_of_mem (List.mem_map_of_mem hj)).2
    rw [Vec.slice_place_of_disjoint x _ (by omega) (.inl hEnd)]
    exact hJoints j hj
  constructor
  · rw [Vec.size_place, hx]
  · intro j hj i hi
    rw [← Vec.entry_slice _ (hi.trans_le j.kind.limited_le_nq)]
    exact (hDrawn j hj).limits i hi
  · intro j hj r hr
    have hUnit := (hDrawn j hj).orientation r hr
    rw [Quaternion.stored_slice _ (JointKind.rotation_fits hr).1] at hUnit
    rw [Quaternion.norm, hUnit]
    exact Real.sqrt_one
  · intro i hi
    rw [Vec.entry_place_of_mem x _ (by omega) (hi.trans_eq hSize.symm),
      Vec.entry_eq_getElem _ (hi.trans_eq hSize.symm), List.getElem_toArray]
    exact hVelocity _ (List.getElem_mem _)

open Sampler in
theorem takes_random (h : s.model.WellFormed) :
    s.random.Takes (fun words => draws s.kinds words + s.nv) s.IsValid := by
  have hLimits : ∀ j ∈ s.model.joints, j.lower ≤ j.upper := fun j hj => (h.limits j hj).2.2
  have hOrder : (-1 : ℝ) ≤ 1 := by norm_num
  have hFits : s.model.nq ≤ (Vec.zeros s.nx : Vec ℝ).size := by
    rw [Vec.size_zeros]
    exact Nat.le_add_right _ _
  refine (takes_placeRandom h.tilesQ hLimits hFits).bind fun x hx =>
    (takes_replicate (takes_closed hOrder) s.nv).bind fun vs hvs => takes_pure ?_
  obtain ⟨hSize, -, hDrawn⟩ := hx
  rw [Vec.size_zeros] at hSize
  exact isValid_place h hSize hDrawn hvs.1 hvs.2

/-- A random state of a built model is valid, and the words it takes are those of its bounded
coordinates, of its velocities and of the attempts at its rotations. -/
theorem random_valid (es : List (Model.Edit ℝ)) (words rest : List UInt64) (x : Vec ℝ) :
    let s : Multibody ℝ := ⟨(Model.empty : Model ℝ).edited es⟩
    let tries := attempts s.kinds words
    s.random words = .ok (x, rest) →
      s.IsValid x ∧
      (∃ used, words = used ++ rest ∧ used.length = s.kinds.count .revolute +
        s.kinds.count .prismatic + 3 * s.kinds.count .freeFlyer + s.nv + 4 * tries.sum) ∧
      tries.length = s.kinds.count .spherical + s.kinds.count .freeFlyer ∧ ∀ n ∈ tries, 1 ≤ n := by
  intro s tries hRun
  have h : s.model.WellFormed := Model.WellFormed.empty.edited es
  have hTries : tries = attempts s.kinds words := rfl
  obtain ⟨hValid, hFits, hRest⟩ := (takes_random h).of_eq_ok hRun
  refine ⟨hValid, ⟨words.take (draws s.kinds words + s.nv), ?_, ?_⟩, length_attempts _ _,
    fun n hn => one_le_of_mem_attempts hn⟩
  · rw [hRest, List.take_append_drop]
  · rw [List.length_take, Nat.min_eq_left hFits, draws, sum_limited, hTries]
    omega

/-- The word of the fraction three quarters, which gives the coordinate one half. -/
def halfWord : UInt64 := 13835058055282163712

def armWords : List UInt64 :=
  List.replicate 7 0 ++ List.replicate 8 halfWord ++ List.replicate 11 0 ++ [7]

open Sampler in
theorem point_corner : accepts (point 0 0 0 0) = false := by
  have hFraction : (fraction 0 : ℝ) = 0 := by
    rw [fraction, show ((0 : UInt64) >>> 12).toNat = 0 by decide, Scalar.ofNat_real]
    norm_num
  have hRoot : Real.sqrt 4 = 2 := by
    rw [show (4 : ℝ) = 2 * 2 by norm_num, Real.sqrt_mul_self zero_le_two]
  have hNorm : (point 0 0 0 0).norm = 2 := by
    rw [← hRoot, Quaternion.norm, Elementary.sqrt_real]
    congr 1
    simp only [point, Quaternion.normSq, hFraction]
    norm_num
  rw [accepts, hNorm]
  norm_num

open Sampler in
theorem point_halves : accepts (point halfWord halfWord halfWord halfWord) = true := by
  have hFraction : (fraction halfWord : ℝ) = 3 / 4 := by
    rw [fraction, show (halfWord >>> 12).toNat = 3377699720527872 by decide, Scalar.ofNat_real]
    norm_num
  have hNorm : (point halfWord halfWord halfWord halfWord).norm = 1 := by
    rw [← Real.sqrt_one, Quaternion.norm, Elementary.sqrt_real]
    congr 1
    simp only [point, Quaternion.normSq, hFraction]
    norm_num
  rw [accepts, hNorm]
  norm_num

theorem kinds_arm : arm.kinds = [.freeFlyer, .spherical, .prismatic] := by
  rw [kinds, model_arm]
  rfl

theorem attempts_arm : attempts arm.kinds armWords = [2, 1] := by
  rw [kinds_arm]
  simp [attempts, JointKind.attempts, JointKind.rotationStart?, JointKind.limited, JointKind.draws,
    armWords, List.replicate_succ, Sampler.attempts_cons, point_corner, point_halves]

theorem random_valid_arm :
    ∃ x, arm.random armWords = .ok (x, [7]) ∧ arm.IsValid x ∧
      ∃ used, armWords = used ++ [7] ∧ used.length = 0 + 1 + 3 * 1 + 10 + 4 * (2 + 1) := by
  have hModel : arm.model.WellFormed := Model.WellFormed.empty.edited armRun
  have hCount : draws arm.kinds armWords + arm.nv = 26 := by
    rw [draws, attempts_arm, kinds_arm, nv, model_arm]
    rfl
  cases hRun : arm.random armWords with
  | ok drawn =>
    obtain ⟨x, rest⟩ := drawn
    obtain ⟨-, -, hRest⟩ := (takes_random hModel).of_eq_ok hRun
    rw [hCount] at hRest
    subst hRest
    obtain ⟨hValid, hUsed, -⟩ := random_valid armRun armWords [7] x hRun
    change ∃ used, armWords = used ++ [7] ∧ used.length = arm.kinds.count .revolute +
      arm.kinds.count .prismatic + 3 * arm.kinds.count .freeFlyer + arm.nv +
        4 * (attempts arm.kinds armWords).sum at hUsed
    rw [attempts_arm, kinds_arm, nv, model_arm] at hUsed
    exact ⟨x, rfl, hValid, hUsed⟩
  | error e =>
    obtain ⟨-, hShort⟩ := (takes_random hModel).of_eq_error hRun
    rw [hCount] at hShort
    exact absurd hShort (by decide)

end Multibody

end MultibodyCost
