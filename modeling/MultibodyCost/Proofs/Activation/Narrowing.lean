import MultibodyCost.Proofs.Activation.Interval
import MultibodyCost.Proofs.Config.Activation

/-! # Narrowed boxes

Narrowing an interval between two numbers keeps its midpoint and multiplies its width, so a greater
factor leaves a wider interval, and two factors one after the other leave what their product does.
An interval with an infinite end is kept.
-/

namespace MultibodyCost.Bounds

structure Factor (beta : EReal) : Prop where
  pos : 0 < beta
  le_one : beta ≤ 1

theorem Factor.exists_real {beta : EReal} (h : Factor beta) :
    ∃ c : ℝ, beta = c ∧ 0 < c ∧ c ≤ 1 := by
  lift beta to ℝ using
    ⟨(h.le_one.trans_lt (EReal.coe_lt_top 1)).ne, (EReal.bot_lt_zero.trans h.pos).ne'⟩
  exact ⟨beta, rfl, EReal.coe_pos.mp h.pos, EReal.coe_le_coe_iff.mp h.le_one⟩

theorem Factor.one : Factor 1 := ⟨zero_lt_one, le_rfl⟩

theorem Factor.mul {beta gamma : EReal} (hb : Factor beta) (hc : Factor gamma) :
    Factor (beta * gamma) := by
  obtain ⟨b, rfl, hbPos, hbOne⟩ := hb.exists_real
  obtain ⟨c, rfl, hcPos, hcOne⟩ := hc.exists_real
  rw [← EReal.coe_mul]
  exact ⟨EReal.coe_pos.mpr (mul_pos hbPos hcPos),
    EReal.coe_le_coe_iff.mpr (mul_le_one₀ hbOne hcPos.le hcOne)⟩

def BothFinite (l u : EReal) : Prop := Scalar.isFinite l = true ∧ Scalar.isFinite u = true

theorem BothFinite.exists_real {l u : EReal} (h : BothFinite l u) :
    ∃ a b : ℝ, l = a ∧ u = b := by
  lift l to ℝ using Scalar.isFinite_iff.mp h.1
  lift u to ℝ using Scalar.isFinite_iff.mp h.2
  exact ⟨l, u, rfl, rfl⟩

theorem narrow_coe (c l u : ℝ) : narrow (c : EReal) l u =
    (((0.5 * (l + u) - c * (0.5 * (u - l)) : ℝ) : EReal),
      ((0.5 * (l + u) + c * (0.5 * (u - l)) : ℝ) : EReal)) := by
  have hFinite : ∀ x : ℝ, Scalar.isFinite (x : EReal) = true := fun x =>
    Scalar.isFinite_iff.mpr ⟨EReal.coe_ne_top x, EReal.coe_ne_bot x⟩
  rw [narrow, if_pos (by rw [hFinite, hFinite]; rfl)]
  rfl

section Intervals

variable {beta gamma l u : EReal}

theorem narrow_of_infinite (h : ¬BothFinite l u) : narrow beta l u = (l, u) := by
  rw [narrow, if_neg (by rwa [Bool.and_eq_true])]

theorem narrow_mono (hb : Factor beta) (hc : Factor gamma) (hle : beta ≤ gamma) (h : l ≤ u) :
    (narrow gamma l u).1 ≤ (narrow beta l u).1 ∧ (narrow beta l u).2 ≤ (narrow gamma l u).2 := by
  by_cases hFinite : BothFinite l u
  · obtain ⟨b, rfl, -⟩ := hb.exists_real
    obtain ⟨c, rfl, -⟩ := hc.exists_real
    obtain ⟨l, u, rfl, rfl⟩ := hFinite.exists_real
    have hWidth : 0 ≤ 0.5 * (u - l) :=
      mul_nonneg (by norm_num) (sub_nonneg.mpr (EReal.coe_le_coe_iff.mp h))
    have hScaled : b * (0.5 * (u - l)) ≤ c * (0.5 * (u - l)) :=
      mul_le_mul_of_nonneg_right (EReal.coe_le_coe_iff.mp hle) hWidth
    rw [narrow_coe, narrow_coe]
    exact ⟨EReal.coe_le_coe_iff.mpr (by linarith), EReal.coe_le_coe_iff.mpr (by linarith)⟩
  · rw [narrow_of_infinite hFinite, narrow_of_infinite hFinite]
    exact ⟨le_rfl, le_rfl⟩

theorem narrow_one : narrow 1 l u = (l, u) := by
  by_cases hFinite : BothFinite l u
  · obtain ⟨l, u, rfl, rfl⟩ := hFinite.exists_real
    rw [← EReal.coe_one, narrow_coe]
    congr 2
    · ring
    · ring
  · exact narrow_of_infinite hFinite

theorem narrow_ordered (hb : Factor beta) (h : l ≤ u) :
    (narrow beta l u).1 ≤ (narrow beta l u).2 := by
  by_cases hFinite : BothFinite l u
  · obtain ⟨b, rfl, hPos, -⟩ := hb.exists_real
    obtain ⟨l, u, rfl, rfl⟩ := hFinite.exists_real
    have hWidth : 0 ≤ b * (0.5 * (u - l)) :=
      mul_nonneg hPos.le (mul_nonneg (by norm_num) (sub_nonneg.mpr (EReal.coe_le_coe_iff.mp h)))
    rw [narrow_coe]
    exact EReal.coe_le_coe_iff.mpr (by linarith)
  · rw [narrow_of_infinite hFinite]
    exact h

theorem narrow_narrow (hb : Factor beta) (hc : Factor gamma) :
    narrow gamma (narrow beta l u).1 (narrow beta l u).2 = narrow (beta * gamma) l u := by
  by_cases hFinite : BothFinite l u
  · obtain ⟨b, rfl, -⟩ := hb.exists_real
    obtain ⟨c, rfl, -⟩ := hc.exists_real
    obtain ⟨l, u, rfl, rfl⟩ := hFinite.exists_real
    rw [← EReal.coe_mul, narrow_coe, narrow_coe, narrow_coe]
    congr 2
    · ring
    · ring
  · rw [narrow_of_infinite hFinite, narrow_of_infinite hFinite, narrow_of_infinite hFinite]

theorem proper_narrow (hb : Factor beta) (h : Proper (l, u)) : Proper (narrow beta l u) := by
  have hOrdered := narrow_ordered hb h.ordered
  by_cases hFinite : BothFinite l u
  · obtain ⟨b, rfl, -⟩ := hb.exists_real
    obtain ⟨l, u, rfl, rfl⟩ := hFinite.exists_real
    rw [narrow_coe] at hOrdered ⊢
    exact ⟨hOrdered, EReal.coe_ne_top _, EReal.coe_ne_bot _⟩
  · rw [narrow_of_infinite hFinite]
    exact h

end Intervals

theorem factor (b : Bounds EReal) : Factor b.beta := ⟨b.ordered.2.1, b.ordered.2.2⟩

theorem size_lower (b : Bounds EReal) : b.lower.size = b.size := Vec.size_ofFn ..

theorem size_upper (b : Bounds EReal) : b.upper.size = b.size := Vec.size_ofFn ..

theorem exists_make {lower upper : Vec EReal} {beta : EReal} (hSize : lower.size = upper.size)
    (hOrdered : ∀ i, i < lower.size → lower.entry i ≤ upper.entry i) (hBeta : Factor beta) :
    ∃ b, make lower upper beta = .ok b := by
  have hNone : fault? lower upper beta = none := by
    change fault? lower.toList.toArray upper.toList.toArray beta = none
    rw [fault?_eq_none_iff, forall₂_le_iff]
    exact ⟨⟨hSize, hOrdered⟩, hBeta.pos, hBeta.le_one⟩
  exact ⟨⟨lower, upper, beta, hNone⟩, make_eq_ok_iff.mpr ⟨rfl, rfl, rfl⟩⟩

/-- Bounds that are infinite only where they bound nothing. -/
def Outward (b : Bounds EReal) : Prop :=
  ∀ i, i < b.size → b.givenLower.entry i ≠ ⊤ ∧ b.givenUpper.entry i ≠ ⊥

/-- The first box encloses the second. -/
def Encloses (c b : Bounds EReal) : Prop :=
  ∀ i, i < b.size → c.lower.entry i ≤ b.lower.entry i ∧ b.upper.entry i ≤ c.upper.entry i

section Boxes

variable {b c : Bounds EReal} {i : Nat}

theorem Outward.proper (h : b.Outward) (hi : i < b.size) : Proper (b.effective i) := by
  obtain ⟨hLower, hUpper⟩ := h i hi
  exact proper_narrow b.factor ⟨b.ordered.1 i hi, hLower, hUpper⟩

theorem entry_lower (hi : i < b.size) : b.lower.entry i = (b.effective i).1 :=
  Vec.entry_ofFn_of_lt hi

theorem entry_upper (hi : i < b.size) : b.upper.entry i = (b.effective i).2 :=
  Vec.entry_ofFn_of_lt hi

theorem nested (hi : i < b.size) : b.givenLower.entry i ≤ b.lower.entry i ∧
    b.lower.entry i ≤ b.upper.entry i ∧ b.upper.entry i ≤ b.givenUpper.entry i := by
  have hOrdered := b.ordered.1 i hi
  obtain ⟨hLower, hUpper⟩ := narrow_mono b.factor .one b.factor.le_one hOrdered
  rw [narrow_one] at hLower hUpper
  rw [entry_lower hi, entry_upper hi]
  exact ⟨hLower, narrow_ordered b.factor hOrdered, hUpper⟩

theorem kept_of_infinite (hi : i < b.size)
    (h : ¬BothFinite (b.givenLower.entry i) (b.givenUpper.entry i)) :
    b.lower.entry i = b.givenLower.entry i ∧ b.upper.entry i = b.givenUpper.entry i := by
  rw [entry_lower hi, entry_upper hi, effective, narrow_of_infinite h]
  exact ⟨rfl, rfl⟩

theorem encloses_of_le (hLower : b.givenLower = c.givenLower) (hUpper : b.givenUpper = c.givenUpper)
    (h : b.beta ≤ c.beta) : c.Encloses b := by
  intro i hi
  have hi' : i < c.size := by
    rwa [size, ← hLower]
  rw [entry_lower hi, entry_lower hi', entry_upper hi, entry_upper hi', effective, effective,
    ← hLower, ← hUpper]
  exact narrow_mono b.factor c.factor h (b.ordered.1 i hi)

theorem lower_upper_congr (hSize : b.size = c.size)
    (h : ∀ i, i < b.size → b.effective i = c.effective i) :
    b.lower = c.lower ∧ b.upper = c.upper := by
  constructor
  · refine Vec.ext_entry (by rw [size_lower, size_lower, hSize]) fun i hi => ?_
    rw [size_lower] at hi
    rw [entry_lower hi, entry_lower (hi.trans_eq hSize), h i hi]
  · refine Vec.ext_entry (by rw [size_upper, size_upper, hSize]) fun i hi => ?_
    rw [size_upper] at hi
    rw [entry_upper hi, entry_upper (hi.trans_eq hSize), h i hi]

end Boxes

/-- A narrowed box may be narrowed again, which leaves the box narrowed once by both factors. -/
theorem exists_narrowed_again (b : Bounds EReal) {gamma : EReal} (hc : Factor gamma) :
    ∃ again once, make b.lower b.upper gamma = .ok again ∧
      make b.givenLower b.givenUpper (b.beta * gamma) = .ok once ∧
      again.lower = once.lower ∧ again.upper = once.upper := by
  obtain ⟨again, hAgain⟩ := exists_make (b.size_lower.trans b.size_upper.symm)
    (fun i hi => (nested (hi.trans_eq b.size_lower)).2.1) hc
  obtain ⟨once, hOnce⟩ := exists_make b.size_givenUpper.symm b.ordered.1 (b.factor.mul hc)
  refine ⟨again, once, hAgain, hOnce, ?_⟩
  obtain ⟨hLower, hUpper, hBeta⟩ := make_eq_ok_iff.mp hAgain
  obtain ⟨hLower', hUpper', hBeta'⟩ := make_eq_ok_iff.mp hOnce
  have hSize : again.size = b.size := by
    rw [size, hLower, b.size_lower]
  have hSize' : once.size = b.size := by
    rw [size, hLower', size]
  refine lower_upper_congr (hSize.trans hSize'.symm) fun i hi => ?_
  have hi' : i < b.size := hi.trans_eq hSize
  rw [effective, effective, hLower, hUpper, hBeta, hLower', hUpper', hBeta', entry_lower hi',
    entry_upper hi']
  exact narrow_narrow b.factor hc

end MultibodyCost.Bounds
