import MultibodyCost.Proofs.Activation.Expansion

/-! # Distance from the narrowed box

The barrier is half the squared distance from the narrowed box: what the excess takes away from a
residual leaves its nearest point of the box. A wider box has nearer points, so that the barrier falls
as the box is narrowed less.
-/

namespace MultibodyCost

open Finset

namespace Vec

theorem normSq_sub (v w : Vec ℝ) : (v.sub w).normSq =
    ∑ i ∈ range v.size, (v.entry i - w.entry i) * (v.entry i - w.entry i) := by
  rw [normSq, dot_eq_sum, size_sub]
  exact sum_congr rfl fun i hi => by rw [entry_sub (mem_range.mp hi)]

theorem normSq_sub_self (v : Vec ℝ) : (v.sub v).normSq = 0 := by
  rw [normSq_sub]
  exact sum_eq_zero fun i _ => by rw [sub_self, zero_mul]

theorem entry_eq_of_normSq_sub {v w : Vec ℝ} (h : (v.sub w).normSq = 0) {i : Nat}
    (hi : i < v.size) : v.entry i = w.entry i := by
  rw [normSq_sub, sum_eq_zero_iff_of_nonneg fun i _ => mul_self_nonneg _] at h
  exact sub_eq_zero.mp (mul_self_eq_zero.mp (h i (mem_range.mpr hi)))

end Vec

namespace Bounds

section Components

variable {bounds : EReal × EReal}

theorem Surplus.nearest {x p q : ℝ} (h : Surplus bounds x (x - p)) (hq : Within bounds q) :
    (x - p) * (x - p) + (p - q) * (p - q) ≤ (x - q) * (x - q) := by
  have hOutward := h.outward q hq
  rw [sub_sub_cancel] at hOutward
  calc (x - p) * (x - p) + (p - q) * (p - q)
      ≤ (x - p) * (x - p) + (p - q) * (p - q) + 2 * ((x - p) * (p - q)) :=
        le_add_of_nonneg_right (mul_nonneg zero_le_two hOutward)
    _ = (x - q) * (x - q) := by ring

theorem Proper.sub_slope (h : Proper bounds) (x : ℝ) :
    ((x - (parabola bounds x).slope : ℝ) : EReal) = max bounds.1 (min (x : EReal) bounds.2) := by
  obtain ⟨u, hu, hx⟩ | ⟨l, hl, hx⟩ | hx := h.position x
  · have hAbove : bounds.2 ≤ x := hu ▸ EReal.coe_le_coe_iff.mpr hx.le
    rw [(parabola_of_excess (excess_of_above hu hx)).2, sub_sub_cancel, ← hu,
      min_eq_right hAbove, max_eq_right h.ordered]
  · have hBelow : (x : EReal) ≤ bounds.1 := hl ▸ EReal.coe_le_coe_iff.mpr hx.le
    rw [(parabola_of_excess (h.excess_of_below hl hx)).2, sub_sub_cancel, ← hl,
      min_eq_left (hBelow.trans h.ordered), max_eq_left hBelow]
  · rw [(parabola_of_excess hx.excess).2, sub_zero, min_eq_left hx.upper, max_eq_right hx.lower]

end Components

def Contains (b : Bounds EReal) (q : Vec ℝ) : Prop :=
  ∀ i, i < b.size → b.lower.entry i ≤ q.entry i ∧ (q.entry i : EReal) ≤ b.upper.entry i

/-- The point `p` of the narrowed box is the residual clamped to it. The triangle with any other
point of the box has no acute angle at `p`, so that this point is farther from the residual. -/
structure IsNearest (b : Bounds EReal) (r p : Vec ℝ) : Prop where
  size : p.size = r.size
  clamped : ∀ i, i < b.size →
    (p.entry i : EReal) = max (b.lower.entry i) (min (r.entry i : EReal) (b.upper.entry i))
  mem : b.Contains p
  nearest : ∀ q, q.size = r.size → b.Contains q →
    (r.sub p).normSq + (p.sub q).normSq ≤ (r.sub q).normSq

/-- What is left of a residual without its excess. -/
noncomputable def nearest (b : Bounds EReal) (r : Vec ℝ) : Vec ℝ :=
  r.sub ((Activation.barrier b).realGradient r)

section Nearest

variable {b c : Bounds EReal} {r p q : Vec ℝ}

theorem contains_iff : b.Contains q ↔ ∀ i, i < b.size → Within (b.effective i) (q.entry i) := by
  refine forall₂_congr fun i hi => ?_
  rw [entry_lower hi, entry_upper hi]
  exact ⟨fun h => ⟨h.1, h.2⟩, fun h => ⟨h.lower, h.upper⟩⟩

theorem Encloses.contains (h : c.Encloses b) (hSize : c.size = b.size) (hq : b.Contains q) :
    c.Contains q := by
  intro i hi
  obtain ⟨hLower, hUpper⟩ := h i (hi.trans_eq hSize)
  obtain ⟨hAbove, hBelow⟩ := hq i (hi.trans_eq hSize)
  exact ⟨hLower.trans hAbove, hBelow.trans hUpper⟩

theorem IsNearest.normSq_le (hp : b.IsNearest r p) (hq : c.IsNearest r q) (h : c.Encloses b)
    (hSize : c.size = b.size) : (r.sub q).normSq ≤ (r.sub p).normSq :=
  calc (r.sub q).normSq ≤ (r.sub q).normSq + (q.sub p).normSq :=
        le_add_of_nonneg_right (Vec.normSq_nonneg _)
    _ ≤ (r.sub p).normSq := hq.nearest p hp.size (h.contains hSize hp.mem)

theorem IsNearest.normSq_eq_zero_iff (hp : b.IsNearest r p) (hr : r.size = b.size) :
    (r.sub p).normSq = 0 ↔ b.Contains r := by
  constructor
  · intro h i hi
    rw [Vec.entry_eq_of_normSq_sub h (hi.trans_eq hr.symm)]
    exact hp.mem i hi
  · intro h
    refine le_antisymm ?_ (Vec.normSq_nonneg _)
    calc (r.sub p).normSq ≤ (r.sub p).normSq + (p.sub r).normSq :=
          le_add_of_nonneg_right (Vec.normSq_nonneg _)
      _ ≤ (r.sub r).normSq := hp.nearest r rfl h
      _ = 0 := Vec.normSq_sub_self r

theorem size_realGradient (a : Activation EReal) (r : Vec ℝ) : (a.realGradient r).size = r.size :=
  Vec.size_ofFn ..

theorem sub_nearest (b : Bounds EReal) (r : Vec ℝ) :
    r.sub (b.nearest r) = (Activation.barrier b).realGradient r := by
  refine Vec.ext_entry ?_ fun i hi => ?_
  · rw [Vec.size_sub, size_realGradient]
  · rw [Vec.size_sub] at hi
    rw [Vec.entry_sub hi, nearest, Vec.entry_sub hi, sub_sub_cancel]

theorem entry_nearest {i : Nat} (hi : i < r.size) : (b.nearest r).entry i =
    r.entry i - (parabola (b.effective i) (r.entry i)).slope := by
  rw [nearest, Vec.entry_sub hi, Activation.realGradient, Parabola.slopes, Vec.entry_ofFn_of_lt hi]
  rfl

theorem Outward.surplus_nearest (hOut : b.Outward) (hr : r.size = b.size) {i : Nat}
    (hi : i < b.size) :
    Surplus (b.effective i) (r.entry i) (r.entry i - (b.nearest r).entry i) := by
  rw [entry_nearest (hi.trans_eq hr.symm), sub_sub_cancel]
  exact (hOut.proper hi).surplus (r.entry i)

theorem Outward.isNearest (hOut : b.Outward) (hr : r.size = b.size) :
    b.IsNearest r (b.nearest r) := by
  have hSurplus := fun i (hi : i < b.size) => hOut.surplus_nearest hr hi
  have hSize : (b.nearest r).size = r.size := Vec.size_sub ..
  refine ⟨hSize, fun i hi => ?_, contains_iff.mpr fun i hi => ?_, fun q _ hContains => ?_⟩
  · rw [entry_nearest (hi.trans_eq hr.symm), entry_lower hi, entry_upper hi]
    exact (hOut.proper hi).sub_slope (r.entry i)
  · have hWithin := (hSurplus i hi).within
    rwa [sub_sub_cancel] at hWithin
  · rw [Vec.normSq_sub, Vec.normSq_sub, Vec.normSq_sub, hSize, ← sum_add_distrib]
    refine sum_le_sum fun i hi => ?_
    have hi' : i < b.size := (mem_range.mp hi).trans_eq hr
    exact (hSurplus i hi').nearest (contains_iff.mp hContains i hi')

end Nearest

/-- The box `b` is what narrowing by a factor leaves of the bounds: inside them, not inverted, and
as given where a bound is infinite. Narrowing it again is narrowing the bounds by both factors. -/
structure NarrowedFrom (lower upper : Vec EReal) (beta : EReal) (b : Bounds EReal) : Prop where
  sizes : lower.size = b.size ∧ upper.size = b.size
  nested : ∀ i, i < b.size → lower.entry i ≤ b.lower.entry i ∧
    b.lower.entry i ≤ b.upper.entry i ∧ b.upper.entry i ≤ upper.entry i
  kept : ∀ i, i < b.size → ¬BothFinite (lower.entry i) (upper.entry i) →
    b.lower.entry i = lower.entry i ∧ b.upper.entry i = upper.entry i
  again : ∀ gamma, Factor gamma → ∃ again once, make b.lower b.upper gamma = .ok again ∧
    make lower upper (beta * gamma) = .ok once ∧
    again.lower = once.lower ∧ again.upper = once.upper

structure Measures (b : Bounds EReal) (r p : Vec ℝ) : Prop where
  nearest : b.IsNearest r p
  value : ∀ d, ((Activation.barrier b).evaluate d r.extended).value =
    ((0.5 * (r.sub p).normSq : ℝ) : EReal)
  value_differentiated : ∀ d, ((Activation.barrier b).differentiate d r.extended true).value =
    ((0.5 * (r.sub p).normSq : ℝ) : EReal)
  gradient : ∀ d recalc, ((Activation.barrier b).differentiate d r.extended recalc).gradient =
    (r.sub p).extended
  zero_iff : (Activation.barrier b).value r.extended = 0 ↔ b.Contains r

section Barrier

variable {b c : Bounds EReal} {r : Vec ℝ}

theorem narrowedFrom (b : Bounds EReal) : b.NarrowedFrom b.givenLower b.givenUpper b.beta where
  sizes := ⟨rfl, b.size_givenUpper⟩
  nested _ hi := b.nested hi
  kept _ hi := b.kept_of_infinite hi
  again _ hc := b.exists_narrowed_again hc

theorem Outward.value_barrier (hOut : b.Outward) (hr : r.size = b.size) :
    (Activation.barrier b).value r.extended =
      ((0.5 * (r.sub (b.nearest r)).normSq : ℝ) : EReal) := by
  change 0.5 * ((Activation.barrier b).gradient r.extended).normSq = _
  rw [Activation.gradient_extended (a := .barrier b) hOut hr, sub_nearest, Vec.normSq,
    Vec.dot_extended, Scalar.half_extended]
  exact (EReal.coe_mul _ _).symm

theorem Outward.measures (hOut : b.Outward) (hr : r.size = b.size) :
    b.Measures r (b.nearest r) where
  nearest := hOut.isNearest hr
  value _ := hOut.value_barrier hr
  value_differentiated _ := hOut.value_barrier hr
  gradient _ _ := by
    rw [sub_nearest]
    exact Activation.gradient_extended (a := .barrier b) hOut hr
  zero_iff := by
    rw [hOut.value_barrier hr, EReal.coe_eq_zero, ← (hOut.isNearest hr).normSq_eq_zero_iff hr]
    exact mul_eq_zero_iff_left (by norm_num)

theorem Outward.value_le (hb : b.Outward) (hc : c.Outward) (h : c.Encloses b)
    (hSize : c.size = b.size) (hr : r.size = b.size) :
    (Activation.barrier c).value r.extended ≤ (Activation.barrier b).value r.extended := by
  have hr' : r.size = c.size := hr.trans hSize.symm
  rw [hb.value_barrier hr, hc.value_barrier hr', EReal.coe_le_coe_iff]
  exact mul_le_mul_of_nonneg_left ((hb.isNearest hr).normSq_le (hc.isNearest hr') h hSize)
    (by norm_num)

end Barrier

/-- What is made of bounds and a factor is the narrowed box, a greater factor making a wider box.
Where the bounds are infinite only outwards, the barrier is half the squared distance from the box,
which is not greater from a wider one. -/
theorem barrier_distance {lower upper : Vec EReal} {beta : EReal} {b : Bounds EReal}
    (h : make lower upper beta = .ok b) :
    b.NarrowedFrom lower upper beta ∧
    (∀ gamma c, make lower upper gamma = .ok c → beta ≤ gamma → c.Encloses b) ∧
    (b.Outward → ∀ r : Vec ℝ, r.size = b.size → (∃ p, b.Measures r p) ∧
      ∀ gamma c, make lower upper gamma = .ok c → beta ≤ gamma →
        (Activation.barrier c).value r.extended ≤ (Activation.barrier b).value r.extended) := by
  obtain ⟨rfl, rfl, rfl⟩ := make_eq_ok_iff.mp h
  have hEncloses : ∀ gamma c, make b.givenLower b.givenUpper gamma = .ok c → b.beta ≤ gamma →
      c.Encloses b := by
    intro gamma c hMake hle
    obtain ⟨hLower, hUpper, rfl⟩ := make_eq_ok_iff.mp hMake
    exact encloses_of_le hLower.symm hUpper.symm hle
  refine ⟨b.narrowedFrom, hEncloses, fun hOut r hr => ⟨⟨_, hOut.measures hr⟩, ?_⟩⟩
  intro gamma c hMake hle
  obtain ⟨hLower, hUpper, -⟩ := make_eq_ok_iff.mp hMake
  have hSize : c.size = b.size := by
    rw [size, hLower, size]
  have hOut' : c.Outward := by
    rwa [Outward, hSize, hLower, hUpper]
  exact hOut.value_le hOut' (hEncloses gamma c hMake hle) hSize hr

theorem barrier_distance_halfOpen : halfOpen.Outward ∧
    halfOpen.NarrowedFrom halfOpen.givenLower halfOpen.givenUpper halfOpen.beta ∧
    (∃ p, halfOpen.Measures #[2, 0] p) ∧
    ∃ c, make halfOpen.givenLower halfOpen.givenUpper 1 = .ok c ∧ c.Encloses halfOpen ∧
      (Activation.barrier c).value (Vec.extended #[2, 0]) ≤
        (Activation.barrier halfOpen).value (Vec.extended #[2, 0]) := by
  obtain ⟨c, hMake⟩ := exists_make halfOpen.size_givenUpper.symm halfOpen.ordered.1 .one
  obtain ⟨hNarrowed, hEncloses, hMeasures⟩ :=
    barrier_distance (make_eq_ok_iff.mpr ⟨rfl, rfl, rfl⟩ :
      make halfOpen.givenLower halfOpen.givenUpper halfOpen.beta = .ok halfOpen)
  obtain ⟨hNearest, hLess⟩ := hMeasures outward_halfOpen #[2, 0] rfl
  have hle : halfOpen.beta ≤ 1 := halfOpen.factor.le_one
  exact ⟨outward_halfOpen, hNarrowed, hNearest, c, hMake, hEncloses 1 c hMake hle,
    hLess 1 c hMake hle⟩

end Bounds

end MultibodyCost
