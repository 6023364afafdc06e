import MultibodyCost.Proofs.Activation.Narrowing
import MultibodyCost.Proofs.Cost.History
import MultibodyCost.Proofs.Linear.Affine

/-! # Activations are expanded by their derivatives

At a real residual an activation computes a sum over the components, each with its own value,
slope and curvature: the gradient holds the slopes, and the Hessian the curvatures on its diagonal.
So what holds of one component between two numbers, or near one, holds of the whole activation.

The Hessian of the two quadratic activations is the one that their data was created with, whatever
was computed on it since.
-/

namespace MultibodyCost

open Finset Filter Topology

noncomputable def secondOrder (value : ℝ) (g : Vec ℝ) (h : Mat ℝ) (s : Vec ℝ) : ℝ :=
  value + g.dot s + 0.5 * s.dot (h.mulVec s)

namespace Parabola

variable (p : Nat → Parabola) (n : Nat)

noncomputable def values : ℝ := ∑ i ∈ range n, (p i).value

noncomputable def slopes : Vec ℝ := Vec.ofFn n fun i => (p i).slope

noncomputable def curves : Mat ℝ := Mat.diagonal (Vec.ofFn n fun i => (p i).curve)

theorem dot_slopes (s : Vec ℝ) :
    (slopes p n).dot s = ∑ i ∈ range n, (p i).slope * s.entry i := by
  rw [Vec.dot_eq_sum, slopes, Vec.size_ofFn]
  exact sum_congr rfl fun i hi => by rw [Vec.entry_ofFn_of_lt (mem_range.mp hi)]

theorem secondOrder_eq_sum {s : Vec ℝ} (hs : s.size = n) :
    secondOrder (values p n) (slopes p n) (curves p n) s =
      ∑ i ∈ range n, (p i).eval (s.entry i) := by
  have hCurves : s.dot ((curves p n).mulVec s) =
      ∑ i ∈ range n, (p i).curve * (s.entry i * s.entry i) := by
    rw [curves, Mat.dot_mulVec_diagonal, hs]
    exact sum_congr rfl fun i hi => by rw [Vec.entry_ofFn_of_lt (mem_range.mp hi)]
  rw [secondOrder, values, dot_slopes, hCurves, mul_sum, ← sum_add_distrib, ← sum_add_distrib]
  rfl

end Parabola

theorem Weights.exists_extended (w : Weights EReal) : ∃ ws : Vec ℝ, ws.extended = w.values :=
  Vec.exists_extended fun _ hi => Scalar.isFinite_iff.mp (w.entry_accepted hi).1

namespace Bounds

theorem reaches_iff {α : Type} [Scalar α] (b : Bounds α) {r : Vec α} {i : Nat} :
    b.reaches r i = true ↔ r.entry i ≤ (b.effective i).1 ∨ (b.effective i).2 ≤ r.entry i := by
  simp [reaches]

end Bounds

namespace Activation

/-- Where the activation has bounds, they are infinite only outwards. -/
def Outward : Activation EReal → Prop
  | quadratic _ => True
  | weighted _ => True
  | barrier b => b.Outward

/-- What the activation computes from component `i` alone. -/
noncomputable def parabola (a : Activation EReal) (i : Nat) (x : ℝ) : Parabola :=
  match a with
  | quadratic _ => ⟨0.5 * (x * x), x, 1⟩
  | weighted w =>
    let c := (w.values.entry i).toReal
    ⟨0.5 * (x * (c * x)), c * x, c⟩
  | barrier b => Bounds.parabola (b.effective i) x

noncomputable def parabolas (a : Activation EReal) (r : Vec ℝ) (i : Nat) : Parabola :=
  a.parabola i (r.entry i)

noncomputable def realValue (a : Activation EReal) (r : Vec ℝ) : ℝ :=
  Parabola.values (a.parabolas r) r.size

noncomputable def realGradient (a : Activation EReal) (r : Vec ℝ) : Vec ℝ :=
  Parabola.slopes (a.parabolas r) r.size

noncomputable def realHessian (a : Activation EReal) (r : Vec ℝ) : Mat ℝ :=
  Parabola.curves (a.parabolas r) r.size

theorem half_dot_extended (v w : Vec ℝ) : (0.5 : EReal) * v.extended.dot w.extended =
    ((∑ i ∈ range v.size, 0.5 * (v.entry i * w.entry i) : ℝ) : EReal) := by
  rw [Vec.dot_extended, Vec.dot_eq_sum, ← mul_sum, Scalar.half_extended]
  exact (EReal.coe_mul _ _).symm

theorem gradient_extended {a : Activation EReal} (hOut : a.Outward) {r : Vec ℝ}
    (hr : r.size = a.nr) : a.gradient r.extended = (a.realGradient r).extended := by
  rw [realGradient, Parabola.slopes, Vec.extended_ofFn]
  cases a with
  | quadratic n => rfl
  | weighted w =>
    obtain ⟨ws, hWs⟩ := w.exists_extended
    rw [gradient, ← hWs, Vec.mulEntries_extended, Vec.mulEntries, Vec.extended_ofFn]
    congr 1
    funext i
    rw [parabolas, parabola, ← hWs, Vec.entry_extended, EReal.toReal_coe]
  | barrier b =>
    rw [gradient, Bounds.violation, Vec.size_extended]
    refine Vec.ext_entry (by rw [Vec.size_ofFn, Vec.size_ofFn]) fun i hi => ?_
    rw [Vec.size_ofFn] at hi
    have hi' : i < b.size := hi.trans_eq hr
    rw [Vec.entry_ofFn_of_lt hi, Vec.entry_ofFn_of_lt hi, Vec.entry_extended]
    exact (Bounds.Outward.proper hOut hi').excess_eq_slope (r.entry i)

theorem value_extended {a : Activation EReal} (hOut : a.Outward) {r : Vec ℝ}
    (hr : r.size = a.nr) : a.value r.extended = (a.realValue r : ℝ) := by
  have hGradient := gradient_extended hOut hr
  cases a with
  | quadratic n => exact half_dot_extended r r
  | weighted w =>
    rw [gradient] at hGradient
    rw [value, hGradient, half_dot_extended]
    refine congrArg _ (sum_congr rfl fun i hi => ?_)
    rw [realGradient, Parabola.slopes, Vec.entry_ofFn_of_lt (mem_range.mp hi)]
    rfl
  | barrier b =>
    rw [gradient] at hGradient
    rw [value, hGradient, Vec.normSq, half_dot_extended, realGradient, Parabola.slopes,
      Vec.size_ofFn]
    refine congrArg _ (sum_congr rfl fun i hi => ?_)
    rw [Vec.entry_ofFn_of_lt (mem_range.mp hi)]
    rfl

theorem hessian_extended (a : Activation EReal) {r : Vec ℝ} (hr : r.size = a.nr) :
    a.hessian a.createData.hessian r.extended = (a.realHessian r).extended := by
  rw [realHessian, Parabola.curves, Mat.extended_diagonal_ofFn, hr]
  cases a with
  | quadratic n => rfl
  | weighted w =>
    obtain ⟨ws, hWs⟩ := w.exists_extended
    change Mat.diagonal w.values = _
    rw [Mat.diagonal, nr]
    congr 1
    funext i j
    rw [parabolas, parabola, ← hWs, Vec.entry_extended, EReal.toReal_coe]
  | barrier b =>
    rw [hessian, createData, ActivationData.zeros, Mat.rows_zeros, Mat.cols_zeros, nr]
    refine Mat.ext_entry rfl rfl fun i j (hi : i < b.size) (hj : j < b.size) => ?_
    rw [Mat.entry_ofFn_of_lt hi hj, Mat.entry_ofFn_of_lt hi hj]
    have hSize : i < r.extended.size := hi.trans_eq (hr.symm.trans (Vec.size_extended r).symm)
    have hReaches : b.reaches r.extended i = true ↔
        (r.entry i : EReal) ≤ (b.effective i).1 ∨ (b.effective i).2 ≤ r.entry i := by
      rw [b.reaches_iff, Vec.entry_extended]
    by_cases hij : i = j
    · rw [if_pos hij, parabolas, parabola, Bounds.parabola]
      by_cases hOut : (r.entry i : EReal) ≤ (b.effective i).1 ∨ (b.effective i).2 ≤ r.entry i
      · rw [if_pos hOut, if_pos ⟨hij, hSize, hReaches.mpr hOut⟩]
        rfl
      · rw [if_neg hOut, if_neg fun h => hOut (hReaches.mp h.2.2)]
        rfl
    · rw [if_neg hij, if_neg fun h => hij h.1]

/-- Data that the activation created, after any calls. -/
inductive Created {α : Type} [Scalar α] (a : Activation α) : ActivationData α → Prop
  | created : Created a a.createData
  | evaluated {d : ActivationData α} (h : Created a d) (r : Vec α) : Created a (a.evaluate d r)
  | differentiated {d : ActivationData α} (h : Created a d) (r : Vec α) (recalc : Bool) :
    Created a (a.differentiate d r recalc)

theorem Created.hessian_eq {α : Type} [Scalar α] {a : Activation α} {d : ActivationData α}
    (h : a.Created d) (r : Vec α) :
    a.hessian d.hessian r = a.hessian a.createData.hessian r := by
  refine Cost.hessian_congr ?_ r
  induction h with
  | created => rfl
  | evaluated _ _ ih => exact ih
  | differentiated _ r recalc ih => exact (a.keptHessian_hessian _ r).trans ih

theorem differentiate_extended {a : Activation EReal} (hOut : a.Outward) {r : Vec ℝ}
    (hr : r.size = a.nr) {d : ActivationData EReal} (hd : a.Created d) :
    a.differentiate d r.extended true =
      ⟨(a.realValue r : ℝ), (a.realGradient r).extended, (a.realHessian r).extended⟩ := by
  rw [differentiate, if_pos rfl, value_extended hOut hr, gradient_extended hOut hr, hd.hessian_eq,
    a.hessian_extended hr]

section Sums

variable {a : Activation EReal} {r s : Vec ℝ}

theorem realValue_add : a.realValue (r.add s) =
    ∑ i ∈ range r.size, (a.parabola i (r.entry i + s.entry i)).value := by
  rw [realValue, Parabola.values, Vec.size_add]
  refine sum_congr rfl fun i hi => ?_
  rw [parabolas, Vec.entry_add (mem_range.mp hi)]

theorem secondOrder_eq_sum (hs : s.size = r.size) :
    secondOrder (a.realValue r) (a.realGradient r) (a.realHessian r) s =
      ∑ i ∈ range r.size, (a.parabola i (r.entry i)).eval (s.entry i) :=
  Parabola.secondOrder_eq_sum (a.parabolas r) r.size hs

theorem gap_eq_sum : a.realValue (r.add s) - a.realValue r - (a.realGradient r).dot s =
    ∑ i ∈ range r.size, ((a.parabola i (r.entry i + s.entry i)).value -
      (a.parabola i (r.entry i)).value - (a.parabola i (r.entry i)).slope * s.entry i) := by
  rw [realValue_add, realGradient, Parabola.dot_slopes, realValue, Parabola.values,
    ← sum_sub_distrib, ← sum_sub_distrib]
  rfl

end Sums

end Activation

/-- No component of the residual lies on a bound of the narrowed box. -/
def Bounds.Misses (b : Bounds EReal) (r : Vec ℝ) : Prop :=
  ∀ i, i < r.size → (b.effective i).1 ≠ r.entry i ∧ (b.effective i).2 ≠ r.entry i

/-- The function `value` against its expansion at `r`: it lies above its tangent, by at most half
the squared step, and below its second-order expansion where the components of the step are small. -/
structure Bounds.Expansion (b : Bounds EReal) (value : Vec ℝ → ℝ) (r g : Vec ℝ) (h : Mat ℝ) :
    Prop where
  above : ∀ s, s.size = r.size → 0 ≤ value (r.add s) - value r - g.dot s
  below : ∀ s, s.size = r.size → value (r.add s) - value r - g.dot s ≤ 0.5 * s.normSq
  near : ∃ δ > 0, ∀ s : Vec ℝ, s.size = r.size → (∀ i, |s.entry i| < δ) →
    value (r.add s) ≤ secondOrder (value r) g h s ∧
      (b.Misses r → value (r.add s) = secondOrder (value r) g h s)

theorem exists_box {n : Nat} {P : Nat → ℝ → Prop} (h : ∀ i, i < n → ∀ᶠ t in 𝓝 0, P i t) :
    ∃ δ > 0, ∀ t : Nat → ℝ, (∀ i, |t i| < δ) → ∀ i, i < n → P i (t i) := by
  have hAll : ∀ᶠ t in 𝓝 (0 : ℝ), ∀ i ∈ range n, P i t :=
    (eventually_all_finset _).mpr fun i hi => h i (mem_range.mp hi)
  obtain ⟨δ, hδ, hBall⟩ := Metric.eventually_nhds_iff.mp hAll
  refine ⟨δ, hδ, fun t ht i hi => hBall ?_ i (mem_range.mpr hi)⟩
  rw [Real.dist_0_eq_abs]
  exact ht i

theorem Bounds.Outward.expansion {b : Bounds EReal} (h : b.Outward) {r : Vec ℝ}
    (hr : r.size = b.size) : b.Expansion (Activation.barrier b).realValue r
      ((Activation.barrier b).realGradient r) ((Activation.barrier b).realHessian r) := by
  have hProper : ∀ i ∈ range r.size, Proper (b.effective i) := fun i hi =>
    h.proper ((mem_range.mp hi).trans_eq hr)
  constructor
  · intro s hs
    rw [Activation.gap_eq_sum]
    exact sum_nonneg fun i hi => (hProper i hi).gap_nonneg (r.entry i) (s.entry i)
  · intro s hs
    rw [Activation.gap_eq_sum, Vec.normSq, Vec.dot_eq_sum, hs, mul_sum]
    exact sum_le_sum fun i hi => (hProper i hi).gap_le (r.entry i) (s.entry i)
  · obtain ⟨δ, hδ, hNear⟩ := exists_box (n := r.size) fun i hi =>
      (hProper i (mem_range.mpr hi)).eventually_near (r.entry i)
    refine ⟨δ, hδ, fun s hs hSmall => ?_⟩
    have hParts := hNear s.entry hSmall
    rw [Activation.realValue_add, Activation.secondOrder_eq_sum hs]
    refine ⟨sum_le_sum fun i hi => (hParts i (mem_range.mp hi)).1, fun hMisses => ?_⟩
    refine sum_congr rfl fun i hi => (hParts i (mem_range.mp hi)).2 ?_ ?_
    · exact (hMisses i (mem_range.mp hi)).1
    · exact (hMisses i (mem_range.mp hi)).2

namespace Activation

/-- The expansion of a barrier, and exactness for the two quadratic activations. -/
def Expansion (a : Activation EReal) (value : Vec ℝ → ℝ) (r g : Vec ℝ) (h : Mat ℝ) : Prop :=
  match a with
  | barrier b => b.Expansion value r g h
  | _ => ∀ s, s.size = r.size → value (r.add s) = secondOrder (value r) g h s

theorem expansion_real {a : Activation EReal} (hOut : a.Outward) {r : Vec ℝ} (hr : r.size = a.nr) :
    a.Expansion a.realValue r (a.realGradient r) (a.realHessian r) := by
  cases a with
  | quadratic n =>
    intro s hs
    rw [realValue_add, secondOrder_eq_sum hs]
    refine sum_congr rfl fun i _ => ?_
    simp only [parabola, Parabola.eval]
    ring
  | weighted w =>
    intro s hs
    rw [realValue_add, secondOrder_eq_sum hs]
    refine sum_congr rfl fun i _ => ?_
    simp only [parabola, Parabola.eval]
    ring
  | barrier b => exact Bounds.Outward.expansion hOut hr

/-- An activation computes a real function, and on data of its own it leaves the value with a
gradient and a Hessian that expand this function. -/
theorem expands {a : Activation EReal} (hOut : a.Outward) :
    ∃ value : Vec ℝ → ℝ,
      (∀ r, r.size = a.nr → a.value r.extended = (value r : ℝ)) ∧
      ∀ r d, r.size = a.nr → a.Created d → ∃ (g : Vec ℝ) (h : Mat ℝ),
        a.differentiate d r.extended true = ⟨(value r : ℝ), g.extended, h.extended⟩ ∧
        a.Expansion value r g h := by
  refine ⟨a.realValue, fun r hr => value_extended hOut hr, fun r d hr hd => ?_⟩
  exact ⟨a.realGradient r, a.realHessian r, differentiate_extended hOut hr hd,
    expansion_real hOut hr⟩

end Activation

noncomputable def Bounds.halfOpen : Bounds EReal where
  givenLower := [⊥, ((-1 : ℝ) : EReal)].toArray
  givenUpper := [((1 : ℝ) : EReal), ((1 : ℝ) : EReal)].toArray
  beta := ((0.5 : ℝ) : EReal)
  accepted := by
    refine fault?_eq_none_iff.mpr ⟨.cons bot_le (.cons ?_ .nil), ?_, ?_⟩
    · exact EReal.coe_le_coe_iff.mpr (by norm_num)
    · exact EReal.coe_pos.mpr (by norm_num)
    · exact EReal.coe_le_coe_iff.mpr (by norm_num)

theorem Bounds.outward_halfOpen : halfOpen.Outward := by
  intro i hi
  have hSize : i < 2 := hi
  interval_cases i
  · exact ⟨bot_ne_top, EReal.coe_ne_bot 1⟩
  · exact ⟨EReal.coe_ne_top (-1), EReal.coe_ne_bot 1⟩

theorem Activation.expands_halfOpen : (barrier .halfOpen).Outward ∧
    ∃ (value : Vec ℝ → ℝ) (g : Vec ℝ) (h : Mat ℝ),
      (barrier .halfOpen).differentiate (barrier .halfOpen).createData (Vec.extended #[2, 0]) true =
        ⟨(value #[2, 0] : ℝ), g.extended, h.extended⟩ ∧
      (barrier .halfOpen).Expansion value #[2, 0] g h := by
  refine ⟨Bounds.outward_halfOpen, ?_⟩
  obtain ⟨value, -, hAt⟩ := expands (a := barrier .halfOpen) Bounds.outward_halfOpen
  obtain ⟨g, h, hLeft, hExpansion⟩ := hAt #[2, 0] _ rfl .created
  exact ⟨value, g, h, hLeft, hExpansion⟩

end MultibodyCost
