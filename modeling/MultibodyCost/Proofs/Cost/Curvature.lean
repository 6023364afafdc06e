import MultibodyCost.Proofs.Config.Activation
import MultibodyCost.Proofs.Cost.Alone
import MultibodyCost.Proofs.Cost.Shapes
import MultibodyCost.Proofs.Linear.Forms
import MultibodyCost.Proofs.Linear.Slices

/-! # Costs curve upwards

The Hessian of an activation is a diagonal without negative entries: ones, accepted weights, or a one
for each component that reaches its bound. Two of the three are set when data is created and kept by
every call after it. Between two residual Jacobians such a Hessian gives second derivatives that are
symmetric and, taken together for the tangent and the control, not negative in any direction.
-/

namespace MultibodyCost

/-- A cost that is not negative, with second derivatives by a tangent of dimension `ndx` and a control
of dimension `nu` that are symmetric and not negative in any joint direction. -/
structure Curvature (ndx nu : Nat) (cost : ℝ) (lxx lxu luu : Mat ℝ) : Prop where
  cost_nonneg : 0 ≤ cost
  shape_xx : lxx.rows = ndx ∧ lxx.cols = ndx
  shape_xu : lxu.rows = ndx ∧ lxu.cols = nu
  shape_uu : luu.rows = nu ∧ luu.cols = nu
  symm_xx : ∀ i j, lxx.entry i j = lxx.entry j i
  symm_uu : ∀ i j, luu.entry i j = luu.entry j i
  form_nonneg : ∀ a b : Vec ℝ,
    0 ≤ a.dot (lxx.mulVec a) + 2 * a.dot (lxu.mulVec b) + b.dot (luu.mulVec b)

theorem Weights.entry_nonneg (w : Weights ℝ) (i : Nat) : 0 ≤ w.values.entry i := by
  by_cases hi : i < w.values.size
  · exact (w.entry_accepted hi).2
  · rw [Vec.entry_eq_zero (Nat.not_lt.mp hi)]

namespace Activation

theorem value_nonneg (a : Activation ℝ) (r : Vec ℝ) : 0 ≤ a.value r := by
  have hHalf : (0 : ℝ) ≤ 0.5 := by norm_num
  cases a with
  | quadratic n => exact mul_nonneg hHalf r.normSq_nonneg
  | weighted w =>
    refine mul_nonneg hHalf ?_
    rw [Vec.dot_eq_sum]
    refine Finset.sum_nonneg fun i hi => ?_
    rw [Vec.mulEntries, Vec.entry_ofFn_of_lt (Finset.mem_range.mp hi), mul_left_comm]
    exact mul_nonneg (w.entry_nonneg i) (mul_self_nonneg _)
  | barrier b => exact mul_nonneg hHalf (b.violation r).normSq_nonneg

theorem nonnegDiagonal_hessian {a : Activation ℝ} {old : Mat ℝ} (r : Vec ℝ)
    (hKept : a.keptHessian old = a.keptHessian a.createData.hessian) :
    (a.hessian old r).NonnegDiagonal := by
  cases a with
  | quadratic n =>
    obtain rfl : old = .identity n := hKept
    rw [hessian, Mat.identity]
    refine Mat.nonnegDiagonal_ofFn (fun i j hij => if_neg hij) fun i => ?_
    rw [if_pos rfl]
    exact zero_le_one
  | weighted w =>
    obtain rfl : old = .diagonal w.values := hKept
    rw [hessian, Mat.diagonal]
    refine Mat.nonnegDiagonal_ofFn (fun i j hij => if_neg hij) fun i => ?_
    rw [if_pos rfl]
    exact w.entry_nonneg i
  | barrier b =>
    rw [hessian]
    refine Mat.nonnegDiagonal_ofFn (fun i j hij => if_neg fun h => hij h.1) fun i => ?_
    split
    · exact zero_le_one
    · exact le_rfl

end Activation

structure Assembled {α : Type} [Scalar α] (a : Activation α) (d : CostData α) : Prop where
  gradient : d.activation.gradient = a.gradient d.r
  hessian : ∃ old, a.keptHessian old = a.keptHessian d.activation.hessian ∧
    d.activation.hessian = a.hessian old d.r
  rows : d.rx.rows = d.ru.rows
  lx : d.lx = d.rx.trMulVec d.activation.gradient
  lu : d.lu = d.ru.trMulVec d.activation.gradient
  lxx : d.lxx = d.rx.trMul (d.activation.hessian.mul d.rx)
  lxu : d.lxu = d.rx.trMul (d.activation.hessian.mul d.ru)
  luu : d.luu = d.ru.trMul (d.activation.hessian.mul d.ru)

theorem assembled_of_assemble {α : Type} [Elementary α] {a : Activation α} {d d' : CostData α}
    (h : d.assemble? a = some d') : Assembled a d' := by
  obtain ⟨hFits, rfl⟩ := of_assemble h
  have hKept := a.keptHessian_hessian d.activation.hessian d.r
  exact ⟨rfl, ⟨d.activation.hessian, hKept.symm, rfl⟩, hFits.1.symm.trans hFits.2.1, rfl, rfl, rfl,
    rfl, rfl⟩

namespace Cost

theorem cost_of_done {α : Type} [Elementary α] {c : Cost α} {args : Arguments α} {d d' : CostData α}
    (h : c.differentiate args true d = .done d') : d'.cost = c.activation.value d'.r := by
  rw [differentiate_recalc] at h
  obtain ⟨mid, hEvaluate, hDerive⟩ := Outcome.andThen_eq_done.mp h
  obtain ⟨-, r, -, -, rfl⟩ := of_evaluate hEvaluate
  have hValues := c.values_differentiate args (d.activate c.activation r)
  rw [hDerive, Outcome.data_done] at hValues
  obtain ⟨hR, hCost⟩ := Prod.mk.inj hValues
  rw [hCost, hR]
  rfl

theorem curvature {c : Cost ℝ} {args : Arguments ℝ} {d d' : CostData ℝ}
    (hKept : c.kept d = c.kept c.createData) (h : c.differentiate args true d = .done d') :
    Curvature c.state.ndx c.nu d'.cost d'.lxx d'.lxu d'.luu := by
  have hShapes := derived_of_done (sized_of_kept hKept) h
  obtain ⟨d₀, hAssemble⟩ := exists_assemble h
  have hAssembled := assembled_of_assemble hAssemble
  have hKept' := c.kept_differentiate args true d
  rw [h] at hKept'
  have hHessian : d'.activation.hessian.NonnegDiagonal := by
    obtain ⟨old, hOld, hNew⟩ := hAssembled.hessian
    rw [hNew]
    exact Activation.nonnegDiagonal_hessian d'.r
      (hOld.trans (congrArg Kept.hessian (hKept'.trans hKept)))
  constructor
  · rw [cost_of_done h]
    exact c.activation.value_nonneg d'.r
  · exact hShapes.lxx
  · exact hShapes.lxu
  · exact hShapes.luu
  · rw [hAssembled.lxx]
    exact hHessian.symmetric d'.rx
  · rw [hAssembled.luu]
    exact hHessian.symmetric d'.ru
  · intro a b
    rw [hAssembled.lxx, hAssembled.lxu, hAssembled.luu]
    exact hHessian.form_nonneg hAssembled.rows a b

end Cost

end MultibodyCost
