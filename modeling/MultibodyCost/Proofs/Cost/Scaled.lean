import MultibodyCost.Proofs.Config.Activation
import MultibodyCost.Proofs.Cost.Alone
import MultibodyCost.Proofs.Linear.Forms

/-! # Costs with a multiple of an activation

Where one activation is a multiple of another, with the same factor for value, gradient and Hessian,
a cost computes with the first the multiple of what it computes with the second. The residual and its
Jacobians do not depend on the activation, and the assembly is linear in the rest, so the calls of
the two costs commute with the scaling of their data, whether they are done or stop.
-/

namespace MultibodyCost

open Finset

theorem Vec.scale_one (v : Vec ℝ) : v.scale 1 = v := by
  apply ext_entry (size_scale ..)
  intro i _
  rw [entry_scale, mul_one]

theorem Vec.dot_scale (v w : Vec ℝ) (c : ℝ) : v.dot (w.scale c) = c * v.dot w := by
  rw [dot_eq_sum, dot_eq_sum, mul_sum]
  refine sum_congr rfl fun i _ => ?_
  rw [entry_scale]
  ring

theorem Vec.scale_mulEntries (v w : Vec ℝ) (c : ℝ) :
    (v.scale c).mulEntries w = (v.mulEntries w).scale c := by
  apply ext_entry
  · rw [size_scale, size_mulEntries, size_mulEntries]
  · intro i hi
    rw [size_mulEntries] at hi
    rw [entry_scale, mulEntries, entry_ofFn_of_lt hi, mulEntries, entry_ofFn_of_lt hi, entry_scale]
    ring

namespace Mat

variable (m n : Mat ℝ) (c : ℝ)

theorem trMulVec_scale (v : Vec ℝ) : m.trMulVec (v.scale c) = (m.trMulVec v).scale c := by
  apply Vec.ext_entry
  · rw [Vec.size_scale, trMulVec, Vec.size_ofFn, trMulVec, Vec.size_ofFn]
  · intro i _
    rw [Vec.entry_scale, entry_trMulVec, entry_trMulVec, sum_mul]
    refine sum_congr rfl fun k _ => ?_
    rw [Vec.entry_scale, mul_assoc]

theorem trMul_scale : m.trMul (n.scale c) = (m.trMul n).scale c := by
  refine ext_entry rfl rfl ?_
  intro i j _ _
  rw [entry_scale, entry_trMul, entry_trMul, sum_mul]
  refine sum_congr rfl fun k _ => ?_
  rw [entry_scale, mul_assoc]

theorem scale_mul : (m.scale c).mul n = (m.mul n).scale c := by
  refine ext_entry rfl rfl ?_
  intro i j (hi : i < (m.scale c).rows) (hj : j < n.cols)
  rw [entry_scale, mul, entry_ofFn_of_lt hi hj, mul, entry_ofFn_of_lt (show i < m.rows from hi) hj,
    Scalar.sum_eq_finset, Scalar.sum_eq_finset, sum_mul]
  refine sum_congr rfl fun k _ => ?_
  rw [entry_scale]
  ring

theorem diagonal_scale (v : Vec ℝ) : diagonal (v.scale c) = (diagonal v).scale c := by
  apply ext_entry
  · exact Vec.size_scale v c
  · exact Vec.size_scale v c
  · intro i j _ _
    rw [entry_scale, entry_diagonal, entry_diagonal, Vec.entry_scale, ite_mul, zero_mul]

end Mat

theorem Vec.scale_zeros (n : Nat) (c : ℝ) : (zeros n).scale c = zeros n := by
  apply ext_entry (size_scale ..)
  intro i hi
  rw [size_scale, size_zeros] at hi
  rw [entry_scale, zeros, entry_ofFn_of_lt hi, zero_mul]

theorem Mat.scale_zeros (m n : Nat) (c : ℝ) : (zeros m n).scale c = zeros m n := by
  refine ext_entry rfl rfl ?_
  intro i j _ _
  rw [entry_scale, entry_zeros, zero_mul]

noncomputable def ActivationData.scale (d : ActivationData ℝ) (w : ℝ) : ActivationData ℝ :=
  ⟨w * d.value, d.gradient.scale w, d.hessian.scale w⟩

theorem ActivationData.scale_zeros (n : Nat) (w : ℝ) : (zeros n).scale w = zeros n := by
  rw [scale, zeros, Vec.scale_zeros, Mat.scale_zeros, mul_zero]

namespace Weights

theorem fault?_of_nonneg {v : Vec ℝ} (h : ∀ i < v.size, 0 ≤ v.entry i) : fault? v = none := by
  refine fault?_eq_none_iff.mpr fun x hx => ⟨rfl, ?_⟩
  obtain ⟨i, hi, rfl⟩ := Array.mem_iff_getElem.mp (Array.mem_def.mpr hx)
  rw [← Vec.entry_eq_getElem v hi]
  exact h i hi

/-- Weights that are all multiplied by one more. -/
noncomputable def scaled (v : Weights ℝ) (w : ℝ) (hw : 0 ≤ w) : Weights ℝ where
  values := v.values.scale w
  accepted := by
    refine fault?_of_nonneg fun i hi => ?_
    rw [Vec.size_scale] at hi
    rw [Vec.entry_scale]
    exact mul_nonneg (v.entry_accepted hi).2 hw

noncomputable def ones (n : Nat) : Weights ℝ where
  values := Vec.ofFn n fun _ => 1
  accepted := by
    refine fault?_of_nonneg fun i hi => ?_
    rw [Vec.size_ofFn] at hi
    rw [Vec.entry_ofFn_of_lt hi]
    exact zero_le_one

end Weights

namespace Activation

structure Scales (w : ℝ) (a b : Activation ℝ) : Prop where
  nr : b.nr = a.nr
  createData : b.createData = a.createData.scale w
  value : ∀ r, r.size = a.nr → b.value r = w * a.value r
  gradient : ∀ r, r.size = a.nr → b.gradient r = (a.gradient r).scale w
  hessian : ∀ old r, b.hessian (old.scale w) r = (a.hessian old r).scale w

theorem scales_weighted (v : Weights ℝ) {w : ℝ} (hw : 0 ≤ w) :
    Scales w (.weighted v) (.weighted (v.scaled w hw)) where
  nr := Vec.size_scale v.values w
  createData := by
    have hZeros := ActivationData.scale_zeros v.values.size w
    simp only [ActivationData.zeros, ActivationData.scale, ActivationData.mk.injEq] at hZeros
    simp only [Activation.createData, ActivationData.zeros, ActivationData.scale, Weights.scaled,
      Vec.size_scale, hZeros.1, hZeros.2.1, Mat.diagonal_scale]
  value r _ := by
    simp only [value, Weights.scaled]
    rw [Vec.scale_mulEntries, Vec.dot_scale]
    ring
  gradient r _ := Vec.scale_mulEntries v.values r w
  hessian _ _ := rfl

theorem ones_mulEntries {n : Nat} {r : Vec ℝ} (h : r.size = n) :
    (Weights.ones n).values.mulEntries r = r := by
  apply Vec.ext_entry (Vec.size_mulEntries ..)
  intro i hi
  rw [Vec.size_mulEntries] at hi
  rw [Vec.mulEntries, Vec.entry_ofFn_of_lt hi, Weights.ones, Vec.entry_ofFn_of_lt (h ▸ hi), one_mul]

theorem diagonal_ones (n : Nat) : Mat.diagonal (Weights.ones n).values = .identity n := by
  have hSize : (Weights.ones n).values.size = n := Vec.size_ofFn n _
  apply Mat.ext_entry
  · exact hSize
  · exact hSize
  · intro i j hi hj
    rw [Mat.diagonal, Mat.rows_ofFn, hSize] at hi
    rw [Mat.diagonal, Mat.cols_ofFn, hSize] at hj
    rw [Mat.entry_diagonal, Mat.entry_identity hi hj, Weights.ones, Vec.entry_ofFn_of_lt hi]

theorem scales_ones (n : Nat) : Scales 1 (.quadratic n) (.weighted (.ones n)) where
  nr := Vec.size_ofFn n _
  createData := by
    have hSize : (Weights.ones n).values.size = n := Vec.size_ofFn n _
    simp only [Activation.createData, ActivationData.zeros, ActivationData.scale, diagonal_ones,
      hSize, Vec.scale_one, Mat.scale_one, mul_zero]
  value r h := by
    have hSame := ones_mulEntries h
    simp only [nr] at hSame
    simp only [value, hSame, one_mul, Vec.normSq]
  gradient r h := by
    have hSame := ones_mulEntries h
    simp only [nr] at hSame
    simp only [gradient, hSame, Vec.scale_one]
  hessian old r := (Mat.scale_one old).trans (Mat.scale_one old).symm

end Activation

namespace CostData

/-- The data with everything that depends on the activation multiplied by `w`. -/
noncomputable def scale (d : CostData ℝ) (w : ℝ) : CostData ℝ :=
  { d with
    activation := d.activation.scale w
    cost := w * d.cost
    lx := d.lx.scale w
    lu := d.lu.scale w
    lxx := d.lxx.scale w
    lxu := d.lxu.scale w
    luu := d.luu.scale w }

theorem scale_one (d : CostData ℝ) : d.scale 1 = d := by
  simp only [scale, ActivationData.scale, Vec.scale_one, Mat.scale_one, one_mul]

variable {a b : Activation ℝ} {w : ℝ}

theorem sameSizes_scale (d : CostData ℝ) (w : ℝ) : (d.scale w).SameSizes d where
  residual := rfl
  gradient := Vec.size_scale ..
  hessianRows := rfl
  hessianCols := rfl
  rxRows := rfl
  rxCols := rfl
  ruRows := rfl
  ruCols := rfl
  lx := Vec.size_scale ..
  lu := Vec.size_scale ..

theorem zeros_scale (h : a.Scales w b) (ndx nu : Nat) : zeros ndx nu b = (zeros ndx nu a).scale w := by
  simp only [zeros, scale, h.nr, h.createData, Vec.scale_zeros, Mat.scale_zeros, mul_zero]

theorem activate_scale (h : a.Scales w b) (d : CostData ℝ) {r : Vec ℝ} (hr : r.size = a.nr) :
    (d.scale w).activate b r = (d.activate a r).scale w := by
  simp only [activate, scale, Activation.evaluate, ActivationData.scale, h.value r hr]

theorem assemble_scale (h : a.Scales w b) {d : CostData ℝ} (hr : d.r.size = a.nr) :
    (d.scale w).assemble? b = (d.assemble? a).map fun d => d.scale w := by
  have hAct : b.differentiate (d.scale w).activation (d.scale w).r false =
      (a.differentiate d.activation d.r false).scale w := by
    simp only [Activation.differentiate, scale, ActivationData.scale, h.gradient _ hr, h.hessian,
      Bool.false_eq_true, if_false]
  have hFits : (d.scale w).Fits ((a.differentiate d.activation d.r false).scale w) ↔
      d.Fits (a.differentiate d.activation d.r false) := by
    simp only [Fits, ActivationData.scale, Mat.scale, Mat.rows_ofFn, Mat.cols_ofFn, Vec.size_scale,
      scale]
  unfold assemble?
  rw [hAct]
  by_cases hFit : d.Fits (a.differentiate d.activation d.r false)
  · rw [if_pos hFit, if_pos (hFits.mpr hFit)]
    simp only [scale, ActivationData.scale, Mat.trMulVec_scale, Mat.scale_mul, Mat.trMul_scale,
      Option.map_some]
  · rw [if_neg hFit, if_neg (mt hFits.mp hFit)]
    rfl

end CostData

section Functors

variable {ε σ τ ι β : Type}

theorem Outcome.attempt_map (f : σ → τ) (d : σ) (x : Except ε σ) :
    attempt (f d) (x.map f) = (attempt d x).map f := by
  cases x <;> rfl

theorem Outcome.reading_map (f : σ → τ) (d : σ) {x : Except ε β} {next : β → Outcome ε σ}
    {next' : β → Outcome ε τ} (h : ∀ b, x = .ok b → next' b = (next b).map f) :
    reading (f d) x next' = (reading d x next).map f := by
  cases x with
  | ok b => exact h b rfl
  | error e => rfl

theorem Outcome.map_id (o : Outcome ε σ) : (o.map fun d => d) = o := by
  cases o <;> rfl

theorem Outcome.andThen_map (f : σ → τ) {o : Outcome ε σ} {next : σ → Outcome ε σ}
    {next' : τ → Outcome ε τ} (h : ∀ d, o = .done d → next' (f d) = (next d).map f) :
    (o.map f).andThen next' = (o.andThen next).map f := by
  cases o with
  | done d => exact h d rfl
  | stopped d e => rfl

theorem Outcome.forEach_comm (f : σ → τ) (xs : List ι) {step : ι → σ → Outcome ε σ}
    {step' : ι → τ → Outcome ε τ} (h : ∀ x d, step' x (f d) = (step x d).map f) (d : σ) :
    forEach xs (f d) step' = (forEach xs d step).map f := by
  induction xs generalizing d with
  | nil => rfl
  | cons x xs ih =>
    rw [forEach, forEach, h]
    exact andThen_map f fun d' _ => ih d'

theorem Fault.ofShapes_map {α β γ : Type} (f : β → γ) (x : Option β) :
    (ofShapes (x.map f) : Except (Fault α) γ) = (ofShapes x).map f := by
  cases x <;> rfl

end Functors

theorem CostData.forEach_putColumn {w : ℝ} (put : Nat → Vec ℝ → CostData ℝ → CostData ℝ)
    (hPut : ∀ i v d, put i v (d.scale w) = (put i v d).scale w) (xs : List Nat)
    (col : Nat → Except (Fault ℝ) (Vec ℝ)) (d : CostData ℝ) :
    Outcome.forEach xs (d.scale w) (fun i d => .attempt d ((col i).map fun v => put i v d)) =
      (Outcome.forEach xs d fun i d => .attempt d ((col i).map fun v => put i v d)).map
        fun d => d.scale w := by
  refine Outcome.forEach_comm (fun d => d.scale w) xs (fun i d => ?_) d
  rw [← Outcome.attempt_map, map_map_eq, funext fun v => hPut i v d]

theorem CostData.writeColumns_scale (d : CostData ℝ) (w : ℝ) (k n : Nat) (block : Mat ℝ) :
    (d.scale w).writeColumns k n block = (d.writeColumns k n block).map fun d => d.scale w := by
  refine Outcome.reading_map (fun d => d.scale w) d fun rx _ => ?_
  rfl

theorem Residual.linearize_scale (s : Multibody ℝ) (nu : Nat) (args : Arguments ℝ) (d : CostData ℝ)
    (w : ℝ) (residual : Residual ℝ) : residual.linearize s nu args (d.scale w) =
      (residual.linearize s nu args d).map fun d => d.scale w := by
  have hBlock := fun block => d.clearState.writeColumns_scale w 0 s.nv block
  cases residual with
  | state ref =>
    refine Outcome.reading_map (fun d => d.scale w) d fun j _ => ?_
    rfl
  | control ref => rfl
  | com ref => exact hBlock _
  | placement id ref => exact Outcome.reading_map (fun d => d.scale w) d fun f _ => hBlock _
  | translation id ref => exact Outcome.reading_map (fun d => d.scale w) d fun f _ => hBlock _
  | velocity id ref =>
    refine Outcome.reading_map (fun d => d.scale w) d fun f _ => ?_
    rw [d.writeColumns_scale]
    exact Outcome.andThen_map _ fun d₁ _ => d₁.writeColumns_scale ..

namespace ResidualCost

def withActivation {α : Type} [Scalar α] (c : ResidualCost α) (a : Activation α) (h : a.nr = c.nr) :
    ResidualCost α :=
  { c with
    activation := a
    accepted := by
      have hAccepted := c.accepted
      unfold Residual.fault? at hAccepted ⊢
      rw [h]
      exact hAccepted }

structure Scales (w : ℝ) (c c' : ResidualCost ℝ) : Prop where
  state : c'.state = c.state
  nu : c'.nu = c.nu
  residual : c'.residual = c.residual
  activation : c.activation.Scales w c'.activation

variable {w : ℝ} {c c' : ResidualCost ℝ}

theorem Scales.check (h : c.Scales w c') (args : Arguments ℝ) (d : CostData ℝ) :
    args.check c'.state c'.nr c'.nu (d.scale w) = args.check c.state c.nr c.nu d := by
  rw [Arguments.check_congr (d.sameSizes_scale w), h.state, h.nu, nr, nr, h.activation.nr]

theorem Scales.evaluate (h : c.Scales w c') (args : Arguments ℝ) (d : CostData ℝ) :
    c'.evaluate args (d.scale w) = (c.evaluate args d).map fun d => d.scale w := by
  rw [ResidualCost.evaluate, ResidualCost.evaluate, h.check, h.residual, h.state]
  refine Outcome.reading_map (fun d => d.scale w) d fun passed hCheck => ?_
  refine Outcome.reading_map (fun d => d.scale w) d fun r hValue => ?_
  have hU := (Cost.of_check (c := .residual c) hCheck).1
  have hSize := Residual.size_of_value (fun ref hRef => hU.trans (c.nu_eq ref hRef)) hValue
  exact congrArg Outcome.done (CostData.activate_scale h.activation d (hSize.trans c.nr_eq.symm))

theorem Scales.differentiate (h : c.Scales w c') (args : Arguments ℝ) (recalc : Bool)
    (d : CostData ℝ) : c'.differentiate args recalc (d.scale w) =
      (c.differentiate args recalc d).map fun d => d.scale w := by
  have hStart : c'.start args recalc (d.scale w) = (c.start args recalc d).map fun d => d.scale w := by
    rw [ResidualCost.start, ResidualCost.start, h.evaluate, h.check]
    cases recalc with
    | true => rfl
    | false =>
      refine Outcome.reading_map (fun d => d.scale w) d fun passed _ => ?_
      rfl
  rw [ResidualCost.differentiate, ResidualCost.differentiate, hStart, h.state, h.nu, h.residual]
  refine Outcome.andThen_map _ fun d₁ hFirst => ?_
  have hSized := (Cost.kept_of_start hFirst).2
  rw [Residual.linearize_scale]
  refine Outcome.andThen_map _ fun d₂ hLinear => ?_
  have hValues := Cost.valuePart_linearize hSized args
  rw [hLinear] at hValues
  have hR : d₂.r = d₁.r := congrArg (fun x => x.1.1) hValues
  have hSize : d₂.r.size = c.activation.nr := hR ▸ hSized.residual
  rw [CostData.assemble_scale h.activation hSize, Fault.ofShapes_map]
  exact Outcome.attempt_map _ d₂ _

end ResidualCost

namespace Cost

/-- The cost, or the cost that differences are taken of, with another activation. -/
def withActivation {α : Type} [Scalar α] : (c : Cost α) → (a : Activation α) → a.nr = c.nr → Cost α
  | residual c, a, h => residual (c.withActivation a h)
  | differences c update? step, a, h => differences (c.withActivation a h) update? step

inductive Scales (w : ℝ) : Cost ℝ → Cost ℝ → Prop
  | residual {c c' : ResidualCost ℝ} (h : c.Scales w c') : Scales w (.residual c) (.residual c')
  | differences {c c' : Cost ℝ} (h : Scales w c c') (update? : Option (KinematicsUpdate ℝ))
    (step : ℝ) : Scales w (.differences c update? step) (.differences c' update? step)

theorem withActivation_self {α : Type} [Scalar α] (c : Cost α) :
    c.withActivation c.activation rfl = c := by
  induction c with
  | residual c => rfl
  | differences c update? step ih => exact congrArg (Cost.differences · update? step) ih

theorem scales_withActivation {w : ℝ} (c : Cost ℝ) {a b : Activation ℝ} (ha : a.nr = c.nr)
    (hb : b.nr = c.nr) (h : a.Scales w b) :
    Scales w (c.withActivation a ha) (c.withActivation b hb) := by
  induction c with
  | residual c => exact .residual ⟨rfl, rfl, rfl, h⟩
  | differences c update? step ih => exact .differences (ih ha hb) update? step

namespace Scales

variable {w : ℝ} {c c' : Cost ℝ}

theorem base (h : Scales w c c') : c.base.Scales w c'.base := by
  induction h with
  | residual h => exact h
  | differences h update? step ih => exact ih

theorem nr (h : Scales w c c') : c'.nr = c.nr := h.base.activation.nr

theorem createData (h : Scales w c c') : c'.createData = c.createData.scale w := by
  rw [Cost.createData, state, nu, h.base.state, h.base.nu]
  exact CostData.zeros_scale h.base.activation ..

theorem check (h : Scales w c c') (args : Arguments ℝ) (d : CostData ℝ) :
    args.check c'.state c'.nr c'.nu (d.scale w) = args.check c.state c.nr c.nu d :=
  h.base.check args d

theorem evaluate (h : Scales w c c') (args : Arguments ℝ) (d : CostData ℝ) :
    c'.evaluate args (d.scale w) = (c.evaluate args d).map fun d => d.scale w := by
  rw [evaluate_eq_base, evaluate_eq_base, h.base.evaluate]

theorem assemble (h : Scales w c c') {d : CostData ℝ} (hr : d.r.size = c.nr) :
    (d.scale w).assemble? c'.activation = (d.assemble? c.activation).map fun d => d.scale w :=
  CostData.assemble_scale h.base.activation hr

theorem residualAt (h : Scales w c c') (args : Arguments ℝ) :
    c'.residualAt args = c.residualAt args := by
  rw [Cost.residualAt, Cost.residualAt, h.createData, h.evaluate]
  cases c.evaluate args c.createData <;> rfl

theorem stateQuotient (h : Scales w c c') (update? : Option (KinematicsUpdate ℝ)) (step : ℝ)
    (args : Arguments ℝ) (r0 : Vec ℝ) (i : Nat) :
    c'.stateQuotient update? step args r0 i = c.stateQuotient update? step args r0 i := by
  have hState : c'.state = c.state := h.base.state
  simp only [Cost.stateQuotient, hState, h.residualAt]

theorem controlQuotient (h : Scales w c c') (step : ℝ) (args : Arguments ℝ) (r0 : Vec ℝ) (j : Nat) :
    c'.controlQuotient step args r0 j = c.controlQuotient step args r0 j := by
  simp only [Cost.controlQuotient, h.residualAt]

theorem fillQuotients (h : Scales w c c') (update? : Option (KinematicsUpdate ℝ)) (step : ℝ)
    (args : Arguments ℝ) (d : CostData ℝ) :
    c'.fillQuotients update? step args (d.scale w) =
      (c.fillQuotients update? step args d).map fun d => d.scale w := by
  have hState : c'.state = c.state := h.base.state
  have hResidual : (d.scale w).r = d.r := rfl
  unfold Cost.fillQuotients
  simp only [h.stateQuotient, h.controlQuotient, hState, hResidual]
  rw [CostData.forEach_putColumn (fun i v d => { d with rx := d.rx.putColumn i v }) fun _ _ _ => rfl]
  refine Outcome.andThen_map _ fun d₁ _ => ?_
  exact CostData.forEach_putColumn (fun j v d => { d with ru := d.ru.putColumn j v })
    (fun _ _ _ => rfl) ..

theorem differentiate (h : Scales w c c') (args : Arguments ℝ) (recalc : Bool) (d : CostData ℝ) :
    c'.differentiate args recalc (d.scale w) =
      (c.differentiate args recalc d).map fun d => d.scale w := by
  cases h with
  | residual h => exact h.differentiate args recalc d
  | @differences c c' h update? step =>
    have hWhole : Scales w (.differences c update? step) (.differences c' update? step) :=
      .differences h update? step
    rw [differentiate_differences, differentiate_differences, hWhole.check]
    cases hCheck : args.check (Cost.differences c update? step).state (Cost.differences c update? step).nr
        (Cost.differences c update? step).nu d with
    | error fault => rfl
    | ok passed =>
      have hStart : (if recalc then (Cost.differences c' update? step).evaluate args (d.scale w)
          else Outcome.done (d.scale w)) =
          (if recalc then (Cost.differences c update? step).evaluate args d else Outcome.done d).map
            fun d => d.scale w := by
        rw [hWhole.evaluate]
        cases recalc <;> rfl
      simp only [hStart]
      have hKept := (Cost.differences c update? step).kept_start args recalc d
      refine Outcome.andThen_map _ fun d₁ h₁ => ?_
      rw [h.fillQuotients]
      rw [h₁] at hKept
      refine Outcome.andThen_map _ fun d₂ h₂ => ?_
      have hFill := kept_fillQuotients c update? step args d₁
      rw [h₂] at hFill
      have hSize : d₂.r.size = c.activation.nr :=
        ((of_check hCheck).2.of_kept (hFill.trans hKept)).residual
      rw [hWhole.assemble hSize, Fault.ofShapes_map]
      exact Outcome.attempt_map _ d₂ _

theorem call (h : Scales w c c') (d : CostData ℝ) (call : Call ℝ) :
    c'.call (d.scale w) call = (c.call d call).map fun d => d.scale w := by
  have hNu : c'.nu = c.nu := h.base.nu
  cases call with
  | evaluate args => exact h.evaluate args d
  | differentiate args recalc => exact h.differentiate args recalc d
  | evaluateTerminal snapshot x =>
    rw [Cost.call, Cost.call, hNu]
    exact h.evaluate _ d
  | differentiateTerminal snapshot x recalc =>
    rw [Cost.call, Cost.call, hNu]
    exact h.differentiate _ recalc d

/-- With one for a factor the two costs do the same on the same data. -/
theorem call_eq (h : Scales 1 c c') (d : CostData ℝ) (call : Call ℝ) : c'.call d call = c.call d call := by
  have hCall := h.call d call
  simp only [CostData.scale_one] at hCall
  rw [hCall, Outcome.map_id]

end Scales

end Cost

end MultibodyCost
