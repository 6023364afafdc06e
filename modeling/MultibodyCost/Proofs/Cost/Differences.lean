import MultibodyCost.Proofs.Cost.Columns
import MultibodyCost.Proofs.Cost.Refusal
import MultibodyCost.Proofs.Linear.Affine

/-! # Differences of a residual that moves along columns

Where perturbing a coordinate moves the residual by a multiple of a column, the quotient for that
coordinate is the column itself, and the Jacobians by differences are the matrices of these columns.
If they are also the analytic Jacobians, everything that is assembled from them agrees.
-/

namespace MultibodyCost

variable {c : ResidualCost ℝ} {update? : Option (KinematicsUpdate ℝ)} {h : ℝ} {args : Arguments ℝ}

theorem ResidualCost.check_createData (h : c.Accepts args c.nr c.state.ndx c.nu) :
    args.check c.state c.nr c.nu c.createData = .ok () :=
  (Arguments.check_eq_ok_iff (Cost.residual c).shaped_createData).mpr h

theorem ResidualCost.evaluate_createData {r : Vec ℝ} (h : c.Accepts args c.nr c.state.ndx c.nu)
    (hValue : c.residual.value c.state args = .ok r) :
    c.evaluate args c.createData = .done (c.createData.activate c.activation r) := by
  rw [evaluate, check_createData h, hValue]
  rfl

namespace Cost

theorem residualAt_of_value {r : Vec ℝ} (h : c.Accepts args c.nr c.state.ndx c.nu)
    (hValue : c.residual.value c.state args = .ok r) : (residual c).residualAt args = .ok r := by
  have hDone : (residual c).evaluate args (residual c).createData =
      .done (c.createData.activate c.activation r) := ResidualCost.evaluate_createData h hValue
  rw [residualAt, hDone]
  rfl

end Cost

/-- Perturbing a coordinate of the tangent or of the control by `h` moves the residual `r` by `h`
times its column of `rx` or of `ru`. -/
structure ResidualCost.Moves (c : ResidualCost ℝ) (update? : Option (KinematicsUpdate ℝ)) (h : ℝ)
    (args : Arguments ℝ) (r : Vec ℝ) (rx ru : Mat ℝ) : Prop where
  state : ∀ i, i < c.state.ndx → ∃ y args',
    c.state.integrate args.x ((Vec.zeros c.state.ndx).put i h) = .ok y ∧
    Cost.perturbed c.state update? args y = .ok args' ∧
    c.Accepts args' c.nr c.state.ndx c.nu ∧
    c.residual.value c.state args' = .ok (r.along h rx i)
  control : ∀ j, j < c.nu →
    c.residual.value c.state { args with u := args.u.put j (args.u.entry j + h) } =
      .ok (r.along h ru j)

namespace ResidualCost.Moves

variable {r : Vec ℝ} {rx ru : Mat ℝ}

theorem stateQuotient (hMoves : c.Moves update? h args r rx ru) {i : Nat} (hi : i < c.state.ndx) :
    (Cost.residual c).stateQuotient update? h args r i =
      .ok (Cost.quotient h (r.along h rx i) r) := by
  obtain ⟨y, args', hStep, hPerturbed, hAccepted, hValue⟩ := hMoves.state i hi
  have hResidual := Cost.residualAt_of_value hAccepted hValue
  change ((Fault.ofModel (c.state.integrate args.x ((Vec.zeros c.state.ndx).put i h))).bind fun x =>
    (Cost.perturbed c.state update? args x).bind fun args =>
      ((Cost.residual c).residualAt args).bind fun r' => .ok (Cost.quotient h r' r)) = _
  rw [hStep, Fault.ofModel, Except.bind, hPerturbed, Except.bind, hResidual]
  rfl

theorem controlQuotient (hMoves : c.Moves update? h args r rx ru)
    (hAccepted : c.Accepts args c.nr c.state.ndx c.nu) {j : Nat} (hj : j < c.nu) :
    (Cost.residual c).controlQuotient h args r j = .ok (Cost.quotient h (r.along h ru j) r) := by
  have hAccepted' : c.Accepts { args with u := args.u.put j (args.u.entry j + h) } c.nr c.state.ndx
      c.nu :=
    { hAccepted with control := (Vec.size_put ..).trans hAccepted.control }
  rw [Cost.controlQuotient, Cost.residualAt_of_value hAccepted' (hMoves.control j hj)]
  rfl

theorem fillQuotients (hMoves : c.Moves update? h args r rx ru) (hStep : h ≠ 0)
    (hAccepted : c.Accepts args c.nr c.state.ndx c.nu) {d : CostData ℝ} (hr : d.r = r)
    (hRx : d.rx.rows = rx.rows ∧ d.rx.cols = rx.cols)
    (hRu : d.ru.rows = ru.rows ∧ d.ru.cols = ru.cols)
    (hRows : rx.rows = r.size ∧ ru.rows = r.size) (hCols : rx.cols = c.state.ndx ∧ ru.cols = c.nu) :
    (Cost.residual c).fillQuotients update? h args d = .done { d with rx := rx, ru := ru } := by
  have hFills := (Cost.residual c).fills_fillQuotients update? h args d
  generalize (Cost.residual c).fillQuotients update? h args d = outcome at hFills ⊢
  have hControls : args.u.size = c.nu := hAccepted.control
  subst hr
  cases hFills with
  | @state a k fault hk _ hStop => cases (hMoves.stateQuotient hk).symm.trans hStop
  | @control a b k fault hk _ _ hStop =>
    cases (hMoves.controlQuotient hAccepted (hControls ▸ hk)).symm.trans hStop
  | @done a b hState hControl =>
    have hA : d.rx.withColumns rx.cols a = rx := by
      refine Mat.withColumns_eq hRx.1 hRx.2 fun i j hi hj => ?_
      rw [hCols.1] at hj
      rw [Except.ok.inj ((hState j hj).symm.trans (hMoves.stateQuotient hj))]
      exact Vec.entry_difference_along hStep (hRows.1 ▸ hi)
    have hB : d.ru.withColumns ru.cols b = ru := by
      refine Mat.withColumns_eq hRu.1 hRu.2 fun i j hi hj => ?_
      rw [hCols.2] at hj
      rw [Except.ok.inj ((hControl j (hControls.symm ▸ hj)).symm.trans
        (hMoves.controlQuotient hAccepted hj))]
      exact Vec.entry_difference_along hStep (hRows.2 ▸ hi)
    have hNdx : (Cost.residual c).state.ndx = rx.cols := hCols.1.symm
    rw [CostData.controlColumns, CostData.stateColumns, hNdx, hControls, ← hCols.2, hA, hB]

/-- With its columns in the analytic Jacobians, differentiating by differences leaves what
differentiating leaves. -/
theorem differentiate (hMoves : c.Moves update? h args r rx ru) (hStep : h ≠ 0)
    (hAccepted : c.Accepts args c.nr c.state.ndx c.nu)
    (hValue : c.residual.value c.state args = .ok r)
    (hLinear : c.residual.linearize c.state c.nu args (c.createData.activate c.activation r) =
      .done { c.createData.activate c.activation r with rx := rx, ru := ru }) :
    ∃ d, (Cost.residual c).differentiate args true (Cost.residual c).createData = .done d ∧
      (Cost.differences (.residual c) update? h).differentiate args true
        (Cost.differences (.residual c) update? h).createData = .done d := by
  have hCheck := check_createData hAccepted
  have hEvaluate := evaluate_createData hAccepted hValue
  have hKept := Cost.kept_of_evaluate (c := .residual c) hEvaluate
  have hSized : (Cost.residual c).Sized (c.createData.activate c.activation r) :=
    Cost.sized_of_kept hKept
  have hKept' := Cost.kept_of_linearize hSized hLinear
  have hSized' : (Cost.residual c).Sized
      { c.createData.activate c.activation r with rx := rx, ru := ru } :=
    Cost.sized_of_kept (hKept'.trans hKept)
  have hFilled := hMoves.fillQuotients hStep hAccepted
    (d := c.createData.activate c.activation r) rfl
    ⟨hSized.rx_shape.1.trans hSized'.rx_shape.1.symm, hSized.rx_shape.2.trans hSized'.rx_shape.2.symm⟩
    ⟨hSized.ru_shape.1.trans hSized'.ru_shape.1.symm, hSized.ru_shape.2.trans hSized'.ru_shape.2.symm⟩
    ⟨hSized'.rx_shape.1.trans hSized.residual.symm, hSized'.ru_shape.1.trans hSized.residual.symm⟩
    ⟨hSized'.rx_shape.2, hSized'.ru_shape.2⟩
  obtain ⟨d, hAssemble⟩ := Option.ne_none_iff_exists'.mp (Cost.assemble?_ne_none hSized'.residual
    (Cost.hessian_shape (hKept'.trans hKept)) hSized'.rx_shape.1 hSized'.ru_shape.1)
  refine ⟨d, ?_, ?_⟩
  · change (c.evaluate args c.createData).andThen _ = _
    rw [hEvaluate, Outcome.andThen_done, hLinear, Outcome.andThen_done]
    exact Outcome.attempt_eq_done.mpr (congrArg Fault.ofShapes hAssemble)
  · have hDone : (Cost.differences (.residual c) update? h).evaluate args c.createData =
        .done (c.createData.activate c.activation r) := hEvaluate
    have hChecked : args.check (Cost.differences (.residual c) update? h).state
        (Cost.differences (.residual c) update? h).nr (Cost.differences (.residual c) update? h).nu
        (Cost.differences (.residual c) update? h).createData = .ok () := hCheck
    rw [Cost.differentiate_differences, hChecked]
    change ((Cost.differences (.residual c) update? h).evaluate args c.createData).andThen _ = _
    rw [hDone, Outcome.andThen_done, hFilled, Outcome.andThen_done]
    exact Outcome.attempt_eq_done.mpr (congrArg Fault.ofShapes hAssemble)

end ResidualCost.Moves

end MultibodyCost
