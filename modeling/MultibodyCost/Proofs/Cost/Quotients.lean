import MultibodyCost.Proofs.Cost.Columns
import MultibodyCost.Proofs.Cost.Refusal

/-! # What differences ask, and what they make of the answers

A cost by differences moves one coordinate after another, those of the tangent before those of the
control, and asks the cost that it is made of for the residual there. Each question is put at the
arguments of the call with this one coordinate moved, and its answer depends on nothing that was
asked before. The answers are the columns of the Jacobians; the first that is a fault is how the
call ends.
-/

namespace MultibodyCost

variable {α : Type}

inductive Coordinate where
  | state (i : Nat)
  | control (j : Nat)

theorem Multibody.exists_integrate [Elementary α] {s : Multibody α} {x dx : Vec α}
    (hx : x.size = s.nx) (hdx : dx.size = s.ndx) :
    ∃ y, s.integrate x dx = .ok y ∧ y.size = s.nx := by
  refine ⟨_, by rw [integrate, checkStep_eq_ok hx hdx]; rfl, ?_⟩
  rw [Vec.size_place, placeIncrements, size_foldl_place, Vec.size_zeros]

namespace Cost

section Scalar

variable [Scalar α]

def coordinates (c : Cost α) : List Coordinate :=
  (List.range c.state.ndx).map .state ++ (List.range c.nu).map .control

theorem state_mem_coordinates {c : Cost α} {i : Nat} :
    .state i ∈ c.coordinates ↔ i < c.state.ndx := by
  simp [coordinates]

theorem control_mem_coordinates {c : Cost α} {j : Nat} :
    .control j ∈ c.coordinates ↔ j < c.nu := by
  simp [coordinates]

end Scalar

variable [Elementary α]

/-- What evaluating `c` leaves as the residual, or where it stops, on any data of `c`. -/
def Answers (c : Cost α) (args : Arguments α) (answer : Except (Fault α) (Vec α)) : Prop :=
  ∀ scratch, c.kept scratch = c.kept c.createData →
    (c.evaluate args scratch).result.map CostData.r = answer

/-- What `c` answers with one coordinate moved by `h`. With an update, the snapshot at a moved state
is the one of the call, updated; if the update fails, this is the answer. -/
inductive AnswersAt (c : Cost α) (h : α) (args : Arguments α) :
    Option (KinematicsUpdate α) → Coordinate → Except (Fault α) (Vec α) → Prop
  | held {i : Nat} {x : Vec α} {answer : Except (Fault α) (Vec α)}
      (hMoved : c.state.integrate args.x ((Vec.zeros c.state.ndx).put i h) = .ok x)
      (hAnswer : c.Answers { args with x := x } answer) :
      AnswersAt c h args none (.state i) answer
  | updated {update : KinematicsUpdate α} {i : Nat} {x q v : Vec α} {snapshot : Snapshot α}
      {answer : Except (Fault α) (Vec α)}
      (hMoved : c.state.integrate args.x ((Vec.zeros c.state.ndx).put i h) = .ok x)
      (hSplit : c.state.split x = .ok (q, v))
      (hUpdate : update c.state.model args.snapshot q v = .ok snapshot)
      (hAnswer : c.Answers { args with snapshot := snapshot, x := x } answer) :
      AnswersAt c h args (some update) (.state i) answer
  | notUpdated {update : KinematicsUpdate α} {i : Nat} {x q v : Vec α} {e : ModelError α}
      (hMoved : c.state.integrate args.x ((Vec.zeros c.state.ndx).put i h) = .ok x)
      (hSplit : c.state.split x = .ok (q, v))
      (hUpdate : update c.state.model args.snapshot q v = .error e) :
      AnswersAt c h args (some update) (.state i) (.error (.refused (.model e)))
  | control {update? : Option (KinematicsUpdate α)} {j : Nat} {answer : Except (Fault α) (Vec α)}
      (hAnswer : c.Answers { args with u := args.u.put j (args.u.entry j + h) } answer) :
      AnswersAt c h args update? (.control j) answer

variable {c : Cost α} {update? : Option (KinematicsUpdate α)} {h : α} {args : Arguments α}
  {answer : Except (Fault α) (Vec α)}

theorem residualAt_eq (c : Cost α) (args : Arguments α) :
    c.residualAt args = (c.evaluate args c.createData).result.map CostData.r := by
  unfold residualAt
  cases c.evaluate args c.createData <;> rfl

/-- Which data of the cost it is evaluated on makes no difference. -/
theorem answers_iff : c.Answers args answer ↔ c.residualAt args = answer := by
  rw [residualAt_eq]
  constructor
  · exact fun h => h c.createData rfl
  · rintro rfl scratch hKept
    exact (evaluate_alike hKept args).map_eq fun _ _ hAlike => hAlike.residual

theorem exists_answersAt (update? : Option (KinematicsUpdate α)) (h : α)
    (hx : args.x.size = c.state.nx) (p : Coordinate) :
    ∃ answer, c.AnswersAt h args update? p answer := by
  cases p with
  | control j => exact ⟨_, .control (answers_iff.mpr rfl)⟩
  | state i =>
    have hStep : ((Vec.zeros c.state.ndx).put i h).size = c.state.ndx :=
      (Vec.size_put ..).trans (Vec.size_zeros _)
    obtain ⟨x, hMoved, hSize⟩ := Multibody.exists_integrate hx hStep
    have hSplit := Multibody.split_eq_ok hSize
    cases update? with
    | none => exact ⟨_, .held hMoved (answers_iff.mpr rfl)⟩
    | some update =>
      cases hUpdate : update c.state.model args.snapshot (c.state.configuration x)
          (c.state.velocity x) with
      | error e => exact ⟨_, .notUpdated hMoved hSplit hUpdate⟩
      | ok snapshot => exact ⟨_, .updated hMoved hSplit hUpdate (answers_iff.mpr rfl)⟩

def answerAt (c : Cost α) (update? : Option (KinematicsUpdate α)) (h : α) (args : Arguments α) :
    Coordinate → Except (Fault α) (Vec α)
  | .state i =>
    ((Fault.ofModel (c.state.integrate args.x ((Vec.zeros c.state.ndx).put i h))).bind
      (perturbed c.state update? args)).bind c.residualAt
  | .control j => c.residualAt { args with u := args.u.put j (args.u.entry j + h) }

theorem perturbed_update {s : Multibody α} {update : KinematicsUpdate α} {x q v : Vec α}
    (hSplit : s.split x = .ok (q, v)) :
    perturbed s (some update) args x = (Fault.ofModel (update s.model args.snapshot q v)).bind
      fun snapshot => .ok { args with snapshot := snapshot, x := x } := by
  change (Fault.ofModel (s.split x)).bind _ = _
  rw [hSplit]
  rfl

theorem AnswersAt.eq {p : Coordinate} (hAnswer : c.AnswersAt h args update? p answer) :
    c.answerAt update? h args p = answer := by
  cases hAnswer with
  | control hAnswer => exact answers_iff.mp hAnswer
  | held hMoved hAnswer =>
    rw [answerAt, hMoved]
    exact answers_iff.mp hAnswer
  | updated hMoved hSplit hUpdate hAnswer =>
    rw [answerAt, hMoved, Fault.ofModel, Except.bind, perturbed_update hSplit, hUpdate]
    exact answers_iff.mp hAnswer
  | notUpdated hMoved hSplit hUpdate =>
    rw [answerAt, hMoved, Fault.ofModel, Except.bind, perturbed_update hSplit, hUpdate]
    rfl

theorem answersAt_iff (hx : args.x.size = c.state.nx) {p : Coordinate} :
    c.AnswersAt h args update? p answer ↔ c.answerAt update? h args p = answer := by
  constructor
  · exact AnswersAt.eq
  · rintro rfl
    obtain ⟨answer, hAnswer⟩ := exists_answersAt update? h hx p
    rwa [hAnswer.eq]

theorem AnswersAt.size {p : Coordinate} {r : Vec α}
    (hAnswer : c.AnswersAt h args update? p (.ok r)) : r.size = c.nr := by
  have ofAnswer : ∀ {args' : Arguments α}, c.Answers args' (.ok r) → r.size = c.nr := by
    intro args' hAnswer
    obtain ⟨d, hDone, rfl⟩ := map_eq_ok.mp (hAnswer c.createData rfl)
    exact (sized_of_kept (kept_of_evaluate (Outcome.result_eq_ok_iff.mp hDone))).residual
  cases hAnswer with
  | control hAnswer => exact ofAnswer hAnswer
  | held _ hAnswer => exact ofAnswer hAnswer
  | updated _ _ _ hAnswer => exact ofAnswer hAnswer

theorem stateQuotient_eq (r0 : Vec α) (i : Nat) :
    c.stateQuotient update? h args r0 i =
      (c.answerAt update? h args (.state i)).map fun r => quotient h r r0 := by
  change (Fault.ofModel _).bind (fun x => (perturbed _ _ _ x).bind fun args =>
    (c.residualAt args).bind fun r => .ok (quotient h r r0)) = _
  rw [answerAt]
  cases Fault.ofModel (c.state.integrate args.x ((Vec.zeros c.state.ndx).put i h)) with
  | error fault => rfl
  | ok x =>
    rw [Except.bind, Except.bind]
    cases perturbed c.state update? args x with
    | error fault => rfl
    | ok args' =>
      rw [Except.bind, Except.bind]
      cases c.residualAt args' <;> rfl

theorem controlQuotient_eq (update? : Option (KinematicsUpdate α)) (r0 : Vec α) (j : Nat) :
    c.controlQuotient h args r0 j =
      (c.answerAt update? h args (.control j)).map fun r => quotient h r r0 := by
  rw [answerAt]
  change (c.residualAt _).bind _ = _
  cases c.residualAt { args with u := args.u.put j (args.u.entry j + h) } <;> rfl

end Cost

def CostData.putColumn [Scalar α] (d : CostData α) (v : Vec α) : Coordinate → CostData α
  | .state i => { d with rx := d.rx.putColumn i v }
  | .control j => { d with ru := d.ru.putColumn j v }

namespace Cost

variable [Elementary α] {c : Cost α} {update? : Option (KinematicsUpdate α)} {h : α}
  {args : Arguments α} {d : CostData α}

theorem fillQuotients_eq (hu : args.u.size = c.nu) :
    c.fillQuotients update? h args d = Outcome.forEach c.coordinates d fun p d' =>
      .attempt d' (((c.answerAt update? h args p).map fun r => quotient h r d.r).map fun col =>
        d'.putColumn col p) := by
  rw [fillQuotients, coordinates, Outcome.forEach_append, hu]
  simp only [Outcome.forEach_map, stateQuotient_eq, controlQuotient_eq (c := c) update?]
  rfl

theorem fillQuotients_stops (hu : args.u.size = c.nu)
    {before after : List Coordinate} {p : Coordinate} {fault : Fault α}
    (hSplit : c.coordinates = before ++ p :: after)
    (hBefore : ∀ q ∈ before, ∃ r, c.AnswersAt h args update? q (.ok r))
    (hStop : c.AnswersAt h args update? p (.error fault)) :
    ∃ left, c.fillQuotients update? h args d = .stopped left fault := by
  rw [fillQuotients_eq hu, hSplit]
  refine Outcome.forEach_stops after ?_ ?_ d
  · intro q hq d'
    obtain ⟨r, hAnswer⟩ := hBefore q hq
    rw [hAnswer.eq]
    exact ⟨_, rfl⟩
  · intro d'
    rw [hStop.eq]
    exact ⟨_, rfl⟩

theorem entry_quotient {r : Vec α} {k : Nat} (hk : k < r.size) (r0 : Vec α) :
    (quotient h r r0).entry k = (r.entry k - r0.entry k) / h := by
  rw [quotient, Vec.unscale, Vec.entry_ofFn_of_lt ((Vec.size_sub r r0).symm ▸ hk), Vec.sub,
    Vec.entry_ofFn_of_lt hk]

def quotients (h : α) (r0 : Vec α) (rows cols : Nat) (moved : Nat → Vec α) : Mat α :=
  .ofFn rows cols fun k i => ((moved i).entry k - r0.entry k) / h

theorem withColumns_quotient {m : Mat α} {rows cols : Nat} {moved : Nat → Vec α}
    (hRows : m.rows = rows) (hCols : m.cols = cols)
    (hSizes : ∀ i, i < cols → (moved i).size = rows) (r0 : Vec α) :
    m.withColumns cols (fun i => quotient h (moved i) r0) = quotients h r0 rows cols moved := by
  refine Mat.withColumns_eq (n := quotients h r0 rows cols moved) hRows hCols ?_
  intro k i hk hi
  replace hk : k < rows := hk
  replace hi : i < cols := hi
  rw [quotients, Mat.entry_ofFn_of_lt hk hi]
  exact entry_quotient ((hSizes i hi).symm ▸ hk) r0

theorem fillQuotients_done (hu : args.u.size = c.nu) (hSized : (differences c update? h).Sized d)
    {moved : Coordinate → Vec α}
    (hAll : ∀ p ∈ c.coordinates, c.AnswersAt h args update? p (.ok (moved p))) :
    c.fillQuotients update? h args d = .done { d with
      rx := quotients h d.r c.nr c.state.ndx fun i => moved (.state i)
      ru := quotients h d.r c.nr c.nu fun j => moved (.control j) } := by
  have hState : ∀ i, i < c.state.ndx →
      c.AnswersAt h args update? (.state i) (.ok (moved (.state i))) :=
    fun i hi => hAll _ (state_mem_coordinates.mpr hi)
  have hControl : ∀ j, j < c.nu →
      c.AnswersAt h args update? (.control j) (.ok (moved (.control j))) :=
    fun j hj => hAll _ (control_mem_coordinates.mpr hj)
  let a : Nat → Vec α := fun i => quotient h (moved (.state i)) d.r
  let b : Nat → Vec α := fun j => quotient h (moved (.control j)) d.r
  have hStateQuotient : ∀ i, i < c.state.ndx → c.stateQuotient update? h args d.r i = .ok (a i) := by
    intro i hi
    rw [stateQuotient_eq, (hState i hi).eq]
    rfl
  have hControlQuotient : ∀ j, j < c.nu → c.controlQuotient h args d.r j = .ok (b j) := by
    intro j hj
    rw [controlQuotient_eq update?, (hControl j hj).eq]
    rfl
  have hRx : d.rx.withColumns c.state.ndx a =
      quotients h d.r c.nr c.state.ndx fun i => moved (.state i) :=
    withColumns_quotient hSized.rx_shape.1 hSized.rx_shape.2 (fun i hi => (hState i hi).size) d.r
  have hRu : d.ru.withColumns c.nu b = quotients h d.r c.nr c.nu fun j => moved (.control j) :=
    withColumns_quotient hSized.ru_shape.1 hSized.ru_shape.2 (fun j hj => (hControl j hj).size) d.r
  rw [fillQuotients, hu, Outcome.forEach_fill (d.stateColumns · a) (d.stateColumns_zero a)
    (d.put_stateColumns a) hStateQuotient, Outcome.andThen_done]
  let first := d.stateColumns c.state.ndx a
  change Outcome.forEach (List.range c.nu) first _ = _
  rw [Outcome.forEach_fill (first.controlColumns · b) (first.controlColumns_zero b)
    (first.put_controlColumns b) hControlQuotient, ← hRx, ← hRu]
  rfl

/-- What differences leave behind: the residual and the cost of the evaluation before, the quotients
as Jacobians, and what the assembly makes of them. -/
structure Quotients (c : Cost α) (h : α) (moved : Coordinate → Vec α) (d d' : CostData α) :
    Prop where
  size : d.r.size = c.nr ∧ ∀ p ∈ c.coordinates, (moved p).size = c.nr
  cost : d'.cost = d.cost
  residual : d'.r = d.r
  rx : d'.rx = .ofFn c.nr c.state.ndx fun k i => ((moved (.state i)).entry k - d.r.entry k) / h
  ru : d'.ru = .ofFn c.nr c.nu fun k j => ((moved (.control j)).entry k - d.r.entry k) / h
  activation : d'.activation = c.activation.differentiate c.activation.createData d.r true
  lx : d'.lx = d'.rx.trMulVec d'.activation.gradient
  lu : d'.lu = d'.ru.trMulVec d'.activation.gradient
  lxx : d'.lxx = d'.rx.trMul (d'.activation.hessian.mul d'.rx)
  lxu : d'.lxu = d'.rx.trMul (d'.activation.hessian.mul d'.ru)
  luu : d'.luu = d'.ru.trMul (d'.activation.hessian.mul d'.ru)

theorem differentiate_of_evaluate {d₀ : CostData α}
    (h₀ : (differences c update? h).evaluate args d = .done d₀) :
    (differences c update? h).differentiate args true d =
      (c.fillQuotients update? h args d₀).andThen fun d =>
        .attempt d (Fault.ofShapes (d.assemble? c.activation)) := by
  rw [differentiate_differences, (of_evaluate h₀).1, if_pos rfl, h₀]
  rfl

theorem quotients_of_answers {d₀ : CostData α}
    (hKept : (differences c update? h).kept d =
      (differences c update? h).kept (differences c update? h).createData)
    (h₀ : (differences c update? h).evaluate args d = .done d₀) {moved : Coordinate → Vec α}
    (hAll : ∀ p ∈ c.coordinates, c.AnswersAt h args update? p (.ok (moved p))) :
    ∃ d', (differences c update? h).differentiate args true d = .done d' ∧
      c.Quotients h moved d₀ d' := by
  obtain ⟨hCheck, r, -, -, hActivated⟩ := of_evaluate h₀
  have hu : args.u.size = c.nu := (of_check hCheck).1
  have hKept₀ := (kept_of_evaluate h₀).trans hKept
  have hSized₀ := sized_of_kept hKept₀
  have hHessian₀ : d₀.activation.hessian.rows = c.nr ∧ d₀.activation.hessian.cols = c.nr :=
    hessian_shape (c := differences c update? h) hKept₀
  have hFill := fillQuotients_done hu hSized₀ hAll
  -- The columns fill the shapes of the Jacobians, so the factors of the assembly fit.
  have hFits := assemble?_ne_none (a := c.activation) (d := { d₀ with
      rx := quotients h d₀.r c.nr c.state.ndx fun i => moved (.state i)
      ru := quotients h d₀.r c.nr c.nu fun j => moved (.control j) })
    hSized₀.residual hHessian₀ rfl rfl
  obtain ⟨d', hAssemble⟩ := Option.ne_none_iff_exists'.mp hFits
  refine ⟨d', ?_, ?_⟩
  · rw [differentiate_of_evaluate h₀, hFill, Outcome.andThen_done, hAssemble]
    rfl
  · obtain ⟨-, rfl⟩ := of_assemble hAssemble
    refine ⟨⟨hSized₀.residual, fun p hp => (hAll p hp).size⟩, rfl, rfl, rfl, rfl, ?_, rfl, rfl, rfl,
      rfl, rfl⟩
    have hHessian : c.activation.hessian d₀.activation.hessian d₀.r =
        c.activation.hessian c.activation.createData.hessian d₀.r :=
      hessian_congr (congrArg Kept.hessian hKept₀) d₀.r
    have hValue : d₀.activation.value = c.activation.value d₀.r := by
      rw [hActivated]
      rfl
    rw [CostData.assembled, Activation.differentiate, Activation.differentiate]
    simp only [Bool.false_eq_true, if_false, if_true, hHessian, hValue]

/-- On data of differences whose residual is evaluated, every coordinate has exactly one answer. If
all answers are residuals, differentiating is done, with the quotients as columns and everything
assembled from them. Else it stops at the first answer that is a fault. The step and the update of a
cost by differences that is itself made into differences do not matter. -/
theorem differences_by_column (c : Cost α) (update? : Option (KinematicsUpdate α)) (h : α)
    (args : Arguments α) (calls : List (Call α)) {d₀ : CostData α}
    (h₀ : (differences c update? h).evaluate args ((differences c update? h).after calls
      (differences c update? h).createData) = .done d₀) :
    let w := differences c update? h
    let d := w.after calls w.createData
    (∀ p ∈ c.coordinates, ∃! answer, c.AnswersAt h args update? p answer) ∧
    (∀ moved : Coordinate → Vec α,
      (∀ p ∈ c.coordinates, c.AnswersAt h args update? p (.ok (moved p))) →
      ∃ d', w.differentiate args true d = .done d' ∧ c.Quotients h moved d₀ d') ∧
    (∀ (before after : List Coordinate) (p : Coordinate) (fault : Fault α),
      c.coordinates = before ++ p :: after →
      (∀ q ∈ before, ∃ r, c.AnswersAt h args update? q (.ok r)) →
      c.AnswersAt h args update? p (.error fault) →
      ∃ left, w.differentiate args true d = .stopped left fault) ∧
    ∀ (update?' : Option (KinematicsUpdate α)) (h' : α) (recalc : Bool) (d : CostData α),
      (differences (differences c update?' h') update? h).differentiate args recalc d =
        w.differentiate args recalc d := by
  intro w d
  have hCheck := (of_evaluate h₀).1
  have hu : args.u.size = c.nu := (of_check hCheck).1
  refine ⟨?_, ?_, ?_, ?_⟩
  · intro p _
    simp only [answersAt_iff (c := c) (Arguments.nx_of_check hCheck)]
    exact ⟨_, rfl, fun _ hAnswer => hAnswer.symm⟩
  · intro moved hAll
    exact quotients_of_answers (w.kept_after calls w.createData) h₀ hAll
  · intro before after p fault hSplit hBefore hStop
    obtain ⟨left, hFill⟩ := fillQuotients_stops (d := d₀) hu hSplit hBefore hStop
    rw [differentiate_of_evaluate h₀, hFill]
    exact ⟨left, rfl⟩
  · exact fun _ _ _ _ => rfl

open ResidualCost

def toolArgs : Arguments Float := ⟨.zeros toolReach.state.model, #[0, 0], #[1]⟩

def restingUpdate : KinematicsUpdate Float := fun _ snapshot _ v =>
  if v.entry 0 = 0 then .ok snapshot else .error (.unknownJoint "hinge")

theorem differences_by_column_tool :
    let d := (residual toolReach).createData
    (∃ d₀ d' moved,
      (differences (residual toolReach) none 1).evaluate toolArgs d = .done d₀ ∧
      (differences (residual toolReach) none 1).differentiate toolArgs true d = .done d' ∧
      (residual toolReach).Quotients 1 moved d₀ d') ∧
    ∃ left, (differences (residual toolReach) (some restingUpdate) 1).differentiate toolArgs true d =
      .stopped left (.refused (.model (.unknownJoint "hinge"))) := by
  intro d
  obtain ⟨d₀, h₀⟩ := Outcome.exists_done (o := (residual toolReach).evaluate toolArgs d)
    (by decide +kernel)
  have hx : toolArgs.x.size = (residual toolReach).state.nx := by decide +kernel
  have hCoordinates : (residual toolReach).coordinates = [.state 0, .state 1, .control 0] := rfl
  constructor
  · obtain ⟨-, hDone, -, -⟩ := differences_by_column (residual toolReach) none 1 toolArgs [] h₀
    let moved := fun p => ((residual toolReach).answerAt none 1 toolArgs p).toOption.getD #[]
    obtain ⟨d', hDifferentiate, hQuotients⟩ := hDone moved fun p hp => by
      rw [answersAt_iff hx]
      rw [hCoordinates] at hp
      fin_cases hp
      · rfl
      · rfl
      · rfl
    exact ⟨d₀, d', moved, h₀, hDifferentiate, hQuotients⟩
  · obtain ⟨-, -, hStopped, -⟩ :=
      differences_by_column (residual toolReach) (some restingUpdate) 1 toolArgs [] h₀
    have hRest : (residual toolReach).answerAt (some restingUpdate) 1 toolArgs (.state 0) =
        .ok #[0, 0, 0] := by rfl
    have hStop : (residual toolReach).answerAt (some restingUpdate) 1 toolArgs (.state 1) =
        .error (.refused (.model (.unknownJoint "hinge"))) := by rfl
    refine hStopped [.state 0] [.control 0] (.state 1) _ hCoordinates ?_
      ((answersAt_iff hx).mpr hStop)
    intro q hq
    obtain rfl := List.mem_singleton.mp hq
    exact ⟨_, (answersAt_iff hx).mpr hRest⟩

end Cost

end MultibodyCost
