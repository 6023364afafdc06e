import MultibodyCost.Proofs.Cost.Refusal
import MultibodyCost.Proofs.Geometry.Adjoint
import MultibodyCost.Proofs.Geometry.Relative
import MultibodyCost.Proofs.Linear.Forms
import MultibodyCost.Proofs.State.RoundTrip

/-! # The cost of a placement

A cost of a placement reads its reference and the placement of its frame in one term only, the motion
from one to the other, and it reads that term wherever it computes a residual or a Jacobian. So a call
is the same whenever the motion is: after reference and frame are moved alike, and after either takes
the other quaternion of its rotation, half a turn apart. The cost is zero where the motion is.
-/

namespace MultibodyCost

variable {α : Type}

def Snapshot.reposition (s : Snapshot α) (id : Nat) (g : Placement α → Placement α) : Snapshot α :=
  { s with frames := s.frames.modify id fun f => { f with placement := g f.placement } }

def Arguments.reposition (args : Arguments α) (id : Nat) (g : Placement α → Placement α) :
    Arguments α :=
  { args with snapshot := args.snapshot.reposition id g }

def Call.reposition (id : Nat) (g : Placement α → Placement α) : Call α → Call α
  | evaluate args => evaluate (args.reposition id g)
  | differentiate args recalc => differentiate (args.reposition id g) recalc
  | evaluateTerminal snapshot x => evaluateTerminal (snapshot.reposition id g) x
  | differentiateTerminal snapshot x recalc =>
    differentiateTerminal (snapshot.reposition id g) x recalc

theorem Snapshot.frame_reposition (s : Snapshot α) (id : Nat) (g : Placement α → Placement α) :
    (s.reposition id g).frame id =
      (s.frame id).map fun f => { f with placement := g f.placement } := by
  rw [frame, frame, reposition, Array.getElem?_modify, if_pos rfl]
  cases s.frames[id]? with
  | some f => rfl
  | none => rfl

theorem Snapshot.reposition_self (s : Snapshot α) (id : Nat) : s.reposition id (fun m => m) = s := by
  have hFrames : s.frames.modify id (fun f => { f with placement := f.placement }) = s.frames := by
    apply Array.ext_getElem?
    intro k
    rw [Array.getElem?_modify]
    split
    · exact Option.map_id'
    · rfl
  rw [reposition, hFrames]

theorem Call.reposition_self (call : Call α) (id : Nat) : call.reposition id (fun m => m) = call := by
  cases call <;> simp only [reposition, Arguments.reposition, Snapshot.reposition_self]

section Reads

variable [Elementary α] {id : Nat} {ref ref' : Placement α} {g : Placement α → Placement α}
  {args : Arguments α}

namespace Residual

variable (h : ∀ f, args.snapshot.frame id = .ok f →
  placementError ref' (g f.placement) = placementError ref f.placement)

include h

theorem value_reposition (s : Multibody α) :
    (placement id ref').value s (args.reposition id g) = (placement id ref).value s args := by
  simp only [value, Arguments.reposition, Snapshot.frame_reposition]
  cases hFrame : args.snapshot.frame id with
  | ok f =>
    change Except.ok (placementError ref' (g f.placement)).toVec = _
    rw [h f hFrame]
    rfl
  | error e => rfl

theorem linearize_reposition (s : Multibody α) (nu : Nat) (d : CostData α) :
    (placement id ref').linearize s nu (args.reposition id g) d =
      (placement id ref).linearize s nu args d := by
  simp only [linearize, Arguments.reposition, Snapshot.frame_reposition]
  cases hFrame : args.snapshot.frame id with
  | ok f => simp only [Except.map, Fault.ofModel, Outcome.reading, h f hFrame]
  | error e => simp only [Except.map, Fault.ofModel, Outcome.reading]

end Residual

namespace ResidualCost

structure Referenced (c : ResidualCost α) (id : Nat) (ref : Placement α) (c' : ResidualCost α) :
    Prop where
  state : c'.state = c.state
  activation : c'.activation = c.activation
  nu : c'.nu = c.nu
  residual : c'.residual = .placement id ref

variable {c c' : ResidualCost α}

theorem check_reposition (hc' : c.Referenced id ref' c') (d : CostData α) :
    (args.reposition id g).check c'.state c'.nr c'.nu d = args.check c.state c.nr c.nu d := by
  rw [nr, nr, hc'.state, hc'.activation, hc'.nu]
  rfl

variable (hc : c.residual = .placement id ref) (hc' : c.Referenced id ref' c') (d : CostData α)

section Arguments

variable (h : ∀ f, args.snapshot.frame id = .ok f →
  Residual.placementError ref' (g f.placement) = Residual.placementError ref f.placement)

include hc hc' h

theorem evaluate_reposition :
    c'.evaluate (args.reposition id g) d = c.evaluate args d := by
  rw [evaluate, evaluate, check_reposition hc', hc'.residual, hc'.state, hc'.activation, hc,
    Residual.value_reposition h c.state]

theorem differentiate_reposition (recalc : Bool) :
    c'.differentiate (args.reposition id g) recalc d = c.differentiate args recalc d := by
  have hStart : c'.start (args.reposition id g) recalc d = c.start args recalc d := by
    simp only [start, check_reposition hc', evaluate_reposition hc hc' d h]
  rw [differentiate, differentiate, hStart]
  simp only [hc'.residual, hc'.state, hc'.activation, hc'.nu, hc,
    Residual.linearize_reposition h c.state c.nu]

end Arguments

include hc hc' in
theorem call_reposition (call : Call α)
    (h : ∀ f, (call.arguments c.nu).snapshot.frame id = .ok f →
      Residual.placementError ref' (g f.placement) = Residual.placementError ref f.placement) :
    (Cost.residual c').call d (call.reposition id g) = (Cost.residual c).call d call := by
  have hNu : (Cost.residual c').nu = (Cost.residual c).nu := hc'.nu
  cases call with
  | evaluate args => exact evaluate_reposition hc hc' d h
  | differentiate args recalc => exact differentiate_reposition hc hc' d h recalc
  | evaluateTerminal snapshot x =>
    simp only [Call.reposition, Cost.call, hNu]
    exact evaluate_reposition hc hc' d h
  | differentiateTerminal snapshot x recalc =>
    simp only [Call.reposition, Cost.call, hNu]
    exact differentiate_reposition hc hc' d h recalc

theorem exists_referenced (hc : c.residual = .placement id ref) (ref' : Placement α) :
    ∃ c', make c.state c.activation c.nu (.placement id ref') = .ok c' ∧ c.Referenced id ref' c' := by
  -- Whether a cost is accepted depends on the index of its frame, not on its reference.
  have hNone : (Residual.placement id ref').fault? c.state c.activation = none := by
    have hAccepted := c.accepted
    rw [hc] at hAccepted
    exact hAccepted
  unfold make
  split
  · rename_i e hSome
    rw [hNone] at hSome
    cases hSome
  · exact ⟨_, rfl, rfl, rfl, rfl, rfl⟩

theorem evaluate_placement (hc : c.residual = .placement id ref) {d : CostData α}
    {f : FrameKinematics α} (hCheck : args.check c.state c.nr c.nu d = .ok ())
    (hFrame : args.snapshot.frame id = .ok f) :
    (Cost.residual c).evaluate args d =
      .done (d.activate c.activation (Residual.placementError ref f.placement).toVec) := by
  rw [Cost.evaluate, evaluate, hCheck, hc]
  simp only [Residual.value, hFrame]
  rfl

end ResidualCost

end Reads

theorem Motion.normSq_toVec (ν : Motion ℝ) :
    ν.toVec.normSq = ν.linear.normSq + ν.angular.normSq := by
  rw [Vec.normSq, Vec.dot_eq_sum, size_toVec]
  simp only [Finset.sum_range_succ, Finset.sum_range_zero]
  change 0 + ν.linear.x * ν.linear.x + ν.linear.y * ν.linear.y + ν.linear.z * ν.linear.z +
      ν.angular.x * ν.angular.x + ν.angular.y * ν.angular.y + ν.angular.z * ν.angular.z =
    ν.linear.x * ν.linear.x + ν.linear.y * ν.linear.y + ν.linear.z * ν.linear.z +
      (ν.angular.x * ν.angular.x + ν.angular.y * ν.angular.y + ν.angular.z * ν.angular.z)
  ring

theorem Motion.normSq_toVec_eq_zero_iff {ν : Motion ℝ} : ν.toVec.normSq = 0 ↔ ν = .zero := by
  rw [normSq_toVec]
  constructor
  · intro h
    have hLinear := ν.linear.normSq_nonneg
    have hAngular := ν.angular.normSq_nonneg
    exact Motion.ext (Vec3.normSq_eq_zero_iff.mp (by linarith))
      (Vec3.normSq_eq_zero_iff.mp (by linarith))
  · rintro rfl
    rw [zero, Vec3.normSq_eq_zero_iff.mpr rfl, add_zero]

theorem Motion.toVec_injective : Function.Injective (toVec : Motion α → Vec α) := by
  intro μ ν h
  simp only [toVec, Array.mk.injEq, List.cons.injEq, and_true] at h
  obtain ⟨hx, hy, hz, hx', hy', hz'⟩ := h
  exact Motion.ext (Vec3.ext hx hy hz) (Vec3.ext hx' hy' hz')

namespace ResidualCost

/-- What a cost with the reference `ref` makes of the placement of its frame. -/
structure MeasuresRelative (c : ResidualCost ℝ) (id : Nat) (ref : Placement ℝ) : Prop where
  zero : ∀ (args : Arguments ℝ) d f, args.check c.state c.nr c.nu d = .ok () →
    args.snapshot.frame id = .ok f → f.placement.rotation.normSq = 1 →
      ∃ d', (Cost.residual c).evaluate args d = .done d' ∧ (d'.cost = 0 ↔ f.placement.Same ref)
  moved : ∀ g : Placement ℝ, g.rotation.normSq = 1 →
    ∃ c', make c.state c.activation c.nu (.placement id (g * ref)) = .ok c' ∧ ∀ d call,
      (Cost.residual c').call d (call.reposition id (g * ·)) = (Cost.residual c).call d call
  flipped : ∃ c', make c.state c.activation c.nu (.placement id ref.flipped) = .ok c' ∧
    ∀ d call, (∀ f, (call.arguments c.nu).snapshot.frame id = .ok f →
        (ref.rotation.inverse * f.placement.rotation).w ≠ 0) →
      (Cost.residual c').call d call = (Cost.residual c).call d call ∧
      (Cost.residual c).call d (call.reposition id .flipped) = (Cost.residual c).call d call
  halfTurn : ∀ (args : Arguments ℝ) d f, args.check c.state c.nr c.nu d = .ok () →
    args.snapshot.frame id = .ok f → f.placement.rotation.normSq = 1 →
      (ref.rotation.inverse * f.placement.rotation).w = 0 →
        ∃ d₁ d₂, (Cost.residual c).evaluate args d = .done d₁ ∧
          (Cost.residual c).evaluate (args.reposition id .flipped) d = .done d₂ ∧ d₂.r ≠ d₁.r

/-- With the quadratic activation and a reference whose rotation has norm one, a cost of a placement
measures the relative placement and nothing else. -/
theorem placement_cost_relative {c : ResidualCost ℝ} {n id : Nat} {ref : Placement ℝ}
    (hActivation : c.activation = .quadratic n) (hc : c.residual = .placement id ref)
    (hRef : ref.rotation.normSq = 1) : c.MeasuresRelative id ref := by
  have hSelf : c.Referenced id ref c := ⟨rfl, rfl, rfl, hc⟩
  constructor
  case zero =>
    intro args d f hCheck hFrame hf
    refine ⟨_, evaluate_placement hc hCheck hFrame, ?_⟩
    have hCost : (d.activate c.activation (Residual.placementError ref f.placement).toVec).cost =
        0.5 * (Residual.placementError ref f.placement).toVec.normSq := by
      rw [hActivation]
      rfl
    have hHalf : (0.5 : ℝ) ≠ 0 := by norm_num
    rw [hCost, mul_eq_zero_iff_left hHalf, Motion.normSq_toVec_eq_zero_iff]
    exact Placement.log_relative_eq_zero_iff hRef hf
  case moved =>
    intro g hg
    obtain ⟨c', hMade, hc'⟩ := exists_referenced hc (g * ref)
    refine ⟨c', hMade, fun d call => call_reposition hc hc' d call fun f _ => ?_⟩
    exact congrArg Placement.log (Placement.relative_of_moved hg hRef f.placement)
  case flipped =>
    obtain ⟨c', hMade, hc'⟩ := exists_referenced hc ref.flipped
    refine ⟨c', hMade, fun d call hLess => ⟨?_, call_reposition hc hSelf d call fun f hf => ?_⟩⟩
    · have hCall := call_reposition (g := fun m => m) hc hc' d call fun f hf => by
        change ((ref.flipped.inverse * f.placement).log : Motion ℝ) = _
        rw [Placement.flipped_inverse_mul]
        exact Placement.log_flipped (hLess f hf)
      rwa [Call.reposition_self] at hCall
    · change ((ref.inverse * f.placement.flipped).log : Motion ℝ) = _
      rw [Placement.mul_flipped]
      exact Placement.log_flipped (hLess f hf)
  case halfTurn =>
    intro args d f hCheck hFrame hf hHalf
    have hFlipped : (args.reposition id .flipped).snapshot.frame id =
        .ok { f with placement := f.placement.flipped } := by
      change (args.snapshot.reposition id .flipped).frame id = _
      rw [Snapshot.frame_reposition, hFrame]
      rfl
    refine ⟨_, _, evaluate_placement hc hCheck hFrame, evaluate_placement hc hCheck hFlipped, ?_⟩
    intro hSame
    have hLog : (ref.inverse * f.placement.flipped).log = (ref.inverse * f.placement).log :=
      Motion.toVec_injective hSame
    rw [Placement.mul_flipped] at hLog
    exact Placement.log_flipped_ne_of_halfTurn (Quaternion.normSq_relative hRef hf) hHalf hLog

/-- The wrist is wanted at the hinge, with the other quaternion of its rotation. -/
noncomputable def wristHold : ResidualCost ℝ where
  state := Multibody.arm
  activation := .quadratic 6
  nu := 10
  residual := .placement 1 Placement.hinge.flipped
  accepted := by
    simp [Residual.fault?, Residual.referenceFault?, Residual.referenceFault?.frameFault?,
      Multibody.model_arm, Activation.nr, Residual.nr]
  nu_eq := nofun

noncomputable def wristArgs : Arguments ℝ where
  snapshot := (Snapshot.zeros Multibody.arm.model).reposition 1 fun _ => Placement.hinge
  x := Vec.zeros Multibody.arm.nx
  u := Vec.zeros 10

theorem placement_cost_relative_wrist :
    let created := (Cost.residual wristHold).createData
    Placement.hinge.flipped.rotation.normSq = 1 ∧ Placement.corner.rotation.normSq = 1 ∧
    (∃ d, (Cost.residual wristHold).evaluate wristArgs created = .done d ∧ d.cost = 0) ∧
    (∃ c', make Multibody.arm (.quadratic 6) 10
        (.placement 1 (Placement.corner * Placement.hinge.flipped)) = .ok c' ∧
      (Cost.residual c').call created
          ((Call.differentiate wristArgs true).reposition 1 (Placement.corner * ·)) =
        (Cost.residual wristHold).call created (.differentiate wristArgs true)) ∧
    (Cost.residual wristHold).call created
        ((Call.differentiate wristArgs true).reposition 1 .flipped) =
      (Cost.residual wristHold).call created (.differentiate wristArgs true) := by
  intro created
  have hHinge : Placement.hinge.rotation.normSq = 1 := by
    norm_num [Placement.hinge, Quaternion.normSq]
  have hCorner : Placement.corner.rotation.normSq = 1 := by
    norm_num [Placement.corner, Quaternion.normSq]
  have hRef : Placement.hinge.flipped.rotation.normSq = 1 :=
    (Quaternion.normSq_neg _).trans hHinge
  have hMeasures : wristHold.MeasuresRelative 1 Placement.hinge.flipped :=
    placement_cost_relative (n := 6) rfl rfl hRef
  have hFrame : wristArgs.snapshot.frame 1 =
      .ok { FrameKinematics.zeros Multibody.arm.model.nv with placement := Placement.hinge } := by
    rw [wristArgs, Snapshot.frame_reposition]
    simp [Snapshot.frame, Snapshot.zeros, Multibody.model_arm, Except.map]
  have hNv : wristArgs.snapshot.nv = wristHold.state.nv := rfl
  have hCheck : wristArgs.check wristHold.state wristHold.nr wristHold.nu created = .ok () :=
    (Arguments.check_eq_ok_iff (Cost.residual wristHold).shaped_createData).mpr
      ⟨Vec.size_zeros _, Vec.size_zeros _, hNv, rfl, rfl, rfl⟩
  have hSame : Placement.hinge.Same Placement.hinge.flipped :=
    ⟨rfl, .inr (neg_neg _).symm⟩
  obtain ⟨d, hDone, hZero⟩ := hMeasures.zero wristArgs created _ hCheck hFrame hHinge
  obtain ⟨c', hMade, hMoved⟩ := hMeasures.moved Placement.corner hCorner
  obtain ⟨_, -, hFlipped⟩ := hMeasures.flipped
  refine ⟨hRef, hCorner, ⟨d, hDone, hZero.mpr hSame⟩, ⟨c', hMade, hMoved _ _⟩, ?_⟩
  refine (hFlipped created (.differentiate wristArgs true) fun f hf => ?_).2
  obtain rfl := Except.ok.inj (hFrame.symm.trans hf)
  norm_num [Placement.flipped, Placement.hinge, Quaternion.neg_eq, Quaternion.inverse,
    Quaternion.mul_eq]

end ResidualCost

end MultibodyCost
