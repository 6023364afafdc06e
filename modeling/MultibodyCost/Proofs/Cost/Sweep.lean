import MultibodyCost.Proofs.Cost.Quotients

/-! # One set of buffers for all coordinates

The quotients may be filled with buffers that are used again for every coordinate: one data of the
cost that is asked, one tangent and one control, in which a coordinate is moved and put back. What
an evaluation leaves in the scratch data is never read by the next, so this fills the same columns
and stops at the same fault.
-/

namespace MultibodyCost

namespace Outcome

variable {ε σ τ ι : Type} {f : σ → τ} {Ready : σ → Prop}

/-- `o` does on `f` what `o'` does, and is ready to go on if it is done. -/
structure Simulates (f : σ → τ) (Ready : σ → Prop) (o : Outcome ε σ) (o' : Outcome ε τ) : Prop where
  image : o.map f = o'
  ready : ∀ s, o = .done s → Ready s

theorem Simulates.andThen {o : Outcome ε σ} {o' : Outcome ε τ} (h : Simulates f Ready o o')
    {next : σ → Outcome ε σ} {next' : τ → Outcome ε τ}
    (hNext : ∀ s, Ready s → Simulates f Ready (next s) (next' (f s))) :
    Simulates f Ready (o.andThen next) (o'.andThen next') := by
  obtain ⟨rfl, hReady⟩ := h
  cases o with
  | done s => exact hNext s (hReady s rfl)
  | stopped s e =>
    refine ⟨rfl, ?_⟩
    rintro _ ⟨⟩

theorem simulates_forEach {step : ι → σ → Outcome ε σ} {step' : ι → τ → Outcome ε τ}
    (hStep : ∀ x s, Ready s → Simulates f Ready (step x s) (step' x (f s))) (xs : List ι) {s : σ}
    (hReady : Ready s) :
    Simulates f Ready (forEach xs s step) (forEach xs (f s) step') := by
  induction xs generalizing s with
  | nil =>
    refine ⟨rfl, ?_⟩
    rintro _ ⟨⟩
    exact hReady
  | cons x xs ih => exact (hStep x s hReady).andThen fun s hs => ih hs

end Outcome

namespace Vec

variable {α : Type} [Scalar α]

theorem put_put_self (v : Vec α) (i : Nat) (x : α) : (v.put i x).put i (v.entry i) = v := by
  refine ext_entry ((size_put ..).trans (size_put ..)) fun k hk => ?_
  rw [size_put, size_put] at hk
  rw [put, size_put, entry_ofFn_of_lt hk, put, entry_ofFn_of_lt hk]
  by_cases hki : k = i
  · rw [if_pos hki, hki]
  · rw [if_neg hki, if_neg hki]

end Vec

structure Buffers (α : Type) where
  data : CostData α
  scratch : CostData α
  tangent : Vec α
  control : Vec α

namespace Cost

variable {α : Type} [Elementary α]

def ask (c : Cost α) (args : Arguments α) (b : Buffers α) : Outcome (Fault α) (Buffers α) :=
  (c.evaluate args b.scratch).map fun scratch => { b with scratch := scratch }

/-- Moves coordinate `i` of the tangent, fills its column and puts it back. -/
def sweepState (c : Cost α) (update? : Option (KinematicsUpdate α)) (h : α) (args : Arguments α)
    (r0 : Vec α) (i : Nat) (b : Buffers α) : Outcome (Fault α) (Buffers α) :=
  let b := { b with tangent := b.tangent.put i h }
  match (Fault.ofModel (c.state.integrate args.x b.tangent)).bind
      (perturbed c.state update? args) with
  | .error fault => .stopped b fault
  | .ok args => (c.ask args b).andThen fun b =>
    .done { b with
      data := b.data.putColumn (quotient h b.scratch.r r0) (.state i)
      tangent := b.tangent.put i 0 }

def sweepControl (c : Cost α) (h : α) (args : Arguments α) (r0 : Vec α) (j : Nat) (b : Buffers α) :
    Outcome (Fault α) (Buffers α) :=
  let b := { b with control := b.control.put j (b.control.entry j + h) }
  (c.ask { args with u := b.control } b).andThen fun b =>
    .done { b with
      data := b.data.putColumn (quotient h b.scratch.r r0) (.control j)
      control := b.control.put j (args.u.entry j) }

def sweep (c : Cost α) (update? : Option (KinematicsUpdate α)) (h : α) (args : Arguments α)
    (b : Buffers α) : Outcome (Fault α) (Buffers α) :=
  let r0 := b.data.r
  (Outcome.forEach (List.range c.state.ndx) b (c.sweepState update? h args r0)).andThen fun b =>
    Outcome.forEach (List.range args.u.size) b (c.sweepControl h args r0)

structure Ready (c : Cost α) (args : Arguments α) (b : Buffers α) : Prop where
  scratch : c.kept b.scratch = c.kept c.createData
  tangent : b.tangent = Vec.zeros c.state.ndx
  control : b.control = args.u

variable {c : Cost α} {update? : Option (KinematicsUpdate α)} {h : α} {args args' : Arguments α}
  {r0 : Vec α} {b : Buffers α}

theorem simulates_ask {R : Buffers α → Prop} (hScratch : c.kept b.scratch = c.kept c.createData)
    {fill : Vec α → CostData α} {next : Buffers α → Buffers α}
    (hData : ∀ scratch, (next { b with scratch := scratch }).data = fill scratch.r)
    (hNext : ∀ scratch, c.kept scratch = c.kept c.createData →
      R (next { b with scratch := scratch })) :
    Outcome.Simulates Buffers.data R ((c.ask args' b).andThen fun b => .done (next b))
      (.attempt b.data ((c.residualAt args').map fill)) := by
  have hAnswer : (c.evaluate args' b.scratch).result.map CostData.r = c.residualAt args' :=
    answers_iff.mpr rfl b.scratch hScratch
  have hKept := c.kept_evaluate args' b.scratch
  rw [← hAnswer, ask]
  cases hOutcome : c.evaluate args' b.scratch with
  | stopped left fault =>
    refine ⟨rfl, ?_⟩
    rintro _ ⟨⟩
  | done scratch =>
    rw [hOutcome] at hKept
    refine ⟨congrArg Outcome.done (hData scratch), ?_⟩
    rintro _ ⟨⟩
    exact hNext scratch (hKept.trans hScratch)

theorem simulates_sweepState (hReady : c.Ready args b) (i : Nat) :
    Outcome.Simulates Buffers.data (c.Ready args) (c.sweepState update? h args r0 i b)
      (.attempt b.data ((c.stateQuotient update? h args r0 i).map fun col =>
        b.data.putColumn col (.state i))) := by
  rw [stateQuotient_eq, map_map_eq, answerAt, sweepState, hReady.tangent]
  dsimp only
  cases (Fault.ofModel (c.state.integrate args.x ((Vec.zeros c.state.ndx).put i h))).bind
      (perturbed c.state update? args) with
  | error fault =>
    refine ⟨rfl, ?_⟩
    rintro _ ⟨⟩
  | ok args' =>
    let moved : Buffers α := { b with tangent := (Vec.zeros c.state.ndx).put i h }
    refine simulates_ask (b := moved) hReady.scratch ?_ ?_
    · exact fun _ => rfl
    · intro scratch hScratch
      have hBack := (Vec.zeros c.state.ndx : Vec α).put_put_self i h
      rw [Vec.entry_zeros] at hBack
      exact ⟨hScratch, hBack, hReady.control⟩

theorem simulates_sweepControl (hReady : c.Ready args b) (j : Nat) :
    Outcome.Simulates Buffers.data (c.Ready args) (c.sweepControl h args r0 j b)
      (.attempt b.data ((c.controlQuotient h args r0 j).map fun col =>
        b.data.putColumn col (.control j))) := by
  rw [controlQuotient_eq none, map_map_eq, answerAt, sweepControl, hReady.control]
  let moved : Buffers α := { b with control := args.u.put j (args.u.entry j + h) }
  refine simulates_ask (b := moved) hReady.scratch ?_ ?_
  · exact fun _ => rfl
  · exact fun scratch hScratch => ⟨hScratch, hReady.tangent, args.u.put_put_self j _⟩

/-- Sweeping with one set of buffers fills what fresh ones for every coordinate fill. -/
theorem sweep_eq (update? : Option (KinematicsUpdate α)) (h : α) (hReady : c.Ready args b) :
    (c.sweep update? h args b).map Buffers.data = c.fillQuotients update? h args b.data := by
  have hStates : Outcome.Simulates Buffers.data (c.Ready args)
      (Outcome.forEach (List.range c.state.ndx) b (c.sweepState update? h args b.data.r))
      (Outcome.forEach (List.range c.state.ndx) b.data fun i d =>
        .attempt d ((c.stateQuotient update? h args b.data.r i).map fun col =>
          d.putColumn col (.state i))) :=
    Outcome.simulates_forEach (fun i _ hReady => simulates_sweepState hReady i) _ hReady
  have hControls : ∀ b', c.Ready args b' → Outcome.Simulates Buffers.data (c.Ready args)
      (Outcome.forEach (List.range args.u.size) b' (c.sweepControl h args b.data.r))
      (Outcome.forEach (List.range args.u.size) b'.data fun j d =>
        .attempt d ((c.controlQuotient h args b.data.r j).map fun col =>
          d.putColumn col (.control j))) := fun _ hReady =>
    Outcome.simulates_forEach (fun j _ hReady => simulates_sweepControl hReady j) _ hReady
  exact (hStates.andThen hControls).image

end Cost

end MultibodyCost
