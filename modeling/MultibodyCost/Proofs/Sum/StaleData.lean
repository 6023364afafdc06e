import MultibodyCost.Proofs.Sum.History

/-! # Data of a sum that has changed

The check of a call compares the names of the items and the dimension of the stacked residual, and
each item compares the dimensions of its own data. Neither looks at the buffers that no evaluation
rewrites, nor at the other dimensions of the totals. Data of another sum, or of this sum before it
changed, is therefore let in where names and dimensions agree; what it gives is then right exactly
where its kept part is that of fresh data.
-/

namespace MultibodyCost

namespace CostSum

/-- Differentiating with the residual is refused with an error, or it leaves in the data what it
leaves in fresh data. -/
def Faithful {α : Type} [Elementary α] (s : CostSum α) (args : Arguments α) (d : SumData α) : Prop :=
  (∃ left e, s.differentiate args true d = .stopped left (.refused e)) ∨
    ∃ d', s.differentiate args true d = .done d' ∧ s.differentiate args true s.createData = .done d'

section Kept

variable {α : Type} [Elementary α]

theorem kept_of_done {s : CostSum α} {args : Arguments α} {recalc : Bool} {d d' : SumData α}
    (h : s.differentiate args recalc d = .done d') : s.kept d' = s.kept d := by
  have hKept := s.kept_differentiate args recalc d
  rw [h] at hKept
  exact hKept

theorem kept_of_same_done {s : CostSum α} {args : Arguments α} {d d' : SumData α}
    (h : s.differentiate args true d = .done d')
    (hFresh : s.differentiate args true s.createData = .done d') :
    s.kept d = s.kept s.createData :=
  (kept_of_done h).symm.trans (kept_of_done hFresh)

theorem Counted.fresh_done {s : CostSum α} (hCounted : s.Counted) {args : Arguments α}
    {d d' : SumData α} (hKept : s.kept d = s.kept s.createData)
    (h : s.differentiate args true d = .done d') :
    s.differentiate args true s.createData = .done d' := by
  have hResult := differentiate_of_kept hCounted hKept args
  rw [h] at hResult
  exact Outcome.result_eq_ok_iff.mp hResult.symm

/-- For data of any sum, after any calls: what is not refused is right exactly where the call is done
and the data has the kept part of fresh data. -/
theorem faithful_iff_kept (state : Multibody α) (nu : Nat) (es : List (Edit α)) (args : Arguments α)
    (d : SumData α) :
    let s := (empty state nu).edited es
    s.Faithful args d ↔
      (∃ left e, s.differentiate args true d = .stopped left (.refused e)) ∨
        (∃ d', s.differentiate args true d = .done d') ∧ s.kept d = s.kept s.createData := by
  intro s
  have hCounted : s.Counted := counted_edited state nu es
  constructor
  · rintro (hRefused | ⟨d', hDone, hFresh⟩)
    · exact .inl hRefused
    · exact .inr ⟨⟨d', hDone⟩, kept_of_same_done hDone hFresh⟩
  · rintro (hRefused | ⟨⟨d', hDone⟩, hKept⟩)
    · exact .inl hRefused
    · exact .inr ⟨d', hDone, hCounted.fresh_done hKept hDone⟩

end Kept

def hinge : Multibody Float := ⟨Model.empty.pushJoint "hinge" .revolute none (-1) 1⟩

def plainEffort : ResidualCost Float where
  state := hinge
  activation := .quadratic 1
  nu := 1
  residual := .control #[0]
  accepted := rfl
  nu_eq := by
    rintro _ ⟨⟩
    rfl

def heavyEffort : ResidualCost Float :=
  { plainEffort with
    activation := .weighted ⟨#[2], by decide +kernel⟩
    accepted := rfl }

def beforeSwap : CostSum Float := (empty hinge 1).edited [.add "effort" (.residual plainEffort) 1]

def afterSwap : CostSum Float :=
  beforeSwap.edited [.remove "effort", .add "effort" (.residual heavyEffort) 1]

def push : Arguments Float := ⟨.zeros hinge.model, #[0, 0], #[1]⟩

def hessianLeft (o : Outcome (Fault Float) (SumData Float)) : Option Float :=
  match o with
  | .done d => some (d.totals.luu.entry 0 0)
  | .stopped _ _ => none

/-- The data still holds the Hessian of the activation that was taken out. -/
theorem not_faithful_after_swap :
    ¬ afterSwap.Faithful push (beforeSwap.after [.differentiate push true] beforeSwap.createData) := by
  have hStale : hessianLeft (afterSwap.differentiate push true
      (beforeSwap.after [.differentiate push true] beforeSwap.createData)) = some 1 := by
    decide +kernel
  have hFresh : hessianLeft (afterSwap.differentiate push true afterSwap.createData) = some 2 := by
    decide +kernel
  rintro (⟨left, e, hRefused⟩ | ⟨d, hDone, hFreshDone⟩)
  · rw [hRefused] at hStale
    cases hStale
  · rw [hDone] at hStale
    rw [hFreshDone] at hFresh
    have hOneTwo : some (1 : Float) ≠ some 2 := by decide +kernel
    exact hOneTwo (hStale.symm.trans hFresh)

end CostSum

end MultibodyCost
