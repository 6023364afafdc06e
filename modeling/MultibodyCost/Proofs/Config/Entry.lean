import MultibodyCost.Proofs.Config.Activation
import MultibodyCost.Proofs.Config.Residual

/-! # What one entry of a configuration describes

An entry has a cost where its activation and its residual may be had and fit each other. It is built
as that cost, and as no other; where it has none, the error tells which of the conditions fails.
-/

namespace MultibodyCost

variable {α : Type}

section Costs

variable [Scalar α]

theorem Residual.fault?_eq_none_iff {s : Multibody α} {a : Activation α}
    {residual : Residual α} : residual.fault? s a = none ↔
      residual.referenceFault? s = none ∧ a.nr = residual.nr s := by
  rw [fault?]
  cases residual.referenceFault? s with
  | some e => simp
  | none => simp

theorem Residual.fault?_eq_some_iff {s : Multibody α} {a : Activation α}
    {residual : Residual α} {err : CostError α} : residual.fault? s a = some err ↔
      residual.referenceFault? s = some err ∨ residual.referenceFault? s = none ∧
        a.nr ≠ residual.nr s ∧ err = .activationDimension (residual.nr s) a.nr := by
  rw [fault?]
  cases residual.referenceFault? s with
  | some e => simp
  | none => simp [eq_comm]

namespace ResidualCost

variable {s : Multibody α} {a : Activation α} {nu : Nat} {residual : Residual α} {c : ResidualCost α}

theorem fields_of_make (h : make s a nu residual = .ok c) :
    c.state = s ∧ c.activation = a ∧ c.residual = residual := by
  unfold make at h
  split at h
  · cases h
  · cases h
    exact ⟨rfl, rfl, rfl⟩

theorem fault?_of_make {err : CostError α} (h : make s a nu residual = .error err) :
    residual.fault? s a = some err := by
  unfold make at h
  split at h
  · rename_i hFault
    cases h
    exact hFault
  · cases h

theorem exists_make (h : residual.fault? s a = none)
    (hControl : ∀ ref, residual = .control ref → ref.size = nu) :
    ∃ c, make s a nu residual = .ok c ∧ c.nu = nu := by
  unfold make
  split
  · rename_i hFault
    rw [h] at hFault
    cases hFault
  · refine ⟨_, rfl, ?_⟩
    cases residual with
    | control ref => exact hControl ref rfl
    | _ => rfl

theorem ext_fields {c c' : ResidualCost α} (hState : c.state = c'.state)
    (hActivation : c.activation = c'.activation) (hNu : c.nu = c'.nu)
    (hResidual : c.residual = c'.residual) : c = c' := by
  cases c
  cases c'
  cases hState
  cases hActivation
  cases hNu
  cases hResidual
  rfl

end ResidualCost

end Costs

variable [Elementary α]

namespace ConfigEntry

/-- Why an entry has no cost, with the error that says so. -/
inductive Refused (s : Multibody α) (nu : Nat) (e : ConfigEntry α) : CostError α → Prop
  | activation {fault : ModelError α} (h : e.activation.Refused fault) : Refused s nu e (.model fault)
  | residual {err : CostError α} (h : e.residual.Refused s nu err) : Refused s nu e err
  | components {n : Nat} (h : e.activation.components? = some n)
    (hDimension : n ≠ e.residual.dimension s nu) :
    Refused s nu e (.activationDimension (e.residual.dimension s nu) n)

structure Buildable (s : Multibody α) (nu : Nat) (e : ConfigEntry α) : Prop where
  activation : e.activation.Valid
  fits : ∀ n, e.activation.components? = some n → n = e.residual.dimension s nu
  residual : e.residual.Valid s nu

structure Acceptable (s : Multibody α) (nu : Nat) (e : ConfigEntry α) : Prop
    extends e.Buildable s nu where
  weight : Scalar.isFinite e.weight = true ∧ ¬e.weight < 0

structure Describes (s : Multibody α) (nu : Nat) (e : ConfigEntry α) (c : ResidualCost α) :
    Prop where
  state : c.state = s
  control : c.nu = nu
  activation : e.activation.Describes (e.residual.dimension s nu) c.activation
  residual : e.residual.Describes s nu c.residual

variable {e : ConfigEntry α} {s : Multibody α} {nu : Nat}

theorem Describes.unique {c c' : ResidualCost α} (h : e.Describes s nu c) (h' : e.Describes s nu c') :
    c = c' :=
  ResidualCost.ext_fields (h.state.trans h'.state.symm) (h.activation.unique h'.activation)
    (h.control.trans h'.control.symm) (h.residual.unique h'.residual)

theorem Buildable.components_getD (h : e.Buildable s nu) :
    e.activation.components?.getD (e.residual.dimension s nu) = e.residual.dimension s nu := by
  cases hComponents : e.activation.components? with
  | none => rfl
  | some n => exact h.fits n hComponents

theorem Describes.nr_eq {c : ResidualCost α} (h : e.Describes s nu c) (hBuildable : e.Buildable s nu) :
    c.activation.nr = e.residual.dimension s nu :=
  h.activation.nr_eq.trans hBuildable.components_getD

theorem Buildable.exists_describes (h : e.Buildable s nu) : ∃ c, e.Describes s nu c := by
  obtain ⟨a, ha⟩ := ActivationConfig.exists_describes_iff.mpr h.activation
  obtain ⟨residual, hBuild⟩ := ResidualConfig.exists_build h.residual
  have hResidual := ResidualConfig.describes_of_build hBuild
  obtain ⟨hReference, hDimension, hControl⟩ := hResidual.facts h.residual
  have hNr : a.nr = residual.nr s := by
    rw [ha.nr_eq, hDimension, h.components_getD]
  obtain ⟨c, hMake, hNu⟩ :=
    ResidualCost.exists_make (Residual.fault?_eq_none_iff.mpr ⟨hReference, hNr⟩) hControl
  obtain ⟨rfl, rfl, rfl⟩ := ResidualCost.fields_of_make hMake
  exact ⟨c, rfl, hNu, ha, hResidual⟩

theorem build_eq_ok_iff {cost : Cost α} : e.build s nu = .ok cost ↔
    e.Buildable s nu ∧ ∃ c, cost = .residual c ∧ e.Describes s nu c := by
  constructor
  · intro h
    obtain ⟨a, hActivation, h⟩ := bind_eq_ok.mp h
    obtain ⟨residual, hBuild, h⟩ := bind_eq_ok.mp h
    obtain ⟨c, hMake, ⟨⟩⟩ := bind_eq_ok.mp h
    obtain ⟨rfl, rfl, rfl⟩ := ResidualCost.fields_of_make hMake
    obtain ⟨hReference, hNr⟩ := Residual.fault?_eq_none_iff.mp c.accepted
    have hValid := ResidualConfig.valid_of_build hBuild hReference
    have hResidual := ResidualConfig.describes_of_build hBuild
    obtain ⟨-, hDimension, hControl⟩ := hResidual.facts hValid
    rw [ResidualConfig.nr_eq_dimension hValid] at hActivation
    have ha := ActivationConfig.build_eq_ok_iff.mp hActivation
    obtain ⟨c', hMake', hNu⟩ := ResidualCost.exists_make c.accepted hControl
    obtain rfl : c' = c := Except.ok.inj (hMake'.symm.trans hMake)
    refine ⟨⟨ActivationConfig.exists_describes_iff.mp ⟨_, ha⟩, ?_, hValid⟩, c', rfl, rfl, hNu, ha,
      hResidual⟩
    intro n hComponents
    rw [← hDimension, ← hNr, ha.nr_eq, hComponents, Option.getD_some]
  · rintro ⟨h, c, rfl, hc⟩
    have hActivation : e.activation.build (e.residual.nr s nu) = .ok c.activation := by
      rw [ResidualConfig.nr_eq_dimension h.residual]
      exact ActivationConfig.build_eq_ok_iff.mpr hc.activation
    obtain ⟨residual, hBuild⟩ := ResidualConfig.exists_build h.residual
    obtain rfl := (ResidualConfig.describes_of_build hBuild).unique hc.residual
    obtain ⟨-, -, hControl⟩ := hc.residual.facts h.residual
    obtain rfl := hc.state
    obtain ⟨c', hMake, hNu⟩ := ResidualCost.exists_make c.accepted hControl
    obtain ⟨hState, hSame, hResidual⟩ := ResidualCost.fields_of_make hMake
    obtain rfl : c' = c := ResidualCost.ext_fields hState hSame (hNu.trans hc.control.symm) hResidual
    exact bind_eq_ok.mpr ⟨_, hActivation, bind_eq_ok.mpr ⟨_, hBuild, bind_eq_ok.mpr ⟨_, hMake, rfl⟩⟩⟩

theorem Refused.ne_controlDimension {err : CostError α} (h : e.Refused s nu err) {name : String}
    {n m : Nat} : err ≠ .controlDimension name n m := by
  rintro rfl
  cases h with
  | residual h => exact h.unrelated.1 name n m rfl

theorem Refused.of_activationDimension {n m : Nat}
    (h : e.Refused s nu (.activationDimension n m)) : e.activation.components? = some m ∧
      n = e.residual.dimension s nu ∧ m ≠ n := by
  cases h with
  | residual h => exact absurd rfl (h.unrelated.2 n m)
  | components h hOther => exact ⟨h, rfl, hOther⟩

theorem refused_of_build {err : CostError α} (h : e.build s nu = .error err) : e.Refused s nu err := by
  rcases bind_eq_error.mp h with hActivation | ⟨a, hActivation, h⟩
  · obtain ⟨fault, rfl, hRefused⟩ := ActivationConfig.refused_of_build hActivation
    exact .activation hRefused
  rcases bind_eq_error.mp h with hBuild | ⟨residual, hBuild, h⟩
  · exact .residual (ResidualConfig.refused_of_build hBuild)
  rcases bind_eq_error.mp h with hMake | ⟨c, -, ⟨⟩⟩
  have hResidual := ResidualConfig.describes_of_build hBuild
  rcases Residual.fault?_eq_some_iff.mp (ResidualCost.fault?_of_make hMake) with
    hReference | ⟨hReference, hNr, rfl⟩
  · exact .residual (hResidual.refused hReference)
  · have hValid := ResidualConfig.valid_of_build hBuild hReference
    obtain ⟨-, hDimension, -⟩ := hResidual.facts hValid
    rw [ResidualConfig.nr_eq_dimension hValid] at hActivation
    have ha := (ActivationConfig.build_eq_ok_iff.mp hActivation).nr_eq
    rw [hDimension] at hNr ⊢
    cases hComponents : e.activation.components? with
    | none => exact absurd (ha.trans (by rw [hComponents]; rfl)) hNr
    | some n =>
      obtain rfl : a.nr = n := ha.trans (by rw [hComponents]; rfl)
      exact .components hComponents hNr

end ConfigEntry

end MultibodyCost
