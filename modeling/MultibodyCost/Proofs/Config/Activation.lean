import Mathlib.Data.List.Forall2
import MultibodyCost.Config.Basic
import MultibodyCost.Proofs.Result

/-! # Activations that are described

Weights are finite and not negative, bounds are ordered and their factor is in `(0, 1]`. An activation
is built where its parameters are so, and takes residuals of as many components as were given; the
quadratic one takes all.
-/

namespace MultibodyCost

variable {α : Type}

theorem CostError.ofModel_eq_ok_iff {β : Type} {x : Except (ModelError α) β} {b : β} :
    ofModel x = .ok b ↔ x = .ok b := by
  cases x with
  | error e => simp [CostError.ofModel]
  | ok b' => simp [CostError.ofModel]

theorem CostError.ofModel_eq_error_iff {β : Type} {x : Except (ModelError α) β} {err : CostError α} :
    ofModel x = .error err ↔ ∃ e, x = .error e ∧ err = .model e := by
  cases x with
  | error e => simp [CostError.ofModel, eq_comm]
  | ok b => simp [CostError.ofModel]

variable [Scalar α]

def ActivationConfig.Valid : ActivationConfig α → Prop
  | quadratic => True
  | weighted ws => ∀ w ∈ ws, Scalar.isFinite w = true ∧ 0 ≤ w
  | barrier lower upper beta => List.Forall₂ (· ≤ ·) lower upper ∧ 0 < beta ∧ beta ≤ 1

/-- The dimension of the residuals that an activation takes, where it does not take all. -/
def ActivationConfig.components? : ActivationConfig α → Option Nat
  | quadratic => none
  | weighted ws => some ws.length
  | barrier lower _ _ => some lower.length

inductive ActivationConfig.Describes (n : Nat) : ActivationConfig α → Activation α → Prop
  | quadratic : Describes n .quadratic (.quadratic n)
  | weighted {ws : List α} {w : Weights α} (values : w.values = ws.toArray) :
    Describes n (.weighted ws) (.weighted w)
  | barrier {lower upper : List α} {beta : α} {b : Bounds α} (lower_eq : b.givenLower = lower.toArray)
    (upper_eq : b.givenUpper = upper.toArray) (beta_eq : b.beta = beta) :
    Describes n (.barrier lower upper beta) (.barrier b)

inductive ActivationConfig.Refused : ActivationConfig α → ModelError α → Prop
  | weight {ws : List α} {w : α} (mem : w ∈ ws) (h : ¬(Scalar.isFinite w = true ∧ 0 ≤ w)) :
    Refused (.weighted ws) (.invalidWeight w)
  | lengths {lower upper : List α} {beta : α} (h : lower.length ≠ upper.length) :
    Refused (.barrier lower upper beta) (.invalidBounds (.lengths lower.length upper.length))
  | crossed {lower upper : List α} {beta : α} (h : ¬List.Forall₂ (· ≤ ·) lower upper) :
    Refused (.barrier lower upper beta) (.invalidBounds .crossed)
  | factor {lower upper : List α} {beta : α} (h : ¬(0 < beta ∧ beta ≤ 1)) :
    Refused (.barrier lower upper beta) (.invalidBounds (.factor beta))

theorem Weights.fault?_eq_none_iff {ws : List α} : fault? ws.toArray = none ↔
    ∀ w ∈ ws, Scalar.isFinite w = true ∧ 0 ≤ w := by
  simp [fault?]

theorem Weights.entry_accepted (w : Weights α) {i : Nat} (hi : i < w.values.size) :
    Scalar.isFinite (w.values.entry i) = true ∧ 0 ≤ w.values.entry i := by
  have hAccepted : fault? w.values.toList.toArray = none := w.accepted
  rw [Vec.entry_eq_getElem _ hi]
  exact fault?_eq_none_iff.mp hAccepted w.values[i] (Array.getElem_mem_toList hi)

theorem Weights.make_eq_ok_iff {values : Vec α} {w : Weights α} :
    make values = .ok w ↔ w.values = values := by
  unfold make
  split
  · rename_i hFault
    constructor
    · intro h
      cases h
    · rintro rfl
      rw [w.accepted] at hFault
      cases hFault
  · constructor
    · rintro ⟨⟩
      rfl
    · rintro rfl
      rfl

theorem Bounds.make_eq_ok_iff {lower upper : Vec α} {beta : α} {b : Bounds α} :
    make lower upper beta = .ok b ↔
      b.givenLower = lower ∧ b.givenUpper = upper ∧ b.beta = beta := by
  unfold make
  split
  · rename_i hFault
    constructor
    · intro h
      cases h
    · rintro ⟨rfl, rfl, rfl⟩
      rw [b.accepted] at hFault
      cases hFault
  · constructor
    · rintro ⟨⟩
      exact ⟨rfl, rfl, rfl⟩
    · rintro ⟨rfl, rfl, rfl⟩
      rfl

theorem Bounds.forall₂_le_iff {lower upper : List α} : List.Forall₂ (· ≤ ·) lower upper ↔
    lower.length = upper.length ∧
      ∀ i < lower.length, Vec.entry lower.toArray i ≤ Vec.entry upper.toArray i := by
  rw [List.forall₂_iff_get]
  refine and_congr_right fun hLength => ⟨fun h i hi => ?_, fun h i hi hi' => ?_⟩
  · have := h i hi (hLength ▸ hi)
    simpa [Vec.entry, hi, hLength ▸ hi] using this
  · have := h i hi
    simpa [Vec.entry, hi, hi'] using this

theorem Bounds.fault?_cases (lower upper : List α) (beta : α) :
    (fault? lower.toArray upper.toArray beta = some (.lengths lower.length upper.length) ∧
      lower.length ≠ upper.length) ∨
    (fault? lower.toArray upper.toArray beta = some .crossed ∧
      ¬List.Forall₂ (· ≤ ·) lower upper) ∨
    (fault? lower.toArray upper.toArray beta = some (.factor beta) ∧ ¬(0 < beta ∧ beta ≤ 1)) ∨
    fault? lower.toArray upper.toArray beta = none ∧
      List.Forall₂ (· ≤ ·) lower upper ∧ 0 < beta ∧ beta ≤ 1 := by
  unfold fault?
  split
  · rename_i hSizes
    exact .inl ⟨rfl, hSizes⟩
  · rename_i hSizes
    have hLengths : lower.length = upper.length := not_not.mp hSizes
    split
    · rename_i hCrossed
      refine .inr (.inl ⟨rfl, ?_⟩)
      rw [forall₂_le_iff]
      rintro ⟨-, hAll⟩
      obtain ⟨i, hi, hNot⟩ := List.any_eq_true.mp hCrossed
      simp only [List.mem_range, List.size_toArray] at hi
      simp [hAll i hi] at hNot
    · rename_i hCrossed
      have hOrdered : List.Forall₂ (· ≤ ·) lower upper := by
        refine forall₂_le_iff.mpr ⟨hLengths, ?_⟩
        intro i hi
        by_contra hNot
        exact hCrossed (List.any_eq_true.mpr ⟨i, List.mem_range.mpr hi, by simp [hNot]⟩)
      split
      · rename_i hFactor
        exact .inr (.inr (.inr ⟨rfl, hOrdered, hFactor⟩))
      · rename_i hFactor
        exact .inr (.inr (.inl ⟨rfl, hFactor⟩))

theorem Bounds.fault?_eq_none_iff {lower upper : List α} {beta : α} :
    fault? lower.toArray upper.toArray beta = none ↔
      List.Forall₂ (· ≤ ·) lower upper ∧ 0 < beta ∧ beta ≤ 1 := by
  rcases fault?_cases lower upper beta with ⟨hFault, h⟩ | ⟨hFault, h⟩ | ⟨hFault, h⟩ | ⟨hFault, h⟩
  · simp only [hFault, forall₂_le_iff, h, reduceCtorEq, false_and]
  · simp only [hFault, h, reduceCtorEq, false_and]
  · simp only [hFault, h, reduceCtorEq, and_false]
  · simp only [hFault, h, and_self]

theorem Bounds.forall₂_given (b : Bounds α) :
    List.Forall₂ (· ≤ ·) b.givenLower.toList b.givenUpper.toList ∧ 0 < b.beta ∧ b.beta ≤ 1 :=
  fault?_eq_none_iff.mp b.accepted

theorem Bounds.ordered (b : Bounds α) :
    (∀ i, i < b.size → b.givenLower.entry i ≤ b.givenUpper.entry i) ∧ 0 < b.beta ∧ b.beta ≤ 1 := by
  obtain ⟨hOrdered, hFactor⟩ := b.forall₂_given
  exact ⟨(forall₂_le_iff.mp hOrdered).2, hFactor⟩

theorem Bounds.size_givenUpper (b : Bounds α) : b.givenUpper.size = b.size :=
  (forall₂_le_iff.mp b.forall₂_given.1).1.symm

namespace ActivationConfig

theorem build_eq_ok_iff {a : ActivationConfig α} {n : Nat} {built : Activation α} :
    a.build n = .ok built ↔ a.Describes n built := by
  cases a with
  | quadratic =>
    constructor
    · rintro ⟨⟩
      exact .quadratic
    · rintro ⟨⟩
      rfl
  | weighted ws =>
    constructor
    · intro h
      obtain ⟨w, hMake, rfl⟩ := map_eq_ok.mp (CostError.ofModel_eq_ok_iff.mp h)
      exact .weighted (Weights.make_eq_ok_iff.mp hMake)
    · rintro ⟨⟩
      rename_i w hValues
      exact CostError.ofModel_eq_ok_iff.mpr (map_eq_ok.mpr ⟨w, Weights.make_eq_ok_iff.mpr hValues, rfl⟩)
  | barrier lower upper beta =>
    constructor
    · intro h
      obtain ⟨b, hMake, rfl⟩ := map_eq_ok.mp (CostError.ofModel_eq_ok_iff.mp h)
      obtain ⟨hLower, hUpper, hBeta⟩ := Bounds.make_eq_ok_iff.mp hMake
      exact .barrier hLower hUpper hBeta
    · rintro ⟨⟩
      rename_i b hLower hUpper hBeta
      exact CostError.ofModel_eq_ok_iff.mpr
        (map_eq_ok.mpr ⟨b, Bounds.make_eq_ok_iff.mpr ⟨hLower, hUpper, hBeta⟩, rfl⟩)

theorem exists_describes_iff {a : ActivationConfig α} {n : Nat} :
    (∃ built, a.Describes n built) ↔ a.Valid := by
  cases a with
  | quadratic => exact ⟨fun _ => trivial, fun _ => ⟨_, .quadratic⟩⟩
  | weighted ws =>
    rw [Valid, ← Weights.fault?_eq_none_iff]
    constructor
    · rintro ⟨_, ⟨⟩⟩
      rename_i w hValues
      rw [← hValues]
      exact w.accepted
    · intro hNone
      exact ⟨_, .weighted (w := ⟨ws.toArray, hNone⟩) rfl⟩
  | barrier lower upper beta =>
    rw [Valid, ← Bounds.fault?_eq_none_iff]
    constructor
    · rintro ⟨_, ⟨⟩⟩
      rename_i b hLower hUpper hBeta
      rw [← hLower, ← hUpper, ← hBeta]
      exact b.accepted
    · intro hNone
      exact ⟨_, .barrier (b := ⟨lower.toArray, upper.toArray, beta, hNone⟩) rfl rfl rfl⟩

theorem Describes.nr_eq {a : ActivationConfig α} {n : Nat} {built : Activation α}
    (h : a.Describes n built) : built.nr = a.components?.getD n := by
  cases h with
  | quadratic => rfl
  | weighted hValues => rw [Activation.nr, hValues, List.size_toArray, components?, Option.getD_some]
  | barrier hLower hUpper hBeta =>
    rw [Activation.nr, Bounds.size, hLower, List.size_toArray, components?, Option.getD_some]

theorem refused_of_build {a : ActivationConfig α} {n : Nat} {err : CostError α}
    (h : a.build n = .error err) : ∃ fault, err = .model fault ∧ a.Refused fault := by
  cases a with
  | quadratic => cases h
  | weighted ws =>
    obtain ⟨fault, hFault, rfl⟩ := CostError.ofModel_eq_error_iff.mp h
    have hMake := map_eq_error.mp hFault
    unfold Weights.make at hMake
    split at hMake
    · rename_i w hFound
      cases hMake
      have hMem : w ∈ ws.toArray := Array.mem_of_find?_eq_some hFound
      have hBad := Array.find?_some hFound
      refine ⟨_, rfl, .weight (List.mem_toArray.mp hMem) ?_⟩
      rintro ⟨hFinite, hNonneg⟩
      simp [hFinite, hNonneg] at hBad
    · cases hMake
  | barrier lower upper beta =>
    obtain ⟨fault, hFault, rfl⟩ := CostError.ofModel_eq_error_iff.mp h
    have hMake := map_eq_error.mp hFault
    unfold Bounds.make at hMake
    split at hMake
    · rename_i hFound
      cases hMake
      refine ⟨_, rfl, ?_⟩
      rcases Bounds.fault?_cases lower upper beta with
        ⟨hSome, hWhy⟩ | ⟨hSome, hWhy⟩ | ⟨hSome, hWhy⟩ | ⟨hNone, -⟩
      · obtain rfl := Option.some.inj (hFound.symm.trans hSome)
        exact .lengths hWhy
      · obtain rfl := Option.some.inj (hFound.symm.trans hSome)
        exact .crossed hWhy
      · obtain rfl := Option.some.inj (hFound.symm.trans hSome)
        exact .factor hWhy
      · cases hFound.symm.trans hNone
    · cases hMake

theorem Describes.unique {a : ActivationConfig α} {n : Nat} {built other : Activation α}
    (h : a.Describes n built) (h' : a.Describes n other) : built = other :=
  Except.ok.inj ((build_eq_ok_iff.mpr h).symm.trans (build_eq_ok_iff.mpr h'))

end ActivationConfig

end MultibodyCost
