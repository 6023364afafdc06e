import MultibodyCost.Cost.Outcome

/-! # Results and their agreement

What it means that two steps in a row succeed, and that two runs of one program agree: both stop at
the same fault, or both succeed with related values. An outcome has a result, which forgets what a
stopped evaluation left behind.
-/

namespace MultibodyCost

section Results

variable {ε β β' γ γ' : Type}

theorem bind_eq_ok {x : Except ε β} {f : β → Except ε γ} {c : γ} :
    x.bind f = .ok c ↔ ∃ b, x = .ok b ∧ f b = .ok c := by
  cases x with
  | error e =>
    constructor
    · intro h
      cases h
    · rintro ⟨b, hb, -⟩
      cases hb
  | ok b =>
    constructor
    · intro h
      exact ⟨b, rfl, h⟩
    · rintro ⟨b', hb, h⟩
      cases hb
      exact h

theorem bind_eq_error {x : Except ε β} {f : β → Except ε γ} {e : ε} :
    x.bind f = .error e ↔ x = .error e ∨ ∃ b, x = .ok b ∧ f b = .error e := by
  cases x with
  | error e' => simp [Except.bind]
  | ok b => simp [Except.bind]

theorem map_eq_ok {x : Except ε β} {f : β → γ} {c : γ} :
    x.map f = .ok c ↔ ∃ b, x = .ok b ∧ f b = c := by
  cases x with
  | error e => simp [Except.map]
  | ok b => simp [Except.map]

theorem map_map_eq (x : Except ε β) (f : β → β') (g : β' → γ) :
    (x.map f).map g = x.map fun b => g (f b) := by
  cases x <;> rfl

theorem map_eq_error {x : Except ε β} {f : β → γ} {e : ε} : x.map f = .error e ↔ x = .error e := by
  cases x with
  | error e' => simp [Except.map]
  | ok b => simp [Except.map]

/-- Both results are the same fault, or both are values that are related. -/
inductive Agree (R : β → β' → Prop) : Except ε β → Except ε β' → Prop
  | ok (b : β) (b' : β') (h : R b b') : Agree R (.ok b) (.ok b')
  | error (e : ε) : Agree R (.error e) (.error e)

namespace Agree

variable {R : β → β' → Prop} {S : γ → γ' → Prop}

theorem bind {x : Except ε β} {y : Except ε β'} (h : Agree R x y) {f : β → Except ε γ}
    {g : β' → Except ε γ'} (hNext : ∀ b b', R b b' → Agree S (f b) (g b')) :
    Agree S (x.bind f) (y.bind g) := by
  cases h with
  | ok b b' hR => exact hNext b b' hR
  | error e => exact .error e

theorem bind_same (x : Except ε β) {f : β → Except ε γ} {g : β → Except ε γ'}
    (hNext : ∀ b, x = .ok b → Agree S (f b) (g b)) : Agree S (x.bind f) (x.bind g) := by
  cases x with
  | ok b => exact hNext b rfl
  | error e => exact .error e

theorem mono {R' : β → β' → Prop} {x : Except ε β} {y : Except ε β'} (h : Agree R x y)
    (hR : ∀ b b', x = .ok b → y = .ok b' → R b b' → R' b b') : Agree R' x y := by
  cases h with
  | ok b b' hb => exact .ok b b' (hR b b' rfl rfl hb)
  | error e => exact .error e

theorem same (x : Except ε β) : Agree (fun b b' => b = b') x x := by
  cases x with
  | ok b => exact .ok b b rfl
  | error e => exact .error e

theorem eq {x y : Except ε β} (h : Agree (fun b b' => b = b') x y) : x = y := by
  cases h with
  | ok b b' hb => rw [hb]
  | error e => rfl

theorem map_eq {x : Except ε β} {y : Except ε β'} (h : Agree R x y) {f : β → γ} {g : β' → γ}
    (hR : ∀ b b', R b b' → f b = g b') : x.map f = y.map g := by
  cases h with
  | ok b b' hb => exact congrArg Except.ok (hR b b' hb)
  | error e => rfl

end Agree

theorem rel_bind {R : β → β' → Prop} {S : γ → γ' → Prop} {x : Option β} {y : Option β'}
    (h : Option.Rel R x y) {f : β → Option γ} {g : β' → Option γ'}
    (hNext : ∀ b b', R b b' → Option.Rel S (f b) (g b')) : Option.Rel S (x.bind f) (y.bind g) := by
  cases h with
  | some hR => exact hNext _ _ hR
  | none => exact .none

theorem rel_bind_same {S : γ → γ' → Prop} (x : Option β) {f : β → Option γ} {g : β → Option γ'}
    (hNext : ∀ b, Option.Rel S (f b) (g b)) : Option.Rel S (x.bind f) (x.bind g) := by
  cases x with
  | some b => exact hNext b
  | none => exact .none

end Results

namespace Outcome

variable {ε σ τ ι : Type}

def result : Outcome ε σ → Except ε σ
  | done d => .ok d
  | stopped _ e => .error e

theorem result_eq_ok_iff {o : Outcome ε σ} {d : σ} : o.result = .ok d ↔ o = .done d := by
  cases o with
  | done d' => simp [result]
  | stopped d' e => simp [result]

theorem fault?_eq_some_iff {o : Outcome ε σ} {e : ε} :
    o.fault? = some e ↔ ∃ left, o = .stopped left e := by
  cases o with
  | done d => simp [fault?]
  | stopped d e' => simp [fault?]

theorem exists_done {o : Outcome ε σ} (h : o.fault?.isNone = true) : ∃ d, o = .done d := by
  cases o with
  | done d => exact ⟨d, rfl⟩
  | stopped left fault => cases h

theorem data_of_result {o : Outcome ε σ} {d : σ} (h : o.result = .ok d) : o.data = d := by
  rw [result_eq_ok_iff.mp h]
  rfl

theorem attempt_eq_stopped {d left : σ} {x : Except ε σ} {e : ε} :
    attempt d x = .stopped left e ↔ left = d ∧ x = .error e := by
  cases x with
  | ok d' => simp [attempt]
  | error e' => simp [attempt, eq_comm]

theorem attempt_eq_done {d d' : σ} {x : Except ε σ} : attempt d x = .done d' ↔ x = .ok d' := by
  cases x with
  | ok d'' => simp [attempt]
  | error e => simp [attempt]

theorem reading_eq_stopped {β : Type} {d left : σ} {x : Except ε β} {next : β → Outcome ε σ} {e : ε} :
    reading d x next = .stopped left e ↔
      (left = d ∧ x = .error e) ∨ ∃ b, x = .ok b ∧ next b = .stopped left e := by
  cases x with
  | ok b => simp [reading]
  | error e' => simp [reading, eq_comm]

theorem reading_eq_done {β : Type} {d d' : σ} {x : Except ε β} {next : β → Outcome ε σ} :
    reading d x next = .done d' ↔ ∃ b, x = .ok b ∧ next b = .done d' := by
  cases x with
  | ok b => simp [reading]
  | error e => simp [reading]

theorem andThen_eq_done {o : Outcome ε σ} {next : σ → Outcome ε σ} {d' : σ} :
    o.andThen next = .done d' ↔ ∃ d, o = .done d ∧ next d = .done d' := by
  cases o with
  | done d => simp
  | stopped d e => simp

theorem andThen_eq_stopped {o : Outcome ε σ} {next : σ → Outcome ε σ} {left : σ} {e : ε} :
    o.andThen next = .stopped left e ↔
      o = .stopped left e ∨ ∃ d, o = .done d ∧ next d = .stopped left e := by
  cases o with
  | done d => simp
  | stopped d e' => simp

theorem result_attempt (d : σ) (x : Except ε σ) : (attempt d x).result = x := by
  cases x <;> rfl

theorem result_reading {β : Type} (d : σ) (x : Except ε β) (next : β → Outcome ε σ) :
    (reading d x next).result = x.bind fun b => (next b).result := by
  cases x <;> rfl

theorem result_andThen (o : Outcome ε σ) (next : σ → Outcome ε σ) :
    (o.andThen next).result = o.result.bind fun d => (next d).result := by
  cases o <;> rfl

theorem result_map (f : σ → τ) (o : Outcome ε σ) : (o.map f).result = o.result.map f := by
  cases o <;> rfl

theorem forEach_append (xs ys : List ι) (step : ι → σ → Outcome ε σ) (d : σ) :
    forEach (xs ++ ys) d step = (forEach xs d step).andThen fun d => forEach ys d step := by
  induction xs generalizing d with
  | nil => rfl
  | cons x xs ih =>
    rw [List.cons_append, forEach, forEach, andThen_assoc]
    simp only [ih]

theorem forEach_map {κ : Type} (f : κ → ι) (xs : List κ) (step : ι → σ → Outcome ε σ) (d : σ) :
    forEach (xs.map f) d step = forEach xs d fun x => step (f x) := by
  induction xs generalizing d with
  | nil => rfl
  | cons x xs ih =>
    rw [List.map_cons, forEach, forEach]
    exact congrArg _ (funext ih)

theorem forEach_stops {step : ι → σ → Outcome ε σ} {before : List ι} {x : ι} (after : List ι)
    {e : ε} (hBefore : ∀ y ∈ before, ∀ d, ∃ d', step y d = .done d')
    (hStop : ∀ d, ∃ left, step x d = .stopped left e) (d : σ) :
    ∃ left, forEach (before ++ x :: after) d step = .stopped left e := by
  induction before generalizing d with
  | nil =>
    obtain ⟨left, hLeft⟩ := hStop d
    rw [List.nil_append, forEach, hLeft]
    exact ⟨left, rfl⟩
  | cons y before ih =>
    obtain ⟨hHead, hRest⟩ := List.forall_mem_cons.mp hBefore
    obtain ⟨d', hDone⟩ := hHead d
    rw [List.cons_append, forEach, hDone]
    exact ih hRest d'

/-- Two runs over the numbers below `n`, with what relates them after each. -/
theorem agree_forEach_range {R : Nat → σ → τ → Prop} {d : σ} {e : τ} (h : R 0 d e)
    {step : Nat → σ → Outcome ε σ} {step' : Nat → τ → Outcome ε τ}
    (hStep : ∀ i d e, R i d e → Agree (R (i + 1)) (step i d).result (step' i e).result) (n : Nat) :
    Agree (R n) (forEach (List.range n) d step).result (forEach (List.range n) e step').result := by
  induction n with
  | zero => exact .ok d e h
  | succ n ih =>
    rw [List.range_succ, forEach_append, forEach_append, result_andThen, result_andThen]
    refine ih.bind fun d e hR => ?_
    rw [forEach, forEach, result_andThen, result_andThen]
    exact (hStep n d e hR).bind fun d e hNext => .ok d e hNext

theorem data_map (f : σ → τ) (o : Outcome ε σ) : (o.map f).data = f o.data := by
  cases o <;> rfl

variable {κ : Type}

theorem kept_attempt (kept : σ → κ) {d : σ} {x : Except ε σ}
    (h : ∀ d', x = .ok d' → kept d' = kept d) : kept (attempt d x).data = kept d := by
  cases x with
  | ok d' => exact h d' rfl
  | error e => rfl

theorem kept_reading {β : Type} (kept : σ → κ) {d : σ} {x : Except ε β} {next : β → Outcome ε σ}
    (h : ∀ b, x = .ok b → kept (next b).data = kept d) :
    kept (reading d x next).data = kept d := by
  cases x with
  | ok b => exact h b rfl
  | error e => rfl

theorem kept_andThen (kept : σ → κ) {o : Outcome ε σ} {next : σ → Outcome ε σ}
    (h : ∀ d, o = .done d → kept (next d).data = kept d) :
    kept (o.andThen next).data = kept o.data := by
  cases o with
  | done d => exact h d rfl
  | stopped d e => rfl

theorem kept_forEach (kept : σ → κ) (xs : List ι) {step : ι → σ → Outcome ε σ}
    (h : ∀ x d, kept (step x d).data = kept d) (d : σ) :
    kept (forEach xs d step).data = kept d := by
  induction xs generalizing d with
  | nil => rfl
  | cons x xs ih =>
    rw [forEach, kept_andThen kept fun d' _ => ih d', h x d]

end Outcome

end MultibodyCost
