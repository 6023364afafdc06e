import MultibodyCost.Proofs.Result
import MultibodyCost.Sampling.Geometry

/-! # Runs of samplers

What a sampler draws, what it leaves of the words and how it may fail are stated in one form, for all
words of a kind. A sampler that is put together from others runs by the rules of this form: of a
value, of a draw after another, and of draws in a row. Draws from a half-open interval need no finite
scale, so a rotation fails only where the words end.
-/

namespace MultibodyCost.Sampler

variable {β γ : Type}

theorem run_bind (s : Sampler β) (f : β → Sampler γ) (words : List UInt64) :
    (s >>= f) words = (s words).bind fun drawn => f drawn.1 drawn.2 := rfl

/-- From words in `A` the sampler draws a value in `p` and leaves words in `B`, or it ends with a
fault in `F`. -/
def Runs (s : Sampler β) (A B : List UInt64 → Prop) (p : β → Prop) (F : SamplingFault → Prop) :
    Prop :=
  ∀ words, A words →
    match s words with
    | .ok (b, rest) => p b ∧ B rest
    | .error e => F e

section Rules

variable {s : Sampler β} {A A' B B' : List UInt64 → Prop} {p p' : β → Prop}
  {F F' : SamplingFault → Prop}

theorem Runs.of_eq_ok (h : s.Runs A B p F) {words rest : List UInt64} (hA : A words) {b : β}
    (hRun : s words = .ok (b, rest)) : p b ∧ B rest := by
  have hEnd := h words hA
  rwa [hRun] at hEnd

theorem Runs.of_eq_error (h : s.Runs A B p F) {words : List UInt64} (hA : A words)
    {e : SamplingFault} (hRun : s words = .error e) : F e := by
  have hEnd := h words hA
  rwa [hRun] at hEnd

theorem Runs.mono (h : s.Runs A B p F) (hA : ∀ words, A' words → A words)
    (hB : ∀ rest, B rest → B' rest) (hp : ∀ b, p b → p' b) (hF : ∀ e, F e → F' e) :
    s.Runs A' B' p' F' := by
  intro words hWords
  cases hRun : s words with
  | error e => exact hF e (h.of_eq_error (hA words hWords) hRun)
  | ok drawn =>
    obtain ⟨hb, hRest⟩ := h.of_eq_ok (hA words hWords) hRun
    exact ⟨hp _ hb, hB _ hRest⟩

theorem runs_pure {b : β} (h : p b) : Runs (pure b) A A p F := fun _ hA => ⟨h, hA⟩

theorem Runs.bind (h : s.Runs A B p F) {f : β → Sampler γ} {q : γ → Prop} {C : List UInt64 → Prop}
    (hNext : ∀ b, p b → (f b).Runs B C q F) : Runs (s >>= f) A C q F := by
  intro words hA
  rw [run_bind]
  cases hRun : s words with
  | error e => exact h.of_eq_error hA hRun
  | ok drawn =>
    obtain ⟨hb, hRest⟩ := h.of_eq_ok hA hRun
    exact hNext drawn.1 hb drawn.2 hRest

theorem runs_replicate {A : Nat → List UInt64 → Prop} (h : ∀ i, s.Runs (A (i + 1)) (A i) p F)
    (n : Nat) :
    (replicate n s).Runs (A n) (A 0) (fun bs => bs.length = n ∧ ∀ b ∈ bs, p b) F := by
  induction n with
  | zero => exact runs_pure ⟨rfl, fun b hb => nomatch hb⟩
  | succ n ih =>
    refine (h n).bind fun b hb => ih.bind fun bs hbs => runs_pure ?_
    exact ⟨congrArg Nat.succ hbs.1, List.forall_mem_cons.mpr ⟨hb, hbs.2⟩⟩

end Rules

abbrev anyWords : List UInt64 → Prop := fun _ => True

theorem runs_any (s : Sampler β) : s.Runs anyWords anyWords (fun _ => True) fun _ => True := by
  intro words _
  split
  · exact ⟨trivial, trivial⟩
  · trivial

theorem runs_word : word.Runs anyWords anyWords (fun _ => True) (· = .exhausted) := by
  intro words _
  cases words with
  | nil => rfl
  | cons w words => exact ⟨trivial, trivial⟩

variable {α : Type} [Sampled α]

theorem runs_halfOpen (lo hi : α) :
    (halfOpen lo hi).Runs anyWords anyWords (fun _ => True) (· = .exhausted) := by
  intro words _
  induction words with
  | nil => rfl
  | cons w words ih =>
    by_cases h : fraction w * (hi - lo) + lo < hi
    · have hRun : halfOpen lo hi (w :: words) = .ok (fraction w * (hi - lo) + lo, words) := if_pos h
      rw [hRun]
      exact ⟨trivial, trivial⟩
    · have hRun : halfOpen lo hi (w :: words) = halfOpen lo hi words := if_neg h
      rw [hRun]
      exact ih trivial

theorem runs_cubePoint :
    (cubePoint : Sampler (Quaternion α)).Runs anyWords anyWords (fun _ => True) (· = .exhausted) :=
  (runs_halfOpen _ _).bind fun _ _ => (runs_halfOpen _ _).bind fun _ _ =>
    (runs_halfOpen _ _).bind fun _ _ => (runs_halfOpen _ _).bind fun _ _ => runs_pure trivial

theorem runs_acceptedPoint (attempts : Nat) :
    (acceptedPoint attempts : Sampler (Quaternion α)).Runs anyWords anyWords (fun _ => True)
      (· = .exhausted) := by
  induction attempts with
  | zero => exact fun words _ => rfl
  | succ attempts ih =>
    refine runs_cubePoint.bind fun q _ => ?_
    split
    · exact runs_pure trivial
    · exact ih

theorem runs_rotation :
    (rotation : Sampler (Quaternion α)).Runs anyWords anyWords (fun _ => True) (· = .exhausted) :=
  fun words => ((runs_acceptedPoint (words.length + 1)).bind fun _ _ => runs_pure trivial) words

theorem runs_mat (rows cols : Nat) : (mat rows cols : Sampler (Mat α)).Runs anyWords anyWords
    (fun m => m.rows = rows ∧ m.cols = cols) fun _ => True :=
  (runs_any _).bind fun _ _ => runs_pure ⟨rfl, rfl⟩

end MultibodyCost.Sampler
