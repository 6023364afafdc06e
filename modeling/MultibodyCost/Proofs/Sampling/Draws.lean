import MultibodyCost.Proofs.Geometry.Quaternion
import MultibodyCost.Proofs.Sampling.Runs

/-! # Draws in exact arithmetic

With exact arithmetic every draw from an interval takes one word and ends in the interval: the scale
of the closed interval needs no correction, and no draw from the half-open one is made again. So the
number of words that a sampler asks for is a function of the stream, and the sampler fails only where
the stream is shorter (`Takes`). A rotation asks for four words for each attempt of its rejection
loop.
-/

namespace MultibodyCost

/-- Exact scalars have no gaps between values. -/
noncomputable instance : Sampled ℝ where
  below x := x

namespace Sampler

section Takes

variable {β γ : Type}

/-- The sampler asks for as many words from the front of a stream as `count` says: where the stream
has them, it takes no others and draws a value that satisfies `p`. -/
def Takes (s : Sampler β) (count : List UInt64 → Nat) (p : β → Prop) : Prop :=
  ∀ words, s.Runs (· = words)
    (fun rest => count words ≤ words.length ∧ rest = words.drop (count words)) p
    fun e => e = .exhausted ∧ words.length < count words

theorem Takes.of_eq_ok {s : Sampler β} {count : List UInt64 → Nat} {p : β → Prop}
    (h : s.Takes count p) {words rest : List UInt64} {b : β} (hRun : s words = .ok (b, rest)) :
    p b ∧ count words ≤ words.length ∧ rest = words.drop (count words) :=
  (h words).of_eq_ok rfl hRun

theorem Takes.of_eq_error {s : Sampler β} {count : List UInt64 → Nat} {p : β → Prop}
    (h : s.Takes count p) {words : List UInt64} {e : SamplingFault} (hRun : s words = .error e) :
    e = .exhausted ∧ words.length < count words :=
  (h words).of_eq_error rfl hRun

theorem takes_pure {b : β} {p : β → Prop} (h : p b) : Takes (pure b) (fun _ => 0) p := by
  rintro words _ rfl
  exact ⟨h, Nat.zero_le _, rfl⟩

theorem Takes.bind {s : Sampler β} {count : List UInt64 → Nat} {p : β → Prop}
    (h : s.Takes count p) {f : β → Sampler γ} {next : List UInt64 → Nat} {q : γ → Prop}
    (hNext : ∀ b, p b → (f b).Takes next q) :
    Takes (s >>= f) (fun words => count words + next (words.drop (count words))) q := by
  intro words
  refine ((h words).mono (fun _ => id) (fun _ => id) (fun _ => id) ?_).bind fun b hb => ?_
  · rintro e ⟨he, hShort⟩
    exact ⟨he, Nat.lt_add_right _ hShort⟩
  · rintro left ⟨hFits, hLeft⟩
    refine (hNext b hb _).mono (fun _ => id) ?_ (fun _ => id) ?_ left hLeft
    · rintro rest ⟨hEnough, rfl⟩
      rw [List.length_drop] at hEnough
      exact ⟨Nat.add_le_of_le_sub' hFits hEnough, List.drop_drop⟩
    · rintro e ⟨he, hShort⟩
      rw [List.length_drop] at hShort
      exact ⟨he, (Nat.sub_lt_iff_lt_add' hFits).mp hShort⟩

theorem Takes.count_eq {s : Sampler β} {count count' : List UInt64 → Nat} {p : β → Prop}
    (h : s.Takes count p) (hCount : ∀ words, count words = count' words) : s.Takes count' p := by
  rwa [← funext hCount]

theorem Takes.mono {s : Sampler β} {count : List UInt64 → Nat} {p p' : β → Prop}
    (h : s.Takes count p) (hp : ∀ b, p b → p' b) : s.Takes count p' :=
  fun words => (h words).mono (fun _ => id) (fun _ => id) hp fun _ => id

theorem takes_replicate {s : Sampler β} {p : β → Prop} (h : s.Takes (fun _ => 1) p) (n : Nat) :
    (replicate n s).Takes (fun _ => n) fun xs => xs.length = n ∧ ∀ x ∈ xs, p x := by
  induction n with
  | zero => exact takes_pure ⟨rfl, fun x hx => nomatch hx⟩
  | succ n ih =>
    have hCons := h.bind fun x hx => ih.bind fun xs hxs => takes_pure
      (b := x :: xs) (p := fun ys => ys.length = n + 1 ∧ ∀ y ∈ ys, p y)
      ⟨congrArg Nat.succ hxs.1, List.forall_mem_cons.mpr ⟨hx, hxs.2⟩⟩
    exact hCons.count_eq fun words => Nat.add_comm 1 n

end Takes

theorem greatestFraction_real : (greatestFraction : ℝ) = 4503599627370495 / 4503599627370496 := by
  norm_num [greatestFraction]

theorem fraction_bounds (w : UInt64) : 0 ≤ (fraction w : ℝ) ∧ (fraction w : ℝ) ≤ greatestFraction := by
  have hWord : (w >>> 12).toNat ≤ 4503599627370495 := by
    have hLess := w.toNat_lt
    rw [UInt64.toNat_shiftRight, Nat.shiftRight_eq_div_pow]
    change w.toNat / 2 ^ 12 ≤ _
    omega
  have hCast : ((w >>> 12).toNat : ℝ) ≤ 4503599627370495 := by
    exact_mod_cast hWord
  have hScale : (4503599627370496.0 : ℝ) = 4503599627370496 := by norm_num
  rw [greatestFraction_real, fraction, Scalar.ofNat_real, hScale]
  exact ⟨div_nonneg (Nat.cast_nonneg _) (by norm_num),
    div_le_div_of_nonneg_right hCast (by norm_num)⟩

theorem greatestFraction_pos : 0 < (greatestFraction : ℝ) := by
  rw [greatestFraction_real]
  norm_num

theorem greatestFraction_lt_one : (greatestFraction : ℝ) < 1 := by
  rw [greatestFraction_real]
  norm_num

theorem closed_eq (lo hi : ℝ) :
    closed lo hi = do
      let w ← word
      return fraction w * ((hi - lo) / greatestFraction) + lo := by
  have hEnd : (hi - lo) / greatestFraction * greatestFraction + lo = hi := by
    rw [div_mul_cancel₀ _ greatestFraction_pos.ne', sub_add_cancel]
  have hFitted : fittedScale lo hi 64 ((hi - lo) / greatestFraction) =
      (hi - lo) / greatestFraction := by
    unfold fittedScale
    exact if_neg (by rw [hEnd]; exact lt_irrefl hi)
  simp only [closed, hFitted]
  rfl

theorem halfOpen_eq {lo hi : ℝ} (h : lo < hi) :
    halfOpen lo hi = do
      let w ← word
      return fraction w * (hi - lo) + lo := by
  funext words
  cases words with
  | nil => rfl
  | cons w words =>
    have hLess : fraction w * (hi - lo) + lo < hi := by
      have hScaled : fraction w * (hi - lo) < 1 * (hi - lo) :=
        mul_lt_mul_of_pos_right ((fraction_bounds w).2.trans_lt greatestFraction_lt_one)
          (sub_pos.mpr h)
      linarith
    change halfOpen.go lo hi (w :: words) = _
    unfold halfOpen.go
    exact if_pos hLess

theorem takes_word : word.Takes (fun _ => 1) fun _ => True := by
  intro words
  cases words with
  | nil =>
    rintro _ rfl
    exact ⟨rfl, Nat.zero_lt_one⟩
  | cons w words =>
    rintro _ rfl
    exact ⟨trivial, Nat.le_add_left 1 _, rfl⟩

theorem takes_closed {lo hi : ℝ} (h : lo ≤ hi) :
    (closed lo hi).Takes (fun _ => 1) fun r => lo ≤ r ∧ r ≤ hi := by
  rw [closed_eq]
  refine takes_word.bind fun w _ => takes_pure ?_
  obtain ⟨hNonneg, hLe⟩ := fraction_bounds w
  have hScale : 0 ≤ (hi - lo) / greatestFraction :=
    div_nonneg (sub_nonneg.mpr h) greatestFraction_pos.le
  have hLow : 0 ≤ fraction w * ((hi - lo) / greatestFraction) := mul_nonneg hNonneg hScale
  have hHigh : fraction w * ((hi - lo) / greatestFraction) ≤ hi - lo :=
    calc fraction w * ((hi - lo) / greatestFraction)
        ≤ greatestFraction * ((hi - lo) / greatestFraction) :=
          mul_le_mul_of_nonneg_right hLe hScale
      _ = hi - lo := mul_div_cancel₀ _ greatestFraction_pos.ne'
  exact ⟨by linarith, by linarith⟩

theorem run_rotation {α : Type} [Sampled α] (words : List UInt64) :
    (rotation : Sampler (Quaternion α)) words = (acceptedPoint (words.length + 1) words).bind
      fun (q : Quaternion α × List UInt64) => .ok (q.1.normalized, q.2) := rfl

noncomputable def point (x y z w : UInt64) : Quaternion ℝ :=
  ⟨fraction x * (1 - -1) + -1, fraction y * (1 - -1) + -1, fraction z * (1 - -1) + -1,
    fraction w * (1 - -1) + -1⟩

/-- How many attempts the rejection loop makes on a stream, one on which the stream ends included. -/
noncomputable def attempts : List UInt64 → Nat
  | x :: y :: z :: w :: words => if accepts (point x y z w) then 1 else attempts words + 1
  | _ => 1

theorem attempts_cons (x y z w : UInt64) (words : List UInt64) :
    attempts (x :: y :: z :: w :: words) =
      if accepts (point x y z w) then 1 else attempts words + 1 := by
  rw [attempts]

theorem exists_four {words : List UInt64} (h : 4 ≤ words.length) :
    ∃ x y z w rest, words = x :: y :: z :: w :: rest := by
  match words, h with
  | x :: y :: z :: w :: rest, _ => exact ⟨x, y, z, w, rest, rfl⟩

theorem attempts_of_short {words : List UInt64} (h : words.length < 4) : attempts words = 1 := by
  match words, h with
  | [], _ | [_], _ | [_, _], _ | [_, _, _], _ => rfl

theorem one_le_attempts (words : List UInt64) : 1 ≤ attempts words := by
  unfold attempts
  split
  · split
    · exact Nat.le_refl 1
    · exact Nat.le_add_left 1 _
  · exact Nat.le_refl 1

theorem cubePoint_eq : (cubePoint : Sampler (Quaternion ℝ)) = do
    let x ← word
    let y ← word
    let z ← word
    let w ← word
    return point x y z w := by
  have hOrder : (-1 : ℝ) < 1 := by norm_num
  simp only [cubePoint, halfOpen_eq hOrder, bind_assoc, pure_bind, point]

theorem cubePoint_cons (x y z w : UInt64) (words : List UInt64) :
    cubePoint (x :: y :: z :: w :: words) = .ok (point x y z w, words) := by
  rw [cubePoint_eq]
  rfl

theorem acceptedPoint_of_short {words : List UInt64} (h : words.length < 4) (bound : Nat) :
    (acceptedPoint bound words : Except SamplingFault (Quaternion ℝ × List UInt64)) =
      .error .exhausted := by
  cases bound with
  | zero => rfl
  | succ bound =>
    simp only [acceptedPoint, cubePoint_eq]
    match words, h with
    | [], _ | [_], _ | [_, _], _ | [_, _, _], _ => rfl

theorem acceptedPoint_succ (bound : Nat) (x y z w : UInt64) (words : List UInt64) :
    acceptedPoint (bound + 1) (x :: y :: z :: w :: words) =
      if accepts (point x y z w) then .ok (point x y z w, words) else acceptedPoint bound words := by
  have hStep : acceptedPoint (bound + 1) (x :: y :: z :: w :: words) =
      (if accepts (point x y z w) then pure (point x y z w) else acceptedPoint bound :
        Sampler (Quaternion ℝ)) words := by
    change (cubePoint (x :: y :: z :: w :: words)).bind _ = _
    rw [cubePoint_cons]
    rfl
  rw [hStep]
  split
  · rfl
  · rfl

/-- Every bound above the number of words is as good as another. -/
theorem acceptedPoint_of_length_lt {n m : Nat} {words : List UInt64} (hn : words.length < n)
    (hm : words.length < m) :
    (acceptedPoint n words : Except SamplingFault (Quaternion ℝ × List UInt64)) =
      acceptedPoint m words := by
  induction n generalizing m words with
  | zero => exact absurd hn (Nat.not_lt_zero _)
  | succ n ih =>
    obtain ⟨m, rfl⟩ := Nat.exists_eq_succ_of_ne_zero (Nat.ne_zero_of_lt hm)
    by_cases hShort : words.length < 4
    · rw [acceptedPoint_of_short hShort, acceptedPoint_of_short hShort]
    · obtain ⟨x, y, z, w, words, rfl⟩ := exists_four (Nat.le_of_not_lt hShort)
      simp only [List.length_cons] at hn hm
      have hLeft : (acceptedPoint n words : Except SamplingFault (Quaternion ℝ × List UInt64)) =
          acceptedPoint m words := ih (by omega) (by omega)
      rw [acceptedPoint_succ, acceptedPoint_succ, hLeft]

theorem rotation_cons (x y z w : UInt64) (words : List UInt64) :
    rotation (x :: y :: z :: w :: words) =
      if accepts (point x y z w) then .ok ((point x y z w).normalized, words)
      else rotation words := by
  rw [run_rotation, run_rotation, acceptedPoint_succ]
  split
  · rfl
  · rw [acceptedPoint_of_length_lt (by simp only [List.length_cons]; omega) (Nat.lt_succ_self _)]

theorem normSq_of_accepts {q : Quaternion ℝ} (h : accepts q = true) : q.normSq ≠ 0 := by
  intro hZero
  have hNorm : q.norm = 0 := by
    change Real.sqrt q.normSq = 0
    rw [hZero, Real.sqrt_zero]
  have hLong : (1e-3 : ℝ) < q.norm := (of_decide_eq_true (Bool.and_eq_true _ _ ▸ h).1)
  rw [hNorm] at hLong
  norm_num at hLong

theorem rotation_of_short {words : List UInt64} (h : words.length < 4) :
    (rotation words : Except SamplingFault (Quaternion ℝ × List UInt64)) = .error .exhausted := by
  have hLoop := acceptedPoint_of_short h (words.length + 1)
  exact bind_eq_error.mpr (.inl hLoop)

theorem takes_rotation :
    rotation.Takes (fun words => 4 * attempts words) fun q : Quaternion ℝ => q.normSq = 1 := by
  intro words
  induction words using attempts.induct with
  | case1 x y z w words hAccepted =>
    rintro _ rfl
    simp only [rotation_cons, attempts_cons, if_pos hAccepted]
    exact ⟨Quaternion.normSq_normalized (normSq_of_accepts hAccepted), Nat.le_add_left 4 _, rfl⟩
  | case2 x y z w words hRejected ih =>
    rintro _ rfl
    simp only [rotation_cons, attempts_cons, if_neg hRejected]
    cases hRun : (rotation words : Except SamplingFault (Quaternion ℝ × List UInt64)) with
    | ok drawn =>
      obtain ⟨hUnit, hFits, hRest⟩ := ih.of_eq_ok rfl hRun
      exact ⟨hUnit, Nat.add_le_add_right hFits 4, hRest⟩
    | error e =>
      obtain ⟨he, hShort⟩ := ih.of_eq_error rfl hRun
      exact ⟨he, Nat.add_lt_add_right hShort 4⟩
  | case3 words hFewer =>
    have hShort : words.length < 4 := by
      by_contra hLong
      obtain ⟨x, y, z, w, rest, hWords⟩ := exists_four (Nat.le_of_not_lt hLong)
      exact hFewer x y z w rest hWords
    rintro _ rfl
    simp only [attempts_of_short hShort, rotation_of_short hShort]
    exact ⟨trivial, hShort⟩

end Sampler

end MultibodyCost
