import MultibodyCost.Proofs.State.Diagonal
import MultibodyCost.Proofs.State.RoundTrip

/-! # What the offsets of a built model amount to

On the states of a built model every operation is the one of the product of its joints, whose
definition knows no offset. Every coordinate is of one joint or a velocity, so a joint that moves
changes its own part of a difference only. Vectors of other lengths are refused, the state first.
-/

namespace MultibodyCost

variable {α : Type}

theorem ModelError.check_eq_error_iff {d : Dimension} {ds : List Dimension} {e : ModelError α} :
    check (d :: ds) = .error e ↔
      (d.got ≠ d.expected ∧ e = .dimension d) ∨ d.got = d.expected ∧ check ds = .error e := by
  by_cases h : d.expected = d.got
  · simp [check, Dimension.mismatch?, h]
  · simp [check, Dimension.mismatch?, h, Ne.symm h, eq_comm]

theorem ModelError.check_nil_ne_error {e : ModelError α} : check [] ≠ .error e := by
  rintro ⟨⟩

theorem bind_total_eq_error {ε β γ : Type} {x : Except ε β} {f : β → Except ε γ} {e : ε}
    (h : ∀ b, f b ≠ .error e) : x.bind f = .error e ↔ x = .error e := by
  rw [bind_eq_error]
  exact or_iff_left fun ⟨b, _, hb⟩ => h b hb

namespace Multibody

/-- The operations on vectors of the right lengths are those of the product of the joints. -/
structure IsProduct [Elementary α] (s : Multibody α) : Prop where
  nx : s.nx = (s.kinds.map JointKind.nq).sum + (s.kinds.map JointKind.nv).sum
  ndx : s.ndx = 2 * (s.kinds.map JointKind.nv).sum
  zero : s.zero = (Product.zero s.kinds).toArray
  diff : ∀ x0 x1, x0.size = s.nx → x1.size = s.nx →
    s.diff x0 x1 = .ok (Product.diff s.kinds x0.toList x1.toList).toArray
  integrate : ∀ x dx, x.size = s.nx → dx.size = s.ndx →
    s.integrate x dx = .ok (Product.integrate s.kinds x.toList dx.toList).toArray
  jdiff : ∀ wanted x0 x1, x0.size = s.nx → x1.size = s.nx →
    let d := Product.diff s.kinds x0.toList x1.toList
    s.jdiff x0 x1 wanted = .ok (.select wanted (Product.jacobian (-1) diffFirst s.kinds d)
      (Product.jacobian 1 diffSecond s.kinds d))
  jintegrate : ∀ wanted x dx, x.size = s.nx → dx.size = s.ndx →
    s.jintegrate x dx wanted = .ok (.select wanted
      (Product.jacobian 1 integrateFirst s.kinds dx.toList)
      (Product.jacobian 1 integrateSecond s.kinds dx.toList))

/-- Why a state and an argument that should have `n` entries are refused. -/
def RefusedLengths (s : Multibody α) (x y : Vec α) (quantity : Quantity) (n : Nat)
    (e : ModelError α) : Prop :=
  (x.size ≠ s.nx ∧ e = .dimension ⟨.state, s.nx, x.size⟩) ∨
    (x.size = s.nx ∧ y.size ≠ n ∧ e = .dimension ⟨quantity, n, y.size⟩)

structure ChecksLengths [Elementary α] (s : Multibody α) : Prop where
  split : ∀ x e, s.split x = .error e ↔ x.size ≠ s.nx ∧ e = .dimension ⟨.state, s.nx, x.size⟩
  diff : ∀ x0 x1 e, s.diff x0 x1 = .error e ↔ s.RefusedLengths x0 x1 .state s.nx e
  integrate : ∀ x dx e, s.integrate x dx = .error e ↔ s.RefusedLengths x dx .tangent s.ndx e
  jdiff : ∀ wanted x0 x1 e,
    s.jdiff x0 x1 wanted = .error e ↔ s.RefusedLengths x0 x1 .state s.nx e
  jintegrate : ∀ wanted x dx e,
    s.jintegrate x dx wanted = .error e ↔ s.RefusedLengths x dx .tangent s.ndx e

variable [Elementary α] {s : Multibody α}

theorem isProduct (h : s.model.WellFormed) : s.IsProduct where
  nx := by rw [Multibody.nx, nq_eq_sum h, nv_eq_sum h]
  ndx := by rw [Multibody.ndx, nv_eq_sum h]
  zero := by rw [← toList_zero h]
  diff x0 x1 h0 h1 := by
    obtain ⟨d, hDiff, hd⟩ := exists_diff h h0 h1
    rw [hDiff, ← hd.toList_eq h h0 h1]
  integrate x dx hx hdx := by
    obtain ⟨y, hIntegrate, hy⟩ := exists_increment h hx hdx
    rw [hIntegrate, ← hy.toList_eq h hx hdx]
  jdiff wanted x0 x1 h0 h1 := by
    obtain ⟨d, hDiff, hd⟩ := exists_diff h h0 h1
    intro d'
    have hProduct : d' = d.toList := (hd.toList_eq h h0 h1).symm
    rw [jdiff, hDiff, hProduct, ← blockJacobian_eq h (-1) diffFirst hd.size,
      ← blockJacobian_eq h 1 diffSecond hd.size]
    rfl
  jintegrate wanted x dx hx hdx := by
    rw [jintegrate, checkStep_eq_ok hx hdx, ← blockJacobian_eq h 1 integrateFirst hdx,
      ← blockJacobian_eq h 1 integrateSecond hdx]
    rfl

omit [Elementary α] in
theorem check_state_eq_error_iff {x : Vec α} {e : ModelError α} :
    s.checkState x = .error e ↔ x.size ≠ s.nx ∧ e = .dimension ⟨.state, s.nx, x.size⟩ := by
  rw [checkState, ModelError.check_eq_error_iff]
  simp [ModelError.check_nil_ne_error]

omit [Elementary α] in
theorem check_pair_eq_error_iff {x y : Vec α} {quantity : Quantity} {n : Nat} {e : ModelError α} :
    ModelError.check [⟨.state, s.nx, x.size⟩, ⟨quantity, n, y.size⟩] = .error e ↔
      s.RefusedLengths x y quantity n e := by
  rw [ModelError.check_eq_error_iff, ModelError.check_eq_error_iff]
  simp [ModelError.check_nil_ne_error, RefusedLengths]

omit [Elementary α] in
theorem check_states {β : Type} (x0 x1 : Vec α) (f : Unit → Except (ModelError α) β) :
    ((s.checkState x0).bind fun _ => (s.checkState x1).bind f) =
      (ModelError.check [⟨.state, s.nx, x0.size⟩, ⟨.state, s.nx, x1.size⟩]).bind f := by
  by_cases h : s.nx = x0.size
  · simp [checkState, ModelError.check, Dimension.mismatch?, h, Except.bind]
  · simp [checkState, ModelError.check, Dimension.mismatch?, h, Except.bind]

theorem diff_eq_error_iff {x0 x1 : Vec α} {e : ModelError α} :
    s.diff x0 x1 = .error e ↔ s.RefusedLengths x0 x1 .state s.nx e := by
  rw [← check_pair_eq_error_iff]
  change ((s.checkState x0).bind fun _ => (s.checkState x1).bind fun _ => _) = _ ↔ _
  rw [check_states]
  exact bind_total_eq_error fun _ h => by cases h

theorem checksLengths (s : Multibody α) : s.ChecksLengths where
  split x e := (bind_total_eq_error fun _ h => by cases h).trans check_state_eq_error_iff
  diff x0 x1 e := diff_eq_error_iff
  integrate x dx e := (bind_total_eq_error fun _ h => by cases h).trans check_pair_eq_error_iff
  jdiff wanted x0 x1 e := (bind_total_eq_error fun _ h => by cases h).trans diff_eq_error_iff
  jintegrate wanted x dx e := (bind_total_eq_error fun _ h => by cases h).trans check_pair_eq_error_iff

end Multibody

end MultibodyCost
