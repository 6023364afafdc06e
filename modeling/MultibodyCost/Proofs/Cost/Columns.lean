import MultibodyCost.Proofs.Cost.Kept
import MultibodyCost.Proofs.Linear.Filling

/-! # Columns of difference quotients

The Jacobians by differences are filled from the first column on. Filling ends at the first quotient
that fails, with the columns before it new and all others as they were.
-/

namespace MultibodyCost

variable {α : Type}

namespace Outcome

variable {ε σ β : Type} {q : Nat → Except ε β} {put : Nat → β → σ → σ} {col : Nat → β} {d : σ}

theorem forEach_fill (filled : Nat → σ) (hStart : filled 0 = d)
    (hPut : ∀ k, put k (col k) (filled k) = filled (k + 1)) {n : Nat}
    (h : ∀ i, i < n → q i = .ok (col i)) :
    forEach (List.range n) d (fun i d => attempt d ((q i).map fun v => put i v d)) =
      .done (filled n) := by
  induction n with
  | zero => exact congrArg done hStart.symm
  | succ n ih =>
    rw [List.range_succ, forEach_append, ih fun i hi => h i (Nat.lt_succ_of_lt hi), andThen_done,
      forEach, h n (Nat.lt_succ_self n), ← hPut n]
    rfl

theorem forEach_fill_stops (filled : Nat → σ) (hStart : filled 0 = d)
    (hPut : ∀ k, put k (col k) (filled k) = filled (k + 1)) {k n : Nat} (hk : k < n)
    (h : ∀ i, i < k → q i = .ok (col i)) {e : ε} (hStop : q k = .error e) :
    forEach (List.range n) d (fun i d => attempt d ((q i).map fun v => put i v d)) =
      .stopped (filled k) e := by
  obtain ⟨m, rfl⟩ := Nat.exists_eq_add_of_lt hk
  have hSplit : List.range (k + m + 1) =
      List.range k ++ k :: (List.range m).map (k + Nat.succ ·) := by
    rw [Nat.add_assoc, List.range_add, List.range_succ_eq_map, List.map_cons, List.map_map]
    rfl
  rw [hSplit, forEach_append, forEach_fill filled hStart hPut h, andThen_done, forEach, hStop]
  rfl

end Outcome

theorem exists_first_error {ε β : Type} [Inhabited β] (q : Nat → Except ε β) (n : Nat) :
    (∃ col : Nat → β, ∀ i, i < n → q i = .ok (col i)) ∨
      ∃ (k : Nat) (e : ε) (col : Nat → β),
        k < n ∧ q k = .error e ∧ ∀ i, i < k → q i = .ok (col i) := by
  induction n with
  | zero => exact .inl ⟨fun _ => default, fun i hi => absurd hi (Nat.not_lt_zero i)⟩
  | succ n ih =>
    rcases ih with ⟨col, hOk⟩ | ⟨k, e, col, hk, hStop, hOk⟩
    · cases hLast : q n with
      | error e => exact .inr ⟨n, e, col, Nat.lt_succ_self n, hLast, hOk⟩
      | ok v =>
        refine .inl ⟨fun i => if i = n then v else col i, fun i hi => ?_⟩
        by_cases hi' : i = n
        · simp only [hi', hLast, if_true]
        · simp only [hi', if_false, hOk i (by omega)]
    · exact .inr ⟨k, e, col, Nat.lt_succ_of_lt hk, hStop, hOk⟩

section Scalar

variable [Scalar α]

namespace Mat

def withColumns (m : Mat α) (k : Nat) (col : Nat → Vec α) : Mat α :=
  ofFn m.rows m.cols fun i j => if j < k then (col j).entry i else m.entry i j

theorem withColumns_zero (m : Mat α) (col : Nat → Vec α) : m.withColumns 0 col = m :=
  ext_entry rfl rfl fun i j hi hj => by
    replace hi : i < m.rows := hi
    replace hj : j < m.cols := hj
    rw [withColumns, entry_ofFn_of_lt hi hj, if_neg (Nat.not_lt_zero j)]

theorem withColumns_eq {m n : Mat α} {col : Nat → Vec α} (hRows : m.rows = n.rows)
    (hCols : m.cols = n.cols)
    (h : ∀ i j, i < n.rows → j < n.cols → (col j).entry i = n.entry i j) :
    m.withColumns n.cols col = n :=
  ext_entry hRows hCols fun i j hi hj => by
    replace hi : i < m.rows := hi
    replace hj : j < m.cols := hj
    rw [withColumns, entry_ofFn_of_lt hi hj, if_pos (hCols ▸ hj)]
    exact h i j (hRows ▸ hi) (hCols ▸ hj)

theorem putColumn_withColumns (m : Mat α) (k : Nat) (col : Nat → Vec α) :
    (m.withColumns k col).putColumn k (col k) = m.withColumns (k + 1) col := by
  refine ext_entry rfl rfl fun i j hi hj => ?_
  replace hi : i < m.rows := hi
  replace hj : j < m.cols := hj
  have hIn : i < (m.withColumns k col).rows ∧ j < (m.withColumns k col).cols := ⟨hi, hj⟩
  rw [putColumn, entry_ofFn_of_lt hIn.1 hIn.2, withColumns, withColumns, entry_ofFn_of_lt hi hj,
    entry_ofFn_of_lt hi hj]
  by_cases hLast : j = k
  · rw [if_pos hLast, if_pos (by omega), hLast]
  · rw [if_neg hLast]
    by_cases hBefore : j < k
    · rw [if_pos hBefore, if_pos (by omega)]
    · rw [if_neg hBefore, if_neg (by omega)]

end Mat

namespace CostData

def stateColumns (d : CostData α) (k : Nat) (col : Nat → Vec α) : CostData α :=
  { d with rx := d.rx.withColumns k col }

def controlColumns (d : CostData α) (k : Nat) (col : Nat → Vec α) : CostData α :=
  { d with ru := d.ru.withColumns k col }

theorem stateColumns_zero (d : CostData α) (col : Nat → Vec α) : d.stateColumns 0 col = d := by
  rw [stateColumns, Mat.withColumns_zero]

theorem controlColumns_zero (d : CostData α) (col : Nat → Vec α) : d.controlColumns 0 col = d := by
  rw [controlColumns, Mat.withColumns_zero]

theorem put_stateColumns (d : CostData α) (col : Nat → Vec α) (k : Nat) :
    { d.stateColumns k col with rx := (d.stateColumns k col).rx.putColumn k (col k) } =
      d.stateColumns (k + 1) col := by
  rw [stateColumns, stateColumns, Mat.putColumn_withColumns]

theorem put_controlColumns (d : CostData α) (col : Nat → Vec α) (k : Nat) :
    { d.controlColumns k col with ru := (d.controlColumns k col).ru.putColumn k (col k) } =
      d.controlColumns (k + 1) col := by
  rw [controlColumns, controlColumns, Mat.putColumn_withColumns]

end CostData

end Scalar

namespace Cost

variable [Elementary α]

/-- How filling the Jacobians by quotients ends: with all columns, or before the first coordinate of
the tangent or of the control whose quotient fails. -/
inductive Fills (c : Cost α) (update? : Option (KinematicsUpdate α)) (h : α) (args : Arguments α)
    (d : CostData α) : Evaluation α → Prop
  | done {a b : Nat → Vec α}
      (hState : ∀ i, i < c.state.ndx → c.stateQuotient update? h args d.r i = .ok (a i))
      (hControl : ∀ j, j < args.u.size → c.controlQuotient h args d.r j = .ok (b j)) :
      Fills c update? h args d
        (.done ((d.stateColumns c.state.ndx a).controlColumns args.u.size b))
  | state {a : Nat → Vec α} {k : Nat} {fault : Fault α} (hk : k < c.state.ndx)
      (hState : ∀ i, i < k → c.stateQuotient update? h args d.r i = .ok (a i))
      (hStop : c.stateQuotient update? h args d.r k = .error fault) :
      Fills c update? h args d (.stopped (d.stateColumns k a) fault)
  | control {a b : Nat → Vec α} {k : Nat} {fault : Fault α} (hk : k < args.u.size)
      (hState : ∀ i, i < c.state.ndx → c.stateQuotient update? h args d.r i = .ok (a i))
      (hControl : ∀ j, j < k → c.controlQuotient h args d.r j = .ok (b j))
      (hStop : c.controlQuotient h args d.r k = .error fault) :
      Fills c update? h args d
        (.stopped ((d.stateColumns c.state.ndx a).controlColumns k b) fault)

theorem fills_fillQuotients (c : Cost α) (update? : Option (KinematicsUpdate α)) (h : α)
    (args : Arguments α) (d : CostData α) :
    c.Fills update? h args d (c.fillQuotients update? h args d) := by
  unfold fillQuotients
  dsimp only
  rcases exists_first_error (c.stateQuotient update? h args d.r) c.state.ndx with
    ⟨a, hState⟩ | ⟨k, fault, a, hk, hStop, hState⟩
  · rw [Outcome.forEach_fill (d.stateColumns · a) (d.stateColumns_zero a) (d.put_stateColumns a)
      hState, Outcome.andThen_done]
    have hPut := (d.stateColumns c.state.ndx a).put_controlColumns
    have hStart := (d.stateColumns c.state.ndx a).controlColumns_zero
    rcases exists_first_error (c.controlQuotient h args d.r) args.u.size with
      ⟨b, hControl⟩ | ⟨k, fault, b, hk, hStop, hControl⟩
    · rw [Outcome.forEach_fill ((d.stateColumns c.state.ndx a).controlColumns · b) (hStart b)
        (hPut b) hControl]
      exact .done hState hControl
    · rw [Outcome.forEach_fill_stops ((d.stateColumns c.state.ndx a).controlColumns · b) (hStart b)
        (hPut b) hk hControl hStop]
      exact .control hk hState hControl hStop
  · rw [Outcome.forEach_fill_stops (d.stateColumns · a) (d.stateColumns_zero a)
      (d.put_stateColumns a) hk hState hStop, Outcome.andThen_stopped]
    exact .state hk hState hStop

end Cost

end MultibodyCost
