import Mathlib.Logic.Basic
import MultibodyCost.Cost.Basic
import MultibodyCost.Proofs.Result

/-! # What the calls of a cost keep in its data

Some buffers are set when data is created and not by the evaluations that read them: the Hessian of
the quadratic activations, the control Jacobian of a residual that does not depend on the control,
the state Jacobian of one that does not depend on the state. Of all other buffers an evaluation
keeps the dimensions. Together they are the kept part of the data, and no call changes it, also
where it stops halfway.
-/

namespace MultibodyCost

def Mat.blank {α : Type} [Scalar α] (m : Mat α) : Mat α := Mat.zeros m.rows m.cols

/-- The part of the data of a cost that its calls keep. -/
structure Kept (α : Type) where
  residual : Nat
  gradient : Nat
  hessian : Mat α
  rx : Mat α
  ru : Mat α
  lx : Nat
  lu : Nat

variable {α : Type}

section Scalar

variable [Scalar α]

theorem Mat.blank_eq_iff {m n : Mat α} : m.blank = n.blank ↔ m.rows = n.rows ∧ m.cols = n.cols := by
  constructor
  · intro h
    have hRows : m.blank.rows = n.blank.rows := by rw [h]
    have hCols : m.blank.cols = n.blank.cols := by rw [h]
    exact ⟨hRows, hCols⟩
  · rintro ⟨hRows, hCols⟩
    rw [blank, blank, hRows, hCols]

/-- The Hessian where it is constant, its dimensions where it is not. -/
def Activation.keptHessian (a : Activation α) (hessian : Mat α) : Mat α :=
  match a with
  | .barrier _ => hessian.blank
  | _ => hessian

namespace Residual

def keptState (residual : Residual α) (rx : Mat α) : Mat α :=
  match residual with
  | control _ => rx
  | _ => rx.blank

def keptControl (residual : Residual α) (ru : Mat α) : Mat α :=
  match residual with
  | control _ => ru.blank
  | _ => ru

end Residual

structure Kept.Sized (k : Kept α) (nr ndx nu : Nat) : Prop where
  residual : k.residual = nr
  gradient : k.gradient = nr
  rxRows : k.rx.rows = nr
  rxCols : k.rx.cols = ndx
  ruRows : k.ru.rows = nr
  ruCols : k.ru.cols = nu
  lx : k.lx = ndx
  lu : k.lu = nu

namespace Cost

def keptState : Cost α → Mat α → Mat α
  | residual c, rx => c.residual.keptState rx
  | differences _ _ _, rx => rx.blank

def keptControl : Cost α → Mat α → Mat α
  | residual c, ru => c.residual.keptControl ru
  | differences _ _ _, ru => ru.blank

def kept (c : Cost α) (d : CostData α) : Kept α where
  residual := d.r.size
  gradient := d.activation.gradient.size
  hessian := c.activation.keptHessian d.activation.hessian
  rx := c.keptState d.rx
  ru := c.keptControl d.ru
  lx := d.lx.size
  lu := d.lu.size

def Sized (c : Cost α) (d : CostData α) : Prop := (c.kept d).Sized c.nr c.state.ndx c.nu

end Cost

@[simp] theorem Activation.rows_keptHessian (a : Activation α) (h : Mat α) :
    (a.keptHessian h).rows = h.rows := by
  cases a <;> rfl

@[simp] theorem Activation.cols_keptHessian (a : Activation α) (h : Mat α) :
    (a.keptHessian h).cols = h.cols := by
  cases a <;> rfl

@[simp] theorem Cost.rows_keptState (c : Cost α) (rx : Mat α) : (c.keptState rx).rows = rx.rows := by
  cases c with
  | residual c =>
    obtain ⟨s, a, nu, residual, hAccepted, hNu⟩ := c
    cases residual <;> rfl
  | differences c update h => rfl

@[simp] theorem Cost.cols_keptState (c : Cost α) (rx : Mat α) : (c.keptState rx).cols = rx.cols := by
  cases c with
  | residual c =>
    obtain ⟨s, a, nu, residual, hAccepted, hNu⟩ := c
    cases residual <;> rfl
  | differences c update h => rfl

@[simp] theorem Cost.rows_keptControl (c : Cost α) (ru : Mat α) :
    (c.keptControl ru).rows = ru.rows := by
  cases c with
  | residual c =>
    obtain ⟨s, a, nu, residual, hAccepted, hNu⟩ := c
    cases residual <;> rfl
  | differences c update h => rfl

@[simp] theorem Cost.cols_keptControl (c : Cost α) (ru : Mat α) :
    (c.keptControl ru).cols = ru.cols := by
  cases c with
  | residual c =>
    obtain ⟨s, a, nu, residual, hAccepted, hNu⟩ := c
    cases residual <;> rfl
  | differences c update h => rfl

theorem Cost.Sized.of_kept {c : Cost α} {d d' : CostData α} (h : c.Sized d)
    (hKept : c.kept d' = c.kept d) : c.Sized d' := by
  rw [Sized, hKept]
  exact h

theorem Cost.Sized.rx_shape {c : Cost α} {d : CostData α} (h : c.Sized d) :
    d.rx.rows = c.nr ∧ d.rx.cols = c.state.ndx :=
  ⟨(c.rows_keptState d.rx).symm.trans h.rxRows, (c.cols_keptState d.rx).symm.trans h.rxCols⟩

theorem Cost.Sized.ru_shape {c : Cost α} {d : CostData α} (h : c.Sized d) :
    d.ru.rows = c.nr ∧ d.ru.cols = c.nu :=
  ⟨(c.rows_keptControl d.ru).symm.trans h.ruRows, (c.cols_keptControl d.ru).symm.trans h.ruCols⟩

theorem Cost.sized_createData (c : Cost α) : c.Sized c.createData := by
  have hGradient : c.activation.createData.gradient.size = c.activation.nr := by
    cases c.activation with
    | quadratic n => exact Vec.size_zeros n
    | weighted w => exact Vec.size_zeros w.values.size
    | barrier b => exact Vec.size_zeros b.size
  constructor
  · exact Vec.size_zeros c.nr
  · exact hGradient
  · exact c.rows_keptState _
  · exact c.cols_keptState _
  · exact c.rows_keptControl _
  · exact c.cols_keptControl _
  · exact Vec.size_zeros c.state.ndx
  · exact Vec.size_zeros c.nu

structure CostData.SameSizes (d e : CostData α) : Prop where
  residual : d.r.size = e.r.size
  gradient : d.activation.gradient.size = e.activation.gradient.size
  hessianRows : d.activation.hessian.rows = e.activation.hessian.rows
  hessianCols : d.activation.hessian.cols = e.activation.hessian.cols
  rxRows : d.rx.rows = e.rx.rows
  rxCols : d.rx.cols = e.rx.cols
  ruRows : d.ru.rows = e.ru.rows
  ruCols : d.ru.cols = e.ru.cols
  lx : d.lx.size = e.lx.size
  lu : d.lu.size = e.lu.size

theorem Cost.sameSizes_of_kept {c : Cost α} {d e : CostData α} (h : c.kept d = c.kept e) :
    d.SameSizes e where
  residual := congrArg Kept.residual h
  gradient := congrArg Kept.gradient h
  hessianRows := by simpa [kept] using congrArg (fun k => k.hessian.rows) h
  hessianCols := by simpa [kept] using congrArg (fun k => k.hessian.cols) h
  rxRows := by simpa [kept] using congrArg (fun k => k.rx.rows) h
  rxCols := by simpa [kept] using congrArg (fun k => k.rx.cols) h
  ruRows := by simpa [kept] using congrArg (fun k => k.ru.rows) h
  ruCols := by simpa [kept] using congrArg (fun k => k.ru.cols) h
  lx := congrArg Kept.lx h
  lu := congrArg Kept.lu h

omit [Scalar α] in
theorem Arguments.dimensions_congr {args : Arguments α} {s : Multibody α} {nr nu : Nat}
    {d e : CostData α} (h : d.SameSizes e) :
    args.dimensions s nr nu d = args.dimensions s nr nu e := by
  simp only [dimensions, h.residual, h.gradient, h.rxRows, h.rxCols, h.ruRows, h.ruCols, h.lx, h.lu]

omit [Scalar α] in
theorem Arguments.check_congr {args : Arguments α} {s : Multibody α} {nr nu : Nat}
    {d e : CostData α} (h : d.SameSizes e) : args.check s nr nu d = args.check s nr nu e := by
  rw [check, check, dimensions_congr h]

/-- Arguments that pass the check have the length of a state and of a control, and the data with
them the dimensions of the cost. -/
theorem Cost.of_check {c : Cost α} {args : Arguments α} {d : CostData α}
    (h : args.check c.state c.nr c.nu d = .ok ()) : args.u.size = c.nu ∧ c.Sized d := by
  unfold Arguments.check at h
  split at h
  · cases h
  · rename_i hNone
    have hAll := Dimension.mismatch?_eq_none_iff.mp hNone
    simp only [Arguments.dimensions, List.forall_mem_cons, List.not_mem_nil, false_imp_iff,
      implies_true, and_true] at hAll
    obtain ⟨-, hU, -, hR, hGradient, hRxRows, hRxCols, hRuRows, hRuCols, hLx, hLu⟩ := hAll
    refine ⟨hU.symm, ?_⟩
    constructor
    · exact hR.symm
    · exact hGradient.symm
    · exact (c.rows_keptState d.rx).trans hRxRows.symm
    · exact (c.cols_keptState d.rx).trans hRxCols.symm
    · exact (c.rows_keptControl d.ru).trans hRuRows.symm
    · exact (c.cols_keptControl d.ru).trans hRuCols.symm
    · exact hLx.symm
    · exact hLu.symm

end Scalar

end MultibodyCost
