import MultibodyCost.Proofs.Cost.Shapes
import MultibodyCost.Proofs.Sum.Order
import MultibodyCost.Proofs.Sum.Passes

/-! # Where a sum meets wrong shapes

A sum checks the length of the state and the control; each item checks them again for its own state.
Two states of one length may have tangents of different lengths, since a rotation takes four numbers
to store and three to change. Nothing compares those, so the derivatives of an item may not fit into
the totals. Evaluating never meets a wrong shape; differentiating does exactly where it comes to an
item whose tangents are not those of the sum.
-/

namespace MultibodyCost

variable {α : Type}

theorem bind_ne_none {β γ : Type} {x : Option β} (h : x ≠ none) {f : β → Option γ}
    (hNext : ∀ b, f b ≠ none) : x.bind f ≠ none := by
  cases x with
  | none => exact absurd rfl h
  | some b => exact hNext b

namespace Totals

section Blocks

variable [Scalar α]

theorem placeRows?_ne_none {m block : Mat α} {row : Nat} (hRows : row + block.rows ≤ m.rows)
    (hCols : block.cols = m.cols) : m.placeRows? row block ≠ none := by
  rw [Mat.placeRows?, if_pos ⟨hRows, hCols⟩]
  exact Option.some_ne_none _

theorem vecAdd?_ne_none {v w : Vec α} (h : v.size = w.size) : v.add? w ≠ none := by
  rw [Vec.add?, if_pos h]
  exact Option.some_ne_none _

theorem matAdd?_ne_none {m n : Mat α} {r c : Nat} (hm : m.rows = r ∧ m.cols = c)
    (hn : n.rows = r ∧ n.cols = c) : m.add? n ≠ none := by
  rw [Mat.add?, if_pos ⟨hm.1.trans hn.1.symm, hm.2.trans hn.2.symm⟩]
  exact Option.some_ne_none _

end Blocks

section Shape

variable [Scalar α]

structure Shaped (t : Totals α) (nr ndx nu : Nat) : Prop where
  r : t.r.size = nr
  rx : t.rx.rows = nr ∧ t.rx.cols = ndx
  ru : t.ru.rows = nr ∧ t.ru.cols = nu
  lx : t.lx.size = ndx
  lu : t.lu.size = nu
  lxx : t.lxx.rows = ndx ∧ t.lxx.cols = ndx
  lxu : t.lxu.rows = ndx ∧ t.lxu.cols = nu
  luu : t.luu.rows = nu ∧ t.luu.cols = nu

theorem Shaped.of_blank {t t' : Totals α} {nr ndx nu : Nat} (h : t.Shaped nr ndx nu)
    (hBlank : t'.blank = t.blank) : t'.Shaped nr ndx nu := by
  obtain ⟨-, hR, hRx, hRu, hLx, hLu, hLxx, hLxu, hLuu⟩ := Totals.mk.inj hBlank
  have ofVec : ∀ {v w : Vec α}, (Vec.zeros v.size : Vec α) = Vec.zeros w.size → v.size = w.size := by
    intro v w hZeros
    simpa only [Vec.size_zeros] using congrArg Array.size hZeros
  have ofMat : ∀ {m n : Mat α} {r c : Nat}, m.blank = n.blank → n.rows = r ∧ n.cols = c →
      m.rows = r ∧ m.cols = c := by
    intro m n r c hMat hShape
    obtain ⟨hRows, hCols⟩ := Mat.blank_eq_iff.mp hMat
    exact ⟨hRows.trans hShape.1, hCols.trans hShape.2⟩
  constructor
  · exact (ofVec hR).trans h.r
  · exact ofMat hRx h.rx
  · exact ofMat hRu h.ru
  · exact (ofVec hLx).trans h.lx
  · exact (ofVec hLu).trans h.lu
  · exact ofMat hLxx h.lxx
  · exact ofMat hLxu h.lxu
  · exact ofMat hLuu h.luu

theorem shaped_zeros (nr ndx nu : Nat) : (zeros nr ndx nu : Totals α).Shaped nr ndx nu where
  r := Vec.size_zeros nr
  rx := ⟨rfl, rfl⟩
  ru := ⟨rfl, rfl⟩
  lx := Vec.size_zeros ndx
  lu := Vec.size_zeros nu
  lxx := ⟨rfl, rfl⟩
  lxu := ⟨rfl, rfl⟩
  luu := ⟨rfl, rfl⟩

end Shape

variable [Elementary α] {t : Totals α} {nr ndx nu row : Nat} {c : Cost α} {d : CostData α}

theorem addValue?_ne_none (hTotals : t.Shaped nr ndx nu) (hRow : row + c.nr ≤ nr)
    (hSized : c.Sized d) (w : α) : t.addValue? row w d ≠ none := by
  have hR : d.r.size = c.nr := hSized.residual
  have hFits : row + (d.r.scale (Elementary.sqrt w)).size ≤ t.r.size := by
    rw [Vec.size_scale, hR, hTotals.r]
    exact hRow
  rw [addValue?, Vec.place?, if_pos hFits]
  exact Option.some_ne_none _

/-- The derivatives of an item enter the totals exactly where its tangents are those of the sum. -/
theorem addDerivatives?_ne_none_iff {m : Nat} (hTotals : t.Shaped nr ndx nu)
    (hDerived : Cost.Derived d c.nr m nu) (hRow : row + c.nr ≤ nr) (w : α) :
    t.addDerivatives? row w d ≠ none ↔ m = ndx := by
  constructor
  · intro h
    obtain ⟨t', hEnter⟩ := Option.ne_none_iff_exists'.mp h
    have hLx := (addDerivatives?_eq_some hEnter).lx
    unfold Vec.add? at hLx
    split at hLx
    · rename_i hSize
      rw [Vec.size_scale, hTotals.lx, hDerived.lx] at hSize
      exact hSize.symm
    · cases hLx
  · rintro rfl
    obtain ⟨hRx, hRu, hLx, hLu, hLxx, hLxu, hLuu⟩ := hDerived
    refine bind_ne_none (placeRows?_ne_none ?_ ?_) fun _ => ?_
    · exact hRx.1.symm ▸ hTotals.rx.1.symm ▸ hRow
    · exact hRx.2.trans hTotals.rx.2.symm
    refine bind_ne_none (placeRows?_ne_none ?_ ?_) fun _ => ?_
    · exact hRu.1.symm ▸ hTotals.ru.1.symm ▸ hRow
    · exact hRu.2.trans hTotals.ru.2.symm
    refine bind_ne_none (vecAdd?_ne_none ?_) fun _ => bind_ne_none (vecAdd?_ne_none ?_) fun _ => ?_
    · rw [Vec.size_scale, hTotals.lx, hLx]
    · rw [Vec.size_scale, hTotals.lu, hLu]
    refine bind_ne_none (matAdd?_ne_none (n := d.lxx.scale w) hTotals.lxx hLxx) fun _ => ?_
    refine bind_ne_none (matAdd?_ne_none (n := d.lxu.scale w) hTotals.lxu hLxu) fun _ => ?_
    refine bind_ne_none (matAdd?_ne_none (n := d.luu.scale w) hTotals.luu hLuu) fun _ => ?_
    exact Option.some_ne_none _

end Totals

namespace CostSum

variable [Elementary α]

/-- The items in order are `reached`, up to one whose tangents do not have dimension `ndx`. -/
inductive Breaks (ndx : Nat) (reached : Cost α → Prop) : Named (SumItem α) → Prop
  | here {name : String} {item : SumItem α} {rest : Named (SumItem α)} (hReached : reached item.cost)
      (hOther : item.cost.state.ndx ≠ ndx) : Breaks ndx reached ((name, item) :: rest)
  | later {name : String} {item : SumItem α} {rest : Named (SumItem α)} (hReached : reached item.cost)
      (hSame : item.cost.state.ndx = ndx) (h : Breaks ndx reached rest) :
      Breaks ndx reached ((name, item) :: rest)

omit [Elementary α] in
theorem sum_residuals_cons [Scalar α] (name : String) (item : SumItem α) (items : Named (SumItem α)) :
    (residuals ((name, item) :: items)).sum = item.cost.nr + (residuals items).sum :=
  List.sum_cons

section Passes

variable {nr ndx nu row : Nat} {t : Totals α} {items : Named (SumItem α)}

theorem evaluate_pass (args : Arguments α) (hTotals : t.Shaped nr ndx nu)
    (hRow : row + (residuals items).sum ≤ nr) :
    let out := pass (fun c => c.evaluate args) Totals.addValue? (passBy items Cost.createData) row t
    Safe out.result ∧ ((∃ d, out.result = .ok d) ↔
      ∀ x ∈ items, ∃ d, x.2.cost.evaluate args x.2.cost.createData = .done d) := by
  -- The shapes of the totals and the room behind `row` are what an item leaves to the next.
  induction items generalizing row t with
  | nil => exact ⟨safe_ok _, fun _ x hx => (nomatch hx), fun _ => ⟨_, rfl⟩⟩
  | cons x items ih =>
    obtain ⟨name, item⟩ := x
    rw [sum_residuals_cons] at hRow
    intro out
    have hSafe := item.cost.safe_evaluate args item.cost.createData
    have hKept := item.cost.kept_evaluate args item.cost.createData
    have hResult : out.result = _ := result_pass_cons item name item.cost.createData _ row t
    rw [hResult, List.forall_mem_cons]
    cases hOut : item.cost.evaluate args item.cost.createData with
    | stopped d fault =>
      rw [hOut] at hSafe
      refine ⟨hSafe.error, ?_, ?_⟩
      · rintro ⟨d, hDone⟩
        cases hDone
      · rintro ⟨⟨d, hDone⟩, -⟩
        cases hDone
    | done d =>
      rw [hOut] at hKept
      have hSized : item.cost.Sized d := Cost.sized_of_kept hKept
      have hEnters : t.addValue? row item.weight d ≠ none :=
        Totals.addValue?_ne_none hTotals (by omega) hSized item.weight
      obtain ⟨t', hEnter⟩ := Option.ne_none_iff_exists'.mp hEnters
      have hTotals' := hTotals.of_blank (Totals.blank_of_addValue hEnter)
      have hRow' : row + item.cost.nr + (residuals items).sum ≤ nr := by omega
      obtain ⟨hRest, hIff⟩ := ih hTotals' hRow'
      simp only [Outcome.result, Except.bind, hEnter, Fault.ofShapes]
      refine ⟨hRest.map _, ?_, ?_⟩
      · rintro ⟨out, hDone⟩
        obtain ⟨rest, hDone, -⟩ := map_eq_ok.mp hDone
        exact ⟨⟨d, rfl⟩, hIff.mp ⟨rest, hDone⟩⟩
      · rintro ⟨-, hAll⟩
        obtain ⟨rest, hDone⟩ := hIff.mpr hAll
        exact ⟨_, map_eq_ok.mpr ⟨rest, hDone, rfl⟩⟩

theorem derive_pass_stops_iff {args : Arguments α} (hSnapshot : args.snapshot.Shaped)
    {f : Cost α → CostData α}
    (hKept : ∀ x ∈ items, x.2.cost.kept (f x.2.cost) = x.2.cost.kept x.2.cost.createData)
    (hNu : ∀ x ∈ items, x.2.cost.nu = nu) (hTotals : t.Shaped nr ndx nu)
    (hRow : row + (residuals items).sum ≤ nr) :
    (pass (fun c => c.differentiate args false) Totals.addDerivatives? (passBy items f) row
        t).result = .error .shapes ↔
      Breaks ndx (fun c => ∃ d, c.differentiate args false (f c) = .done d) items := by
  -- An item that is refused ends both sides; one that is done enters, or is where the pass breaks.
  induction items generalizing row t with
  | nil =>
    constructor
    · intro h
      cases h
    · intro h
      cases h
  | cons x items ih =>
    obtain ⟨name, item⟩ := x
    rw [sum_residuals_cons] at hRow
    obtain ⟨hKeptHead, hKeptRest⟩ := List.forall_mem_cons.mp hKept
    obtain ⟨hNuHead, hNuRest⟩ := List.forall_mem_cons.mp hNu
    have hSafe := Cost.safe_differentiate (c := item.cost) hSnapshot
      (Cost.hessian_of_kept hKeptHead) false
    rw [passBy, List.map_cons, ← passBy, result_pass_cons]
    cases hOut : item.cost.differentiate args false (f item.cost) with
    | stopped d fault =>
      rw [hOut] at hSafe
      constructor
      · intro h
        exact absurd h hSafe.error
      · rintro (⟨⟨d, hDone⟩, -⟩ | ⟨⟨d, hDone⟩, -, -⟩)
        · rw [hOut] at hDone
          cases hDone
        · rw [hOut] at hDone
          cases hDone
    | done d =>
      have hDerived : Cost.Derived d item.cost.nr item.cost.state.ndx nu :=
        hNuHead ▸ Cost.derived_of_done (Cost.sized_of_kept hKeptHead) hOut
      have hEnters : t.addDerivatives? row item.weight d ≠ none ↔ item.cost.state.ndx = ndx :=
        Totals.addDerivatives?_ne_none_iff hTotals hDerived (by omega) item.weight
      change (Fault.ofShapes (t.addDerivatives? row item.weight d)).bind _ = _ ↔ _
      by_cases hSame : item.cost.state.ndx = ndx
      · obtain ⟨t', hEnter⟩ := Option.ne_none_iff_exists'.mp (hEnters.mpr hSame)
        have hTotals' := hTotals.of_blank (Totals.blank_of_addDerivatives hEnter)
        have hRow' : row + item.cost.nr + (residuals items).sum ≤ nr := by omega
        rw [hEnter]
        refine map_eq_error.trans ((ih hKeptRest hNuRest hTotals' hRow').trans ?_)
        constructor
        · exact fun h => .later ⟨d, hOut⟩ hSame h
        · rintro (⟨-, hOther⟩ | ⟨-, -, h⟩)
          · exact absurd hSame hOther
          · exact h
      · have hNone : t.addDerivatives? row item.weight d = none :=
          Classical.not_not.mp (mt hEnters.mp hSame)
        rw [hNone]
        exact iff_of_true rfl (.here ⟨d, hOut⟩ hSame)

end Passes

theorem breaks_congr {ndx : Nat} {reached reached' : Cost α → Prop} {items : Named (SumItem α)}
    (h : ∀ x ∈ items, reached x.2.cost ↔ reached' x.2.cost) :
    Breaks ndx reached items ↔ Breaks ndx reached' items := by
  have oneWay : ∀ {p q : Cost α → Prop} {items : Named (SumItem α)},
      (∀ x ∈ items, p x.2.cost → q x.2.cost) → Breaks ndx p items → Breaks ndx q items := by
    intro p q items hImp hBreaks
    induction hBreaks with
    | here hReached hOther => exact .here (hImp _ List.mem_cons_self hReached) hOther
    | later hReached hSame _ ih =>
      exact .later (hImp _ List.mem_cons_self hReached) hSame
        (ih fun x hx => hImp x (List.mem_cons_of_mem _ hx))
  exact ⟨oneWay fun x hx => (h x hx).mp, oneWay fun x hx => (h x hx).mpr⟩

theorem fault?_createData (s : CostSum α) (args : Arguments α) :
    s.fault? args s.createData = none ↔ args.x.size = s.state.nx ∧ args.u.size = s.nu := by
  rw [fault?_eq_mismatch, Option.map_eq_none_iff, Dimension.mismatch?_eq_none_iff]
  simp only [List.forall_mem_cons, List.not_mem_nil, false_imp_iff, implies_true, and_true]
  exact and_congr eq_comm eq_comm

theorem evaluate_createData {s : CostSum α} (hCounted : s.Counted) (args : Arguments α) :
    Safe (s.evaluate args s.createData).result ∧
      ((∃ d, s.evaluate args s.createData = .done d) ↔
        (args.x.size = s.state.nx ∧ args.u.size = s.nu) ∧
          ∀ x ∈ s.items, ∃ d, x.2.cost.evaluate args x.2.cost.createData = .done d) := by
  rw [evaluate, checked]
  cases hFault : s.fault? args s.createData with
  | some e =>
    refine ⟨safe_refused e, ?_, ?_⟩
    · rintro ⟨d, hDone⟩
      cases hDone
    · rintro ⟨hSizes, -⟩
      rw [(fault?_createData s args).mpr hSizes] at hFault
      cases hFault
  | none =>
    have hTotals : ({ s.createData.totals with cost := 0 } : Totals α).Shaped s.nr s.state.ndx s.nu :=
      (Totals.shaped_zeros s.nr s.state.ndx s.nu).of_blank rfl
    have hRow : 0 + (residuals s.items).sum ≤ s.nr := by
      rw [Nat.zero_add, hCounted.nr_eq]
    obtain ⟨hSafe, hIff⟩ := evaluate_pass args hTotals hRow
    simp only [Outcome.result_eq_ok_iff] at hIff
    simp only [zipData_itemsBy (s := s) (f := Cost.createData) (d := s.createData) rfl]
    refine ⟨hSafe, ?_⟩
    rw [hIff]
    exact ⟨fun hAll => ⟨(fault?_createData s args).mp hFault, hAll⟩, fun hAll => hAll.2⟩

/-- The data of an item when its derivatives are found. -/
def startData (args : Arguments α) (recalc : Bool) (c : Cost α) : CostData α :=
  if recalc then c.evaluated args else c.createData

theorem kept_startData (args : Arguments α) (recalc : Bool) (c : Cost α) :
    c.kept (startData args recalc c) = c.kept c.createData := by
  cases recalc with
  | true => exact c.kept_evaluate args c.createData
  | false => rfl

def start (s : CostSum α) (args : Arguments α) (recalc : Bool) : Outcome (Fault α) (SumData α) :=
  if recalc then s.evaluate args s.createData else s.checked args s.createData (.done s.createData)

theorem safe_start {s : CostSum α} (hCounted : s.Counted) (args : Arguments α) (recalc : Bool) :
    Safe (s.start args recalc).result := by
  cases recalc with
  | true => exact (evaluate_createData hCounted args).1
  | false =>
    unfold start checked
    cases s.fault? args s.createData with
    | some e => exact safe_refused e
    | none => exact safe_ok _

theorem start_done_iff {s : CostSum α} (hCounted : s.Counted) (args : Arguments α) (recalc : Bool) :
    (∃ d, s.start args recalc = .done d) ↔ (args.x.size = s.state.nx ∧ args.u.size = s.nu) ∧
      (recalc = true → ∀ x ∈ s.items, ∃ d, x.2.cost.evaluate args x.2.cost.createData = .done d) := by
  cases recalc with
  | true =>
    simp only [true_imp_iff]
    exact (evaluate_createData hCounted args).2
  | false =>
    rw [← fault?_createData s args]
    simp only [start, Bool.false_eq_true, if_false, false_imp_iff, and_true, checked]
    cases s.fault? args s.createData with
    | some e => simp
    | none => simp

theorem of_start {s : CostSum α} {args : Arguments α} {recalc : Bool} {d : SumData α}
    (h : s.start args recalc = .done d) :
    d.items = s.itemsBy (startData args recalc) ∧ d.totals.Shaped s.nr s.state.ndx s.nu := by
  have hFresh := Totals.shaped_zeros (α := α) s.nr s.state.ndx s.nu
  cases recalc with
  | true =>
    obtain ⟨-, -, hPass⟩ := of_checked h
    obtain ⟨-, hItems, -⟩ :=
      of_pass_itemsBy (f := Cost.createData) rfl (Outcome.result_eq_ok_iff.mpr hPass)
    have hKept := s.kept_evaluate args s.createData
    rw [show s.evaluate args s.createData = .done d from h] at hKept
    exact ⟨hItems, hFresh.of_blank (congrArg SumKept.totals hKept)⟩
  | false =>
    obtain ⟨-, -, hSame⟩ := of_checked h
    cases hSame
    exact ⟨rfl, hFresh⟩

theorem done_startData_iff {args : Arguments α} {recalc : Bool} {c : Cost α}
    (h : recalc = true → ∃ d, c.evaluate args c.createData = .done d) :
    (∃ d, c.differentiate args false (startData args recalc c) = .done d) ↔
      ∃ d, c.differentiate args recalc c.createData = .done d := by
  cases recalc with
  | true =>
    obtain ⟨d, hDone⟩ := h rfl
    have hData : c.evaluated args = d := by rw [Cost.evaluated, hDone]; rfl
    simp only [Cost.differentiate_recalc, hDone, Outcome.andThen_done, startData, if_true, hData]
  | false => rfl

/-- On fresh data and with any snapshot, evaluating a sum meets no wrong shape; differentiating meets
one exactly where no check refuses the call before it comes to an item with other tangents. -/
theorem wrong_shape_iff {α : Type} [Sampled α] (state : Multibody α) (nu : Nat) (es : List (Edit α))
    (args : Arguments α) (recalc : Bool) (hSnapshot : args.snapshot.Built) :
    let s := (empty state nu).edited es
    Safe (s.evaluate args s.createData).result ∧
    (¬ Safe (s.differentiate args recalc s.createData).result ↔
      (args.x.size = s.state.nx ∧ args.u.size = s.nu) ∧
      (recalc = true → ∀ x ∈ s.items, ∃ d, x.2.cost.evaluate args x.2.cost.createData = .done d) ∧
      Breaks s.state.ndx (fun c => ∃ d, c.differentiate args recalc c.createData = .done d)
        s.items) := by
  intro s
  have hCounted : s.Counted := counted_edited state nu es
  have hControl : ∀ x ∈ s.items, x.2.cost.nu = s.nu :=
    fun x hx => (admits_edited state nu es x hx).control
  refine ⟨(evaluate_createData hCounted args).1, ?_⟩
  have hResult : (s.differentiate args recalc s.createData).result =
      (s.start args recalc).result.bind fun d => (s.derive args d).result :=
    Outcome.result_andThen _ _
  have hDerive : ∀ d, s.start args recalc = .done d → (¬ Safe (s.derive args d).result ↔
      Breaks s.state.ndx (fun c => ∃ d, c.differentiate args false (startData args recalc c) = .done d)
        s.items) := by
    intro d hStart
    obtain ⟨hItems, hTotals⟩ := of_start hStart
    rw [derive, zipData_itemsBy hItems, Safe, Classical.not_not]
    have hCleared := hTotals.of_blank (Totals.blank_clear d.totals)
    have hRow : 0 + (residuals s.items).sum ≤ s.nr := by
      rw [Nat.zero_add, hCounted.nr_eq]
    exact derive_pass_stops_iff hSnapshot.shaped (fun x _ => kept_startData args recalc x.2.cost)
      hControl hCleared hRow
  rw [hResult, (safe_start hCounted args recalc).bind_eq_iff, ← and_assoc,
    ← start_done_iff hCounted args recalc]
  simp only [Outcome.result_eq_ok_iff]
  constructor
  · rintro ⟨d, hStart, hStop⟩
    refine ⟨⟨d, hStart⟩, ?_⟩
    have hEvaluated := ((start_done_iff hCounted args recalc).mp ⟨d, hStart⟩).2
    exact (breaks_congr fun x hx => done_startData_iff fun h => hEvaluated h x hx).mp
      ((hDerive d hStart).mp hStop)
  · rintro ⟨⟨d, hStart⟩, hBreaks⟩
    have hEvaluated := ((start_done_iff hCounted args recalc).mp ⟨d, hStart⟩).2
    refine ⟨d, hStart, (hDerive d hStart).mpr ?_⟩
    exact (breaks_congr fun x hx => done_startData_iff fun h => hEvaluated h x hx).mpr hBreaks

def hinges : Multibody Float :=
  ⟨(List.range 7).foldl (fun m i => m.pushJoint (Model.indexName i) .revolute none (-1) 1) .empty⟩

def balls : Multibody Float :=
  ⟨(List.range 2).foldl (fun m i => m.pushJoint (Model.indexName i) .spherical none (-1) 1) .empty⟩

def ballEffort : ResidualCost Float where
  state := balls
  activation := .quadratic 1
  nu := 1
  residual := .control (.zeros 1)
  accepted := rfl
  nu_eq := by
    rintro _ ⟨⟩
    rfl

def mixedRun : List (Edit Float) := [.add "effort" (.residual ballEffort) 1]

def mixed : CostSum Float := (empty hinges 1).edited mixedRun

def ballArgs : Arguments Float :=
  ⟨.zeros balls.model, #[0, 0, 0, 1, 0, 0, 0, 1, 0, 0, 0, 0, 0, 0], #[1]⟩

def stopsAtShapes (o : Outcome (Fault Float) (SumData Float)) : Bool :=
  match o with
  | .stopped _ .shapes => true
  | _ => false

theorem not_safe_of_stops {o : Outcome (Fault Float) (SumData Float)} (h : stopsAtShapes o = true) :
    ¬ Safe o.result := by
  unfold stopsAtShapes at h
  split at h
  · exact fun hSafe => hSafe rfl
  · cases h

theorem stops_mixed : stopsAtShapes (mixed.differentiate ballArgs true mixed.createData) = true := by
  decide +kernel

theorem wrong_shape_mixed :
    ballArgs.snapshot.Built ∧ ¬ Safe (mixed.differentiate ballArgs true mixed.createData).result :=
  ⟨.zeros balls.model, not_safe_of_stops stops_mixed⟩

theorem wrong_shape_iff_mixed :
    ballArgs.snapshot.Built ∧ Safe (mixed.evaluate ballArgs mixed.createData).result ∧
      Breaks mixed.state.ndx
        (fun c => ∃ d, c.differentiate ballArgs true c.createData = .done d) mixed.items := by
  have hBuilt : ballArgs.snapshot.Built := .zeros balls.model
  obtain ⟨hSafe, hIff⟩ := wrong_shape_iff hinges 1 mixedRun ballArgs true hBuilt
  exact ⟨hBuilt, hSafe, (hIff.mp (not_safe_of_stops stops_mixed)).2.2⟩

end CostSum

end MultibodyCost
