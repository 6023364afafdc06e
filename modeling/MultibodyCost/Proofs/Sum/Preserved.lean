import MultibodyCost.Proofs.Cost.Preserved
import MultibodyCost.Sum.Evaluate

/-! # What the calls of a sum keep in its data

The calls of a sum keep the names of the items, the kept part of every item's data, and the
dimensions of the totals. A pass over the items may stop at any of them; the data of those before it
were evaluated, those after it were not touched.
-/

namespace MultibodyCost

variable {α : Type}

def Totals.blank [Scalar α] (t : Totals α) : Totals α where
  cost := 0
  r := Vec.zeros t.r.size
  rx := t.rx.blank
  ru := t.ru.blank
  lx := Vec.zeros t.lx.size
  lu := Vec.zeros t.lu.size
  lxx := t.lxx.blank
  lxu := t.lxu.blank
  luu := t.luu.blank

structure SumKept (α : Type) where
  names : List String
  items : List (Kept α)
  totals : Totals α

variable [Elementary α]

def keptItems (items : List (SumItem α × String × CostData α)) : List (Kept α) :=
  items.map fun x => x.1.cost.kept x.2.2

def CostSum.kept (s : CostSum α) (d : SumData α) : SumKept α :=
  ⟨d.items.names, keptItems (s.zipData d), d.totals.blank⟩

namespace Totals

theorem blank_of_addValue {t t' : Totals α} {row : Nat} {weight : α} {d : CostData α}
    (h : t.addValue? row weight d = some t') : t'.blank = t.blank := by
  obtain ⟨r, hR, h⟩ := Option.bind_eq_some_iff.mp h
  cases h
  have hSize : r.size = t.r.size := by
    unfold Vec.place? at hR
    split at hR
    · cases hR
      exact Vec.size_place t.r row _
    · cases hR
  simp only [blank, hSize]

omit [Elementary α] in
theorem blank_of_placeRows [Scalar α] {m block out : Mat α} {row : Nat}
    (h : m.placeRows? row block = some out) : out.blank = m.blank := by
  unfold Mat.placeRows? at h
  split at h
  · cases h
    rfl
  · cases h

omit [Elementary α] in
theorem blank_of_add [Scalar α] {m n out : Mat α} (h : m.add? n = some out) :
    out.blank = m.blank := by
  unfold Mat.add? at h
  split at h
  · cases h
    rfl
  · cases h

omit [Elementary α] in
theorem size_of_add [Scalar α] {v w out : Vec α} (h : v.add? w = some out) : out.size = v.size := by
  unfold Vec.add? at h
  split at h
  · cases h
    exact Vec.size_add v w
  · cases h

theorem blank_of_addDerivatives {t t' : Totals α} {row : Nat} {weight : α} {d : CostData α}
    (h : t.addDerivatives? row weight d = some t') : t'.blank = t.blank := by
  obtain ⟨rx, hRx, h⟩ := Option.bind_eq_some_iff.mp h
  obtain ⟨ru, hRu, h⟩ := Option.bind_eq_some_iff.mp h
  obtain ⟨lx, hLx, h⟩ := Option.bind_eq_some_iff.mp h
  obtain ⟨lu, hLu, h⟩ := Option.bind_eq_some_iff.mp h
  obtain ⟨lxx, hLxx, h⟩ := Option.bind_eq_some_iff.mp h
  obtain ⟨lxu, hLxu, h⟩ := Option.bind_eq_some_iff.mp h
  obtain ⟨luu, hLuu, h⟩ := Option.bind_eq_some_iff.mp h
  cases h
  simp only [blank, blank_of_placeRows hRx, blank_of_placeRows hRu, size_of_add hLx,
    size_of_add hLu, blank_of_add hLxx, blank_of_add hLxu, blank_of_add hLuu]

omit [Elementary α] in
theorem blank_clear [Scalar α] (t : Totals α) : t.clear.blank = t.blank := by
  simp only [blank, clear, Vec.size_zeros]
  rfl

end Totals

namespace CostSum

section Pass

variable {evaluate : Cost α → CostData α → Outcome (Fault α) (CostData α)}
  {enter : Totals α → Nat → α → CostData α → Option (Totals α)}

theorem zip_fst_snd {β γ : Type} (xs : List (β × γ)) :
    (xs.map Prod.fst).zip (xs.map Prod.snd) = xs := by
  induction xs with
  | nil => rfl
  | cons x xs ih => rw [List.map_cons, List.map_cons, List.zip_cons_cons, ih]

/-- What a pass over items and data, and on totals, keeps in the data it leaves behind. -/
structure PassKept (xs : List (SumItem α × String × CostData α)) (t : Totals α) (out : SumData α) :
    Prop where
  names : out.items.names = Named.names (xs.map Prod.snd)
  items : keptItems ((xs.map Prod.fst).zip out.items) = keptItems xs
  totals : out.totals.blank = t.blank

theorem map_zip_cons {κ : Type} {f : Cost α → CostData α → κ} {item : SumItem α} {name : String}
    {d d' : CostData α} (h : f item.cost d' = f item.cost d)
    (xs : List (SumItem α × String × CostData α)) :
    ((((item, name, d) :: xs).map Prod.fst).zip ((name, d') :: xs.map Prod.snd)).map
        (fun x => f x.1.cost x.2.2) =
      ((item, name, d) :: xs).map fun x => f x.1.cost x.2.2 := by
  rw [List.map_cons, List.zip_cons_cons, zip_fst_snd, List.map_cons, List.map_cons, h]

/-- A pass keeps the names, what every evaluation keeps of its data, and what entering an item keeps
of the totals, whether it stops or not. -/
theorem pass_keeps {κ κ' : Type} {f : Cost α → CostData α → κ} {g : Totals α → κ'}
    (hEvaluate : ∀ (c : Cost α) d, f c (evaluate c d).data = f c d)
    (hEnter : ∀ t row weight d t', enter t row weight d = some t' → g t' = g t)
    (xs : List (SumItem α × String × CostData α)) (row : Nat) (t : Totals α) :
    let out := (pass evaluate enter xs row t).data
    out.items.names = Named.names (xs.map Prod.snd) ∧
      ((xs.map Prod.fst).zip out.items).map (fun x => f x.1.cost x.2.2) =
        xs.map (fun x => f x.1.cost x.2.2) ∧
      g out.totals = g t := by
  induction xs generalizing row t with
  | nil => exact ⟨rfl, rfl, rfl⟩
  | cons x xs ih =>
    obtain ⟨item, name, d⟩ := x
    have hKept := hEvaluate item.cost d
    unfold pass
    cases hOut : evaluate item.cost d with
    | stopped d' fault =>
      rw [hOut] at hKept
      exact ⟨rfl, map_zip_cons hKept xs, rfl⟩
    | done d' =>
      rw [hOut] at hKept
      cases hTotals : enter t row item.weight d' with
      | none =>
        simp only [hTotals]
        exact ⟨rfl, map_zip_cons hKept xs, rfl⟩
      | some t' =>
        obtain ⟨hNames, hItems, hRest⟩ := ih (row + item.cost.nr) t'
        simp only [hTotals, Outcome.data_map]
        refine ⟨?_, ?_, hRest.trans (hEnter t row item.weight d' t' hTotals)⟩
        · exact congrArg (name :: ·) hNames
        · exact congrArg₂ (· :: ·) hKept hItems

theorem kept_pass (hEvaluate : ∀ (c : Cost α) d, c.kept (evaluate c d).data = c.kept d)
    (hEnter : ∀ t row weight d t', enter t row weight d = some t' → t'.blank = t.blank)
    (xs : List (SumItem α × String × CostData α)) (row : Nat) (t : Totals α) :
    PassKept xs t (pass evaluate enter xs row t).data := by
  obtain ⟨hNames, hItems, hTotals⟩ := pass_keeps hEvaluate hEnter xs row t
  exact ⟨hNames, hItems, hTotals⟩

end Pass

theorem zipData_maps {s : CostSum α} {d : SumData α} (h : d.items.names = s.items.names) :
    (s.zipData d).map Prod.fst = s.items.map Prod.snd ∧ (s.zipData d).map Prod.snd = d.items := by
  have hLength : (s.items.map Prod.snd).length = d.items.length := by
    have hNames := congrArg List.length h
    simpa only [Named.names, List.length_map] using hNames.symm
  exact ⟨List.map_fst_zip (Nat.le_of_eq hLength), List.map_snd_zip (Nat.le_of_eq hLength.symm)⟩

theorem kept_of_pass {s : CostSum α} {d out : SumData α} {t : Totals α}
    (h : d.items.names = s.items.names) (hBlank : t.blank = d.totals.blank)
    (hPass : PassKept (s.zipData d) t out) : s.kept out = s.kept d := by
  obtain ⟨hFst, hSnd⟩ := zipData_maps h
  obtain ⟨hNames, hItems, hTotals⟩ := hPass
  rw [hSnd] at hNames
  rw [hFst] at hItems
  rw [kept, kept, hNames, hTotals, hBlank]
  exact congrArg (SumKept.mk _ · _) hItems

theorem names_of_fault {s : CostSum α} {args : Arguments α} {d : SumData α}
    (h : s.fault? args d = none) :
    d.items.names = s.items.names ∧ d.totals.r.size = s.nr := by
  unfold fault? at h
  split at h
  · cases h
  · split at h
    · cases h
    · rename_i hNames
      split at h
      · cases h
      · rename_i hSize
        exact ⟨Classical.not_not.mp hNames, Classical.not_not.mp hSize⟩

theorem fault?_eq_mismatch (s : CostSum α) (args : Arguments α) :
    s.fault? args s.createData =
      (Dimension.mismatch? [⟨.state, s.state.nx, args.x.size⟩, ⟨.control, s.nu, args.u.size⟩]).map
        .dimension := by
  have hNames : s.createData.items.names = s.items.names := by
    rw [Named.names, createData, List.map_map]
    rfl
  have hSize : s.createData.totals.r.size = s.nr := Vec.size_zeros s.nr
  rw [fault?]
  split
  · rename_i hMismatch
    rw [hMismatch]
    rfl
  · rename_i hNone
    rw [if_neg (not_not.mpr hNames), if_neg (not_not.mpr hSize), hNone]
    rfl

theorem of_checked {s : CostSum α} {args : Arguments α} {d d' : SumData α}
    {work : Outcome (Fault α) (SumData α)} (h : s.checked args d work = .done d') :
    d.items.names = s.items.names ∧ d.totals.r.size = s.nr ∧ work = .done d' := by
  unfold checked at h
  split at h
  · cases h
  · rename_i hNone
    obtain ⟨hNames, hSize⟩ := names_of_fault hNone
    exact ⟨hNames, hSize, h⟩

theorem kept_checked {s : CostSum α} {args : Arguments α} {d : SumData α}
    {work : Outcome (Fault α) (SumData α)}
    (h : d.items.names = s.items.names → s.kept work.data = s.kept d) :
    s.kept (s.checked args d work).data = s.kept d := by
  unfold checked
  split
  · rfl
  · rename_i hNone
    exact h (names_of_fault hNone).1

theorem kept_evaluate (s : CostSum α) (args : Arguments α) (d : SumData α) :
    s.kept (s.evaluate args d).data = s.kept d := by
  apply kept_checked
  intro hNames
  apply kept_of_pass hNames _ (kept_pass _ _ _ _ _)
  · rfl
  · exact fun c d => c.kept_evaluate args d
  · exact fun _ _ _ _ _ h => Totals.blank_of_addValue h

def derive (s : CostSum α) (args : Arguments α) (d : SumData α) : Outcome (Fault α) (SumData α) :=
  pass (fun c => c.differentiate args false) Totals.addDerivatives? (s.zipData d) 0 d.totals.clear

theorem differentiate_eq (s : CostSum α) (args : Arguments α) (recalc : Bool) (d : SumData α) :
    s.differentiate args recalc d =
      (if recalc then s.evaluate args d else s.checked args d (.done d)).andThen (s.derive args) :=
  rfl

theorem passKept_derive (s : CostSum α) (args : Arguments α) (d : SumData α) :
    PassKept (s.zipData d) d.totals.clear (s.derive args d).data := by
  apply kept_pass
  · exact fun c d => c.kept_differentiate args false d
  · exact fun _ _ _ _ _ h => Totals.blank_of_addDerivatives h

theorem kept_differentiate (s : CostSum α) (args : Arguments α) (recalc : Bool) (d : SumData α) :
    s.kept (s.differentiate args recalc d).data = s.kept d := by
  rw [differentiate_eq]
  have hStart : s.kept (if recalc then s.evaluate args d else s.checked args d (.done d)).data =
      s.kept d := by
    cases recalc with
    | true => exact s.kept_evaluate args d
    | false => exact kept_checked fun _ => rfl
  rw [Outcome.kept_andThen s.kept, hStart]
  intro d' hDone
  rw [hDone] at hStart
  have hNames : d'.items.names = s.items.names := by
    have hChecked : d.items.names = s.items.names := by
      cases recalc with
      | true => exact (of_checked hDone).1
      | false => exact (of_checked hDone).1
    exact (congrArg SumKept.names hStart).trans hChecked
  exact kept_of_pass hNames (Totals.blank_clear d'.totals) (s.passKept_derive args d')

def call (s : CostSum α) (d : SumData α) : Call α → Outcome (Fault α) (SumData α)
  | .evaluate args => s.evaluate args d
  | .differentiate args recalc => s.differentiate args recalc d
  | .evaluateTerminal snapshot x => s.evaluate (.terminal snapshot x s.nu) d
  | .differentiateTerminal snapshot x recalc =>
    s.differentiate (.terminal snapshot x s.nu) recalc d

def after (s : CostSum α) (calls : List (Call α)) (d : SumData α) : SumData α :=
  calls.foldl (fun d call => (s.call d call).data) d

theorem kept_call (s : CostSum α) (d : SumData α) (call : Call α) :
    s.kept (s.call d call).data = s.kept d := by
  cases call with
  | evaluate args => exact s.kept_evaluate args d
  | differentiate args recalc => exact s.kept_differentiate args recalc d
  | evaluateTerminal snapshot x => exact s.kept_evaluate _ d
  | differentiateTerminal snapshot x recalc => exact s.kept_differentiate _ recalc d

theorem kept_after (s : CostSum α) (calls : List (Call α)) (d : SumData α) :
    s.kept (s.after calls d) = s.kept d := by
  induction calls generalizing d with
  | nil => rfl
  | cons call calls ih => exact (ih _).trans (s.kept_call d call)

end CostSum

end MultibodyCost
