import MultibodyCost.Proofs.Cost.Alone
import MultibodyCost.Proofs.Linear.Slices
import MultibodyCost.Proofs.Model.WellFormed
import MultibodyCost.Proofs.Sum.History

/-! # Passes that are done

A pass that is done has evaluated every item in its own data and entered the results into the totals
one after another, each block of the stack behind those of the items before it.
-/

namespace MultibodyCost

variable {α : Type}

namespace Totals

section Run

variable [Scalar α] {enter : Totals α → Nat → α → CostData α → Option (Totals α)}

/-- Items with their data entered into totals in order, from row `row` on. -/
def enterAll (enter : Totals α → Nat → α → CostData α → Option (Totals α)) :
    List (SumItem α × CostData α) → Nat → Totals α → Option (Totals α)
  | [], _, t => some t
  | (item, d) :: rest, row, t =>
    (enter t row item.weight d).bind (enterAll enter rest (row + item.cost.nr))

theorem enterAll_fixed {κ : Type} {f : Totals α → κ}
    (hEnter : ∀ t row w d t', enter t row w d = some t' → f t' = f t)
    {xs : List (SumItem α × CostData α)} {row : Nat} {t out : Totals α}
    (h : enterAll enter xs row t = some out) : f out = f t := by
  induction xs generalizing row t with
  | nil =>
    cases h
    rfl
  | cons x xs ih =>
    obtain ⟨t', hFirst, hRest⟩ := Option.bind_eq_some_iff.mp h
    exact (ih hRest).trans (hEnter _ _ _ _ _ hFirst)

variable {β : Type} {read : Totals α → Nat → Nat → β}

theorem enterAll_before
    (hBefore : ∀ t row w d t' i n, i + n ≤ row → enter t row w d = some t' → read t' i n = read t i n)
    {xs : List (SumItem α × CostData α)} {row i n : Nat} (hRow : i + n ≤ row) {t out : Totals α}
    (h : enterAll enter xs row t = some out) : read out i n = read t i n := by
  induction xs generalizing row t with
  | nil =>
    cases h
    rfl
  | cons x xs ih =>
    obtain ⟨t', hFirst, hRest⟩ := Option.bind_eq_some_iff.mp h
    exact (ih (Nat.le_add_right_of_le hRow) hRest).trans (hBefore _ _ _ _ _ _ _ hRow hFirst)

theorem enterAll_stack {block : α → CostData α → β}
    (hBlock : ∀ t row (c : Cost α) w d t', c.Sized d → enter t row w d = some t' →
      read t' row c.nr = block w d)
    (hBefore : ∀ t row w d t' i n, i + n ≤ row → enter t row w d = some t' → read t' i n = read t i n)
    {xs : List (SumItem α × CostData α)} (hSized : ∀ x ∈ xs, x.1.cost.Sized x.2) {row : Nat}
    {t out : Totals α} (h : enterAll enter xs row t = some out) {i : Nat}
    {x : SumItem α × CostData α} (hx : xs[i]? = some x) :
    read out (row + ((xs.map fun x => x.1.cost.nr).take i).sum) x.1.cost.nr =
      block x.1.weight x.2 := by
  induction xs generalizing row t i with
  | nil => cases hx
  | cons y ys ih =>
    obtain ⟨t', hFirst, hRest⟩ := Option.bind_eq_some_iff.mp h
    -- The block of the first item is entered at `row`, and no later item writes there.
    cases i with
    | zero =>
      cases hx
      rw [List.take_zero, List.sum_nil, Nat.add_zero, enterAll_before hBefore (Nat.le_refl _) hRest]
      exact hBlock _ _ _ _ _ _ (hSized x List.mem_cons_self) hFirst
    | succ i =>
      rw [List.map_cons, List.take_succ_cons, List.sum_cons, ← Nat.add_assoc]
      exact ih (fun z hz => hSized z (List.mem_cons_of_mem y hz)) hRest hx

theorem enterAll_behind {β : Type} (read : Totals α → Nat → β)
    (hBehind : ∀ t row (c : Cost α) w d t' i, c.Sized d → row + c.nr ≤ i →
      enter t row w d = some t' → read t' i = read t i)
    {xs : List (SumItem α × CostData α)} (hSized : ∀ x ∈ xs, x.1.cost.Sized x.2) {row i : Nat}
    (hRow : row + (xs.map fun x => x.1.cost.nr).sum ≤ i) {t out : Totals α}
    (h : enterAll enter xs row t = some out) : read out i = read t i := by
  induction xs generalizing row t with
  | nil =>
    cases h
    rfl
  | cons x xs ih =>
    rw [List.map_cons, List.sum_cons] at hRow
    obtain ⟨t', hFirst, hRest⟩ := Option.bind_eq_some_iff.mp h
    rw [ih (fun y hy => hSized y (List.mem_cons_of_mem x hy)) (by omega) hRest]
    exact hBehind _ _ _ _ _ _ _ (hSized x List.mem_cons_self) (by omega) hFirst

end Run

variable [Elementary α] {t t' : Totals α} {row : Nat} {w : α} {d : CostData α}

theorem addValue?_eq_some (h : t.addValue? row w d = some t') :
    t.r.place? row (d.r.scale (Elementary.sqrt w)) = some t'.r ∧ t'.cost = t.cost + w * d.cost := by
  obtain ⟨r, hR, h⟩ := Option.bind_eq_some_iff.mp h
  cases h
  exact ⟨hR, rfl⟩

theorem slice_of_addValue {c : Cost α} (hSized : c.Sized d) (h : t.addValue? row w d = some t') :
    t'.r.slice row c.nr = d.r.scale (Elementary.sqrt w) := by
  have hBlock := Vec.slice_of_place? (addValue?_eq_some h).1
  have hSize : d.r.size = c.nr := hSized.residual
  rwa [Vec.size_scale, hSize] at hBlock

theorem slice_before_addValue {i n : Nat} (hRow : i + n ≤ row) (h : t.addValue? row w d = some t') :
    t'.r.slice i n = t.r.slice i n :=
  Vec.slice_before_place? hRow (addValue?_eq_some h).1

structure AddsDerivatives (t t' : Totals α) (row : Nat) (w : α) (d : CostData α) : Prop where
  values : t'.r = t.r ∧ t'.cost = t.cost
  rx : t.rx.placeRows? row (d.rx.scale (Elementary.sqrt w)) = some t'.rx
  ru : t.ru.placeRows? row (d.ru.scale (Elementary.sqrt w)) = some t'.ru
  lx : t.lx.add? (d.lx.scale w) = some t'.lx
  lu : t.lu.add? (d.lu.scale w) = some t'.lu
  lxx : t.lxx.add? (d.lxx.scale w) = some t'.lxx
  lxu : t.lxu.add? (d.lxu.scale w) = some t'.lxu
  luu : t.luu.add? (d.luu.scale w) = some t'.luu

theorem addDerivatives?_eq_some (h : t.addDerivatives? row w d = some t') :
    AddsDerivatives t t' row w d := by
  obtain ⟨rx, hRx, h⟩ := Option.bind_eq_some_iff.mp h
  obtain ⟨ru, hRu, h⟩ := Option.bind_eq_some_iff.mp h
  obtain ⟨lx, hLx, h⟩ := Option.bind_eq_some_iff.mp h
  obtain ⟨lu, hLu, h⟩ := Option.bind_eq_some_iff.mp h
  obtain ⟨lxx, hLxx, h⟩ := Option.bind_eq_some_iff.mp h
  obtain ⟨lxu, hLxu, h⟩ := Option.bind_eq_some_iff.mp h
  obtain ⟨luu, hLuu, h⟩ := Option.bind_eq_some_iff.mp h
  cases h
  exact ⟨⟨rfl, rfl⟩, hRx, hRu, hLx, hLu, hLxx, hLxu, hLuu⟩

theorem band_rx_of_addDerivatives {c : Cost α} (hSized : c.Sized d)
    (h : t.addDerivatives? row w d = some t') :
    t'.rx.band row c.nr = d.rx.scale (Elementary.sqrt w) := by
  have hBlock := Mat.band_of_placeRows? (addDerivatives?_eq_some h).rx
  have hRows : (d.rx.scale (Elementary.sqrt w)).rows = c.nr := hSized.rx_shape.1
  rwa [hRows] at hBlock

theorem band_ru_of_addDerivatives {c : Cost α} (hSized : c.Sized d)
    (h : t.addDerivatives? row w d = some t') :
    t'.ru.band row c.nr = d.ru.scale (Elementary.sqrt w) := by
  have hBlock := Mat.band_of_placeRows? (addDerivatives?_eq_some h).ru
  have hRows : (d.ru.scale (Elementary.sqrt w)).rows = c.nr := hSized.ru_shape.1
  rwa [hRows] at hBlock

end Totals

namespace CostSum

section Pass

variable [Elementary α] {evaluate : Cost α → CostData α → Outcome (Fault α) (CostData α)}
  {enter : Totals α → Nat → α → CostData α → Option (Totals α)}

theorem of_pass {xs : List (SumItem α × String × CostData α)} {row : Nat} {t : Totals α}
    {out : SumData α} (h : (pass evaluate enter xs row t).result = .ok out) :
    (∀ x ∈ xs, evaluate x.1.cost x.2.2 = .done (evaluate x.1.cost x.2.2).data) ∧
      out.items = xs.map (fun x => (x.2.1, (evaluate x.1.cost x.2.2).data)) ∧
      Totals.enterAll enter (xs.map fun x => (x.1, (evaluate x.1.cost x.2.2).data)) row t =
        some out.totals := by
  induction xs generalizing row t out with
  | nil =>
    cases h
    exact ⟨fun x hx => (nomatch hx), rfl, rfl⟩
  | cons x xs ih =>
    obtain ⟨item, name, d⟩ := x
    rw [result_pass_cons] at h
    obtain ⟨d', hEvaluate, h⟩ := bind_eq_ok.mp h
    obtain ⟨t', hEnter, h⟩ := bind_eq_ok.mp h
    obtain ⟨rest, hRest, rfl⟩ := map_eq_ok.mp h
    obtain ⟨hDone, hItems, hTotals⟩ := ih hRest
    have hData : (evaluate item.cost d).data = d' := Outcome.data_of_result hEvaluate
    have hHead : evaluate item.cost d = .done d' := Outcome.result_eq_ok_iff.mp hEvaluate
    refine ⟨?_, ?_, ?_⟩
    · intro x hx
      rcases List.mem_cons.mp hx with rfl | hx
      · rw [hData]
        exact hHead
      · exact hDone x hx
    · rw [List.map_cons, hData, hItems]
    · rw [List.map_cons, hData, Totals.enterAll, ofShapes_eq_ok hEnter]
      exact hTotals

def itemsBy (s : CostSum α) (f : Cost α → CostData α) : Named (CostData α) :=
  s.items.map fun x => (x.1, f x.2.cost)

def entriesBy (s : CostSum α) (f : Cost α → CostData α) : List (SumItem α × CostData α) :=
  s.items.map fun x => (x.2, f x.2.cost)

/-- What a pass over the items of a sum takes, with data made from the costs. -/
def passBy (items : Named (SumItem α)) (f : Cost α → CostData α) :
    List (SumItem α × String × CostData α) :=
  items.map fun x => (x.2, x.1, f x.2.cost)

theorem zipData_itemsBy {s : CostSum α} {f : Cost α → CostData α} {d : SumData α}
    (hItems : d.items = s.itemsBy f) : s.zipData d = passBy s.items f := by
  rw [zipData, hItems, itemsBy, List.zip_map']
  rfl

theorem of_pass_itemsBy {s : CostSum α} {f : Cost α → CostData α} {d out : SumData α}
    (hItems : d.items = s.itemsBy f) {t : Totals α}
    (h : (pass evaluate enter (s.zipData d) 0 t).result = .ok out) :
    (∀ x ∈ s.items, evaluate x.2.cost (f x.2.cost) = .done (evaluate x.2.cost (f x.2.cost)).data) ∧
      out.items = s.itemsBy (fun c => (evaluate c (f c)).data) ∧
      Totals.enterAll enter (s.entriesBy fun c => (evaluate c (f c)).data) 0 t = some out.totals := by
  obtain ⟨hDone, hOut, hTotals⟩ := of_pass h
  rw [zipData_itemsBy hItems, passBy, List.map_map] at hOut hTotals
  rw [zipData_itemsBy hItems] at hDone
  refine ⟨?_, hOut, hTotals⟩
  intro x hx
  exact hDone _ (List.mem_map_of_mem hx)

end Pass

section Rows

variable [Scalar α]

/-- The row at which the part of item `i` begins. -/
def row (s : CostSum α) (i : Nat) : Nat := ((residuals s.items).take i).sum

def rowSlices (s : CostSum α) : List (Nat × Nat) := (residuals s.items).mapIdx fun i n => (s.row i, n)

omit [Scalar α] in
theorem tiles_mapIdx (ns : List Nat) (start : Nat) :
    Tiles start (start + ns.sum) (ns.mapIdx fun i n => (start + (ns.take i).sum, n)) := by
  induction ns generalizing start with
  | nil => rfl
  | cons n ns ih =>
    rw [List.mapIdx_cons, List.sum_cons]
    refine ⟨by simp, ?_⟩
    simpa only [List.take_succ_cons, List.sum_cons, Nat.add_assoc] using ih (start + n)

theorem Counted.tiles {s : CostSum α} (h : s.Counted) : Tiles 0 s.nr s.rowSlices := by
  have hTiles := tiles_mapIdx (residuals s.items) 0
  simp only [Nat.zero_add] at hTiles
  rw [h.nr_eq]
  exact hTiles

end Rows

end CostSum

end MultibodyCost
