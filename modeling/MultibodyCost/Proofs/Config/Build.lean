import MultibodyCost.Proofs.Config.Entry
import MultibodyCost.Proofs.Real
import MultibodyCost.Proofs.Sum.Order

/-! # What a configuration builds

A configuration is built where its names are distinct and each of its entries is acceptable. The sum
has the costs of the entries under their names and no others, so it does not depend on their order.
The error of a configuration that is refused is that of one of its entries.
-/

namespace MultibodyCost

variable {α : Type}

variable [Elementary α]

/-- The item of a sum that an entry is about. -/
def ConfigEntry.DescribesItem (s : Multibody α) (nu : Nat) (e : ConfigEntry α) (item : SumItem α) :
    Prop :=
  item.weight = e.weight ∧ ∃ c, item.cost = .residual c ∧ e.Describes s nu c

theorem ConfigEntry.DescribesItem.unique {s : Multibody α} {nu : Nat} {e : ConfigEntry α}
    {item item' : SumItem α} (h : e.DescribesItem s nu item) (h' : e.DescribesItem s nu item') :
    item = item' := by
  obtain ⟨hWeight, c, hCost, hc⟩ := h
  obtain ⟨hWeight', c', hCost', hc'⟩ := h'
  cases item
  cases item'
  cases hWeight
  cases hWeight'
  cases hCost
  cases hCost'
  rw [hc.unique hc']

/-- Why an entry is refused behind entries of some names, with the error that says so. -/
inductive ConfigEntry.RefusedAfter (s : Multibody α) (nu : Nat) (names : List String)
    (e : ConfigEntry α) : CostError α → Prop
  | cost {err : CostError α} (h : e.Refused s nu err) : RefusedAfter s nu names e err
  | name (h : e.name ∈ names) : RefusedAfter s nu names e (.alreadyExists e.name)
  | weight (h : ¬(Scalar.isFinite e.weight = true ∧ ¬e.weight < 0)) :
    RefusedAfter s nu names e (.invalidWeight e.name e.weight)

theorem ConfigEntry.RefusedAfter.mono {s : Multibody α} {nu : Nat} {names names' : List String}
    {e : ConfigEntry α} {err : CostError α} (h : e.RefusedAfter s nu names err)
    (hNames : ∀ n ∈ names, n ∈ names') : e.RefusedAfter s nu names' err := by
  cases h with
  | cost h => exact .cost h
  | name h => exact .name (hNames _ h)
  | weight h => exact .weight h

namespace Config

structure Addable (sum : CostSum α) (es : List (ConfigEntry α)) : Prop where
  entries : ∀ e ∈ es, e.Acceptable sum.state sum.nu
  names : (es.map ConfigEntry.name).Nodup
  fresh : ∀ e ∈ es, e.name ∉ sum.items.names

structure Extends (sum : CostSum α) (es : List (ConfigEntry α)) (sum' : CostSum α) : Prop where
  state : sum'.state = sum.state
  nu : sum'.nu = sum.nu
  nr : sum'.nr = sum.nr + (es.map fun e => e.residual.dimension sum.state sum.nu).sum
  sorted : sum.items.Sorted → sum'.items.Sorted
  items : ∀ name item, (name, item) ∈ sum'.items ↔ (name, item) ∈ sum.items ∨
    ∃ e ∈ es, e.name = name ∧ e.DescribesItem sum.state sum.nu item

section Steps

variable {sum sum' : CostSum α} {e : ConfigEntry α} {es : List (ConfigEntry α)}

theorem addEntries_cons_eq_ok_iff : (addEntries sum (e :: es)).1 = .ok sum' ↔
    e.Acceptable sum.state sum.nu ∧ e.name ∉ sum.items.names ∧ ∃ c, e.Describes sum.state sum.nu c ∧
      (addEntries (sum.insertItem e.name (.residual c) e.weight) es).1 = .ok sum' := by
  rw [addEntries]
  cases hBuild : e.build sum.state sum.nu with
  | error err =>
    constructor
    · intro h
      cases h
    · rintro ⟨hAcceptable, -, c, hc, -⟩
      cases hBuild.symm.trans
        (ConfigEntry.build_eq_ok_iff.mpr ⟨hAcceptable.toBuildable, c, rfl, hc⟩)
  | ok cost =>
    obtain ⟨hBuildable, c, rfl, hc⟩ := ConfigEntry.build_eq_ok_iff.mp hBuild
    cases hFault : sum.addFault? e.name (.residual c) e.weight with
    | some err =>
      simp only [(CostSum.add_eq_error hFault).1]
      constructor
      · intro h
        cases h
      · rintro ⟨hAcceptable, hFresh, -⟩
        cases hFault.symm.trans
          (CostSum.addFault?_eq_none_iff.mpr ⟨hFresh, hc.control, hAcceptable.weight⟩)
    | none =>
      obtain ⟨hFresh, -, hWeight⟩ := CostSum.addFault?_eq_none_iff.mp hFault
      obtain ⟨hResult, hSum⟩ := CostSum.add_eq_ok hFault
      simp only [hResult, hSum]
      constructor
      · intro h
        exact ⟨⟨hBuildable, hWeight⟩, hFresh, c, hc, h⟩
      · rintro ⟨-, -, c', hc', h⟩
        rwa [hc.unique hc']

theorem mem_insertItem {name : String} {cost : Cost α} {weight : α} (h : name ∉ sum.items.names)
    (x : String × SumItem α) : x ∈ (sum.insertItem name cost weight).items ↔
      x = (name, ⟨cost, weight⟩) ∨ x ∈ sum.items :=
  (Named.insert_perm h ⟨cost, weight⟩).mem_iff.trans List.mem_cons

theorem mem_names_insertItem {name : String} {cost : Cost α} {weight : α}
    (h : name ∉ sum.items.names) (n : String) :
    n ∈ (sum.insertItem name cost weight).items.names ↔ n = name ∨ n ∈ sum.items.names :=
  ((Named.insert_perm h ⟨cost, weight⟩).map Prod.fst).mem_iff.trans List.mem_cons

theorem addable_cons_iff {cost : Cost α} {weight : α} : Addable sum (e :: es) ↔
    e.Acceptable sum.state sum.nu ∧ e.name ∉ sum.items.names ∧
      Addable (sum.insertItem e.name cost weight) es := by
  constructor
  · rintro ⟨hEntries, hNames, hFresh⟩
    obtain ⟨hFirst, hRest⟩ := List.forall_mem_cons.mp hEntries
    obtain ⟨hOther, hDistinct⟩ := List.nodup_cons.mp hNames
    obtain ⟨hFree, hFreeRest⟩ := List.forall_mem_cons.mp hFresh
    refine ⟨hFirst, hFree, hRest, hDistinct, ?_⟩
    intro e' he'
    rw [mem_names_insertItem hFree]
    rintro (hSame | hUsed)
    · exact hOther (hSame ▸ List.mem_map_of_mem he')
    · exact hFreeRest e' he' hUsed
  · rintro ⟨hFirst, hFree, hRest, hDistinct, hFreeRest⟩
    have hOther : ∀ e' ∈ es, e'.name ≠ e.name ∧ e'.name ∉ sum.items.names := by
      intro e' he'
      exact not_or.mp (mt (mem_names_insertItem hFree e'.name).mpr (hFreeRest e' he'))
    refine ⟨List.forall_mem_cons.mpr ⟨hFirst, hRest⟩, List.nodup_cons.mpr ⟨?_, hDistinct⟩,
      List.forall_mem_cons.mpr ⟨hFree, fun e' he' => (hOther e' he').2⟩⟩
    intro hMem
    obtain ⟨e', he', hSame⟩ := List.mem_map.mp hMem
    exact (hOther e' he').1 hSame

theorem Extends.cons {c : ResidualCost α} (hAcceptable : e.Acceptable sum.state sum.nu)
    (hFresh : e.name ∉ sum.items.names) (hc : e.Describes sum.state sum.nu c)
    (h : Extends (sum.insertItem e.name (.residual c) e.weight) es sum') :
    Extends sum (e :: es) sum' where
  state := h.state
  nu := h.nu
  nr := by
    have hNr : (Cost.residual c).nr = e.residual.dimension sum.state sum.nu :=
      hc.nr_eq hAcceptable.toBuildable
    rw [h.nr, CostSum.insertItem, List.map_cons, List.sum_cons, hNr, Nat.add_assoc]
  sorted hSorted := h.sorted (hSorted.insert _ _)
  items name item := by
    have hItem : ∀ item', e.DescribesItem sum.state sum.nu item' ↔ item' = ⟨.residual c, e.weight⟩ :=
      fun item' => ⟨fun h' => h'.unique ⟨rfl, c, rfl, hc⟩, fun h' => h' ▸ ⟨rfl, c, rfl, hc⟩⟩
    rw [h.items name item, mem_insertItem hFresh]
    simp only [List.exists_mem_cons_iff, hItem, Prod.mk.injEq]
    constructor
    · rintro ((⟨rfl, rfl⟩ | hOld) | hNew)
      · exact .inr (.inl ⟨rfl, rfl⟩)
      · exact .inl hOld
      · exact .inr (.inr hNew)
    · rintro (hOld | ⟨rfl, rfl⟩ | hNew)
      · exact .inl (.inr hOld)
      · exact .inl (.inl ⟨rfl, rfl⟩)
      · exact .inr hNew

theorem addEntries_ok (h : (addEntries sum es).1 = .ok sum') : Addable sum es ∧ Extends sum es sum' := by
  induction es generalizing sum with
  | nil =>
    cases h
    refine ⟨⟨by simp, .nil, by simp⟩, rfl, rfl, rfl, id, ?_⟩
    intro name item
    simp
  | cons e es ih =>
    obtain ⟨hAcceptable, hFresh, c, hc, hRest⟩ := addEntries_cons_eq_ok_iff.mp h
    obtain ⟨hAddable, hExtends⟩ := ih hRest
    exact ⟨addable_cons_iff.mpr ⟨hAcceptable, hFresh, hAddable⟩,
      hExtends.cons hAcceptable hFresh hc⟩

theorem exists_addEntries (h : Addable sum es) : ∃ sum', (addEntries sum es).1 = .ok sum' := by
  induction es generalizing sum with
  | nil => exact ⟨sum, rfl⟩
  | cons e es ih =>
    obtain ⟨c, hc⟩ := (h.entries e List.mem_cons_self).exists_describes
    obtain ⟨hAcceptable, hFresh, hRest⟩ := addable_cons_iff.mp h
    obtain ⟨sum', hSum⟩ := ih hRest
    exact ⟨sum', addEntries_cons_eq_ok_iff.mpr ⟨hAcceptable, hFresh, c, hc, hSum⟩⟩

theorem exists_refused {err : CostError α} (h : (addEntries sum es).1 = .error err) :
    ∃ before e after, es = before ++ e :: after ∧ Addable sum before ∧
      e.RefusedAfter sum.state sum.nu (before.map ConfigEntry.name ++ sum.items.names) err := by
  induction es generalizing sum with
  | nil => cases h
  | cons e es ih =>
    have hNone : Addable sum [] := ⟨by simp, .nil, by simp⟩
    rw [addEntries] at h
    cases hBuild : e.build sum.state sum.nu with
    | error err' =>
      rw [hBuild] at h
      cases h
      exact ⟨[], e, es, rfl, hNone, .cost (ConfigEntry.refused_of_build hBuild)⟩
    | ok cost =>
      rw [hBuild] at h
      obtain ⟨hBuildable, c, rfl, hc⟩ := ConfigEntry.build_eq_ok_iff.mp hBuild
      cases hFault : sum.addFault? e.name (.residual c) e.weight with
      | some err' =>
        simp only [(CostSum.add_eq_error hFault).1] at h
        cases h
        refine ⟨[], e, es, rfl, hNone, ?_⟩
        cases CostSum.addFault?_eq_some_iff.mp hFault with
        | name hUsed => exact .name hUsed
        | control _ hControl => exact absurd hc.control hControl
        | weight _ _ hWeight => exact .weight hWeight
      | none =>
        obtain ⟨hFresh, -, hWeight⟩ := CostSum.addFault?_eq_none_iff.mp hFault
        obtain ⟨hResult, hSum⟩ := CostSum.add_eq_ok hFault
        simp only [hResult, hSum] at h
        obtain ⟨before, e', after, rfl, hBefore, hRefused⟩ := ih h
        refine ⟨e :: before, e', after, rfl,
          addable_cons_iff.mpr ⟨⟨hBuildable, hWeight⟩, hFresh, hBefore⟩, hRefused.mono ?_⟩
        intro n hn
        rcases List.mem_append.mp hn with hn | hn
        · exact List.mem_append_left _ (List.mem_cons_of_mem _ hn)
        · rcases (mem_names_insertItem hFresh n).mp hn with rfl | hn
          · exact List.mem_append_left _ List.mem_cons_self
          · exact List.mem_append_right _ hn

end Steps

structure Acceptable (c : Config α) (s : Multibody α) : Prop where
  names : (c.entries.map ConfigEntry.name).Nodup
  entries : ∀ e ∈ c.entries, e.Acceptable s (c.nu.getD s.nv)

structure Describes (c : Config α) (s : Multibody α) (sum : CostSum α) : Prop where
  state : sum.state = s
  nu : sum.nu = c.nu.getD s.nv
  nr : sum.nr = (c.entries.map fun e => e.residual.dimension s (c.nu.getD s.nv)).sum
  sorted : sum.items.Sorted
  items : ∀ name item, (name, item) ∈ sum.items ↔
    ∃ e ∈ c.entries, e.name = name ∧ e.DescribesItem s (c.nu.getD s.nv) item

variable {c : Config α} {s : Multibody α} {sum : CostSum α}

theorem fst_build : (c.build s).1 = (addEntries (.empty s (c.nu.getD s.nv)) c.entries).1 := by
  rw [build]
  split
  · rename_i h
    rw [h]
  · rename_i h
    rw [h]

theorem addable_empty_iff :
    Addable (.empty s (c.nu.getD s.nv)) c.entries ↔ c.Acceptable s := by
  constructor
  · rintro ⟨hEntries, hNames, -⟩
    exact ⟨hNames, hEntries⟩
  · rintro ⟨hNames, hEntries⟩
    refine ⟨hEntries, hNames, ?_⟩
    rintro e - ⟨⟩

theorem Extends.describes (h : Extends (.empty s (c.nu.getD s.nv)) c.entries sum) :
    c.Describes s sum where
  state := h.state
  nu := h.nu
  nr := h.nr.trans (Nat.zero_add _)
  sorted := h.sorted (CostSum.sorted_empty s _)
  items name item := by
    rw [h.items name item]
    exact or_iff_right (by rintro ⟨⟩)

theorem Describes.unique {other : CostSum α} (h : c.Describes s sum) (h' : c.Describes s other) :
    sum = other := by
  have hItems : sum.items = other.items := by
    apply Named.eq_of_find? h.sorted h'.sorted
    intro name
    apply Option.ext
    intro item
    rw [← Named.mem_iff_find? h.sorted.nodup, ← Named.mem_iff_find? h'.sorted.nodup, h.items, h'.items]
  have hState := h.state.trans h'.state.symm
  have hNu := h.nu.trans h'.nu.symm
  have hNr := h.nr.trans h'.nr.symm
  cases sum
  cases other
  rw [CostSum.mk.injEq]
  exact ⟨hState, hItems, hNu, hNr⟩

/-- A configuration is built where it is acceptable, as the sum that it describes. -/
theorem build_eq_ok_iff : (c.build s).1 = .ok sum ↔ c.Acceptable s ∧ c.Describes s sum := by
  rw [fst_build]
  constructor
  · intro h
    obtain ⟨hAddable, hExtends⟩ := addEntries_ok h
    exact ⟨addable_empty_iff.mp hAddable, hExtends.describes⟩
  · rintro ⟨hAcceptable, hDescribes⟩
    obtain ⟨built, hBuilt⟩ := exists_addEntries (addable_empty_iff.mpr hAcceptable)
    rw [hBuilt, (addEntries_ok hBuilt).2.describes.unique hDescribes]

theorem exists_build_iff : (∃ sum, (c.build s).1 = .ok sum) ↔ c.Acceptable s := by
  constructor
  · rintro ⟨sum, h⟩
    exact (build_eq_ok_iff.mp h).1
  · intro h
    rw [fst_build]
    exact exists_addEntries (addable_empty_iff.mpr h)

theorem Acceptable.perm {c' : Config α} (hNu : c'.nu = c.nu) (hPerm : c.entries.Perm c'.entries)
    (h : c.Acceptable s) : c'.Acceptable s where
  names := (hPerm.map ConfigEntry.name).nodup_iff.mp h.names
  entries e he := by
    rw [hNu]
    exact h.entries e (hPerm.mem_iff.mpr he)

theorem Describes.perm {c' : Config α} (hNu : c'.nu = c.nu) (hPerm : c.entries.Perm c'.entries)
    (h : c.Describes s sum) : c'.Describes s sum where
  state := h.state
  nu := by rw [hNu, h.nu]
  nr := by
    rw [hNu, h.nr]
    exact (hPerm.map _).sum_eq
  sorted := h.sorted
  items name item := by
    rw [h.items name item, hNu]
    simp only [hPerm.mem_iff]

theorem build_perm {c' : Config α} (hNu : c'.nu = c.nu) (hPerm : c.entries.Perm c'.entries) :
    (c.build s).1 = .ok sum ↔ (c'.build s).1 = .ok sum := by
  rw [build_eq_ok_iff, build_eq_ok_iff]
  constructor
  · exact fun h => ⟨h.1.perm hNu hPerm, h.2.perm hNu hPerm⟩
  · exact fun h => ⟨h.1.perm hNu.symm hPerm.symm, h.2.perm hNu.symm hPerm.symm⟩

theorem refused_of_build {err : CostError α} (h : (c.build s).1 = .error err) :
    ∃ before e after, c.entries = before ++ e :: after ∧ Acceptable ⟨c.nu, before⟩ s ∧
      e.RefusedAfter s (c.nu.getD s.nv) (before.map ConfigEntry.name) err := by
  rw [fst_build] at h
  obtain ⟨before, e, after, hEntries, hBefore, hRefused⟩ := exists_refused h
  refine ⟨before, e, after, hEntries, ⟨hBefore.names, hBefore.entries⟩, ?_⟩
  exact hRefused.mono fun n hn => (List.append_nil (before.map ConfigEntry.name)) ▸ hn

/-- A configuration is built exactly where it is acceptable, as the sum that it describes, whatever
the order of its entries. No error is about a control, and an activation that does not fit is not the
quadratic one. -/
theorem built_as_described (c : Config α) (s : Multibody α) :
    ((∃ sum, (c.build s).1 = .ok sum) ↔ c.Acceptable s) ∧
    (∀ sum, (c.build s).1 = .ok sum → c.Describes s sum) ∧
    (∀ name n m, (c.build s).1 ≠ .error (.controlDimension name n m)) ∧
    (∀ n m, (c.build s).1 = .error (.activationDimension n m) →
      ∃ before e after, c.entries = before ++ e :: after ∧ Acceptable ⟨c.nu, before⟩ s ∧
        e.activation ≠ .quadratic ∧ e.activation.components? = some m ∧
        n = e.residual.dimension s (c.nu.getD s.nv) ∧ m ≠ n) ∧
    ∀ es, c.entries.Perm es →
      ∀ sum, (c.build s).1 = .ok sum ↔ (build ⟨c.nu, es⟩ s).1 = .ok sum := by
  refine ⟨exists_build_iff, fun sum h => (build_eq_ok_iff.mp h).2, ?_, ?_,
    fun es hPerm sum => build_perm rfl hPerm⟩
  · intro name n m h
    obtain ⟨before, e, after, -, -, hRefused⟩ := refused_of_build h
    cases hRefused with
    | cost hCost => exact hCost.ne_controlDimension rfl
  · intro n m h
    obtain ⟨before, e, after, hEntries, hBefore, hRefused⟩ := refused_of_build h
    refine ⟨before, e, after, hEntries, hBefore, ?_⟩
    cases hRefused with
    | cost hCost =>
      obtain ⟨hComponents, hDimension, hOther⟩ := hCost.of_activationDimension
      refine ⟨?_, hComponents, hDimension, hOther⟩
      intro hQuadratic
      rw [hQuadratic] at hComponents
      cases hComponents

noncomputable def rail : Multibody ℝ :=
  ⟨⟨[⟨"slide", .prismatic, none, 0, 0, -1, 1⟩], [⟨"slide", 0⟩], 1, 1⟩⟩

noncomputable def thrust : ConfigEntry ℝ := ⟨"thrust", 0.5, .quadratic, .control (some [1])⟩

noncomputable def place : ConfigEntry ℝ :=
  ⟨"place", 0, .barrier [-1, 0, 0] [1, 0, 0.5] 1, .translation "slide" ⟨1, 0, 0⟩⟩

theorem acceptable_rail : Acceptable ⟨none, [thrust, place]⟩ rail := by
  constructor
  · decide
  · intro e he
    simp only [List.mem_cons, List.not_mem_nil, or_false] at he
    rcases he with rfl | rfl
    · refine ⟨⟨trivial, by rintro n ⟨⟩, ?_⟩, by norm_num [thrust]⟩
      rintro ref ⟨⟩
      rfl
    · refine ⟨⟨?_, ?_, ?_⟩, by simp [place]⟩
      · norm_num [place, ActivationConfig.Valid]
      · rintro n ⟨⟩
        rfl
      · exact List.mem_singleton_self _

theorem built_as_described_rail : ∃ sum : CostSum ℝ,
    (build ⟨none, [thrust, place]⟩ rail).1 = .ok sum ∧
    (build ⟨none, [place, thrust]⟩ rail).1 = .ok sum ∧
    Describes ⟨none, [thrust, place]⟩ rail sum ∧ sum.nr = 4 := by
  obtain ⟨hBuilt, hDescribes, -, -, hPerm⟩ := built_as_described ⟨none, [thrust, place]⟩ rail
  obtain ⟨sum, hSum⟩ := hBuilt.mpr acceptable_rail
  exact ⟨sum, hSum, (hPerm _ (.swap _ _ _) sum).mp hSum, hDescribes sum hSum, (hDescribes sum hSum).nr⟩

end Config

end MultibodyCost
