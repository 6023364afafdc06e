import Mathlib.Data.Fintype.Basic
import Mathlib.Tactic.FinCases
import MultibodyCost.Proofs.Json.Tokens

/-! # Written values read back

A text is read as a value when reading takes all of it and nothing of what follows, as long as what
follows cannot go on a number. Texts are put together from the texts of their parts, with blanks
where they are allowed, and so the layouts of a value are read back alike.
-/

namespace MultibodyCost.Json

namespace Parser

def Blanks (b : List Char) : Prop := ∀ c ∈ b, isBlank c = true

theorem blanks_nil : Blanks [] := fun _ h => by cases h

theorem skipBlanks_append {b : List Char} (hb : Blanks b) (s : List Char) :
    skipBlanks (b ++ s) = skipBlanks s := by
  induction b with
  | nil => rfl
  | cons c b ih =>
    rw [List.cons_append, skipBlanks, List.dropWhile_cons_of_pos (hb c List.mem_cons_self)]
    exact ih fun x hx => hb x (List.mem_cons_of_mem _ hx)

theorem skipBlanks_cons {c : Char} (hc : isBlank c = false) (s : List Char) :
    skipBlanks (c :: s) = c :: s := by
  rw [skipBlanks, List.dropWhile_cons_of_neg (by rw [hc]; exact Bool.false_ne_true)]

def Opens (cs : List Char) : Prop := ∃ c rest, cs = c :: rest ∧ isBlank c = false ∧ c ≠ ']'

theorem value_blanks {b : List Char} (hb : Blanks b) (fuel : Nat) (s : List Char) :
    value fuel (b ++ s) = value fuel s := by
  cases fuel with
  | zero => rfl
  | succ fuel => rw [value, value, skipBlanks_append hb]

theorem items_blanks {b : List Char} (hb : Blanks b) (fuel : Nat) (s : List Char) :
    items fuel (b ++ s) = items fuel s := by
  cases fuel with
  | zero => rfl
  | succ fuel => rw [items, items, value_blanks hb]

theorem members_blanks {b : List Char} (hb : Blanks b) (fuel : Nat) (s : List Char) :
    members fuel (b ++ s) = members fuel s := by
  cases fuel with
  | zero => rfl
  | succ fuel => rw [members, members, skipBlanks_append hb, value_blanks hb]

/-- The text is read as the value, and with fuel of twice its length. -/
structure Reads (j : Json) (cs : List Char) : Prop where
  opens : Opens cs
  value_eq : ∀ fuel rest, 2 * cs.length ≤ fuel → EndsNumber rest →
    value fuel (cs ++ rest) = (j, some rest)

structure ReadsItems (js : List Json) (cs : List Char) : Prop where
  opens : Opens cs
  items_eq : ∀ fuel rest, 2 * cs.length ≤ fuel → items fuel (cs ++ rest) = (js, none, some rest)

structure ReadsMembers (ms : List (Option JsonText × Json)) (cs : List Char) : Prop where
  opens : ∃ rest, cs = '"' :: rest
  members_eq : ∀ fuel rest, 2 * cs.length ≤ fuel →
    members fuel (cs ++ rest) = (ms, none, some rest)

theorem endsNumber_of_blanks {b : List Char} (hb : Blanks b) {c : Char}
    (hc : Digit.ofChar? c = none ∧ c ≠ '.' ∧ c ≠ 'e' ∧ c ≠ 'E') (rest : List Char) :
    EndsNumber (b ++ c :: rest) := by
  cases b with
  | nil =>
    rintro y ⟨rfl⟩
    exact hc
  | cons x b =>
    rintro y ⟨rfl⟩
    have hx := hb x List.mem_cons_self
    simp only [isBlank, Bool.or_eq_true, decide_eq_true_eq] at hx
    rcases hx with ((rfl | rfl) | rfl) | rfl <;> decide

/-- Fuel of twice the length of a text is left over after its first character. -/
theorem exists_fuel {c : Char} {cs : List Char} {fuel : Nat} (h : 2 * (c :: cs).length ≤ fuel) :
    ∃ left, fuel = left + 1 ∧ 2 * cs.length < left := by
  rw [List.length_cons] at h
  exact ⟨fuel - 1, by omega, by omega⟩

theorem reads_null : Reads .null nullChars where
  opens := ⟨'n', _, rfl, by decide, by decide⟩
  value_eq fuel rest hFuel _ := by
    obtain ⟨left, rfl, -⟩ := exists_fuel hFuel
    rfl

theorem reads_bool (b : Bool) : Reads (.bool b) (leaf (.bool b)) where
  opens := by
    cases b with
    | true => exact ⟨'t', _, rfl, by decide, by decide⟩
    | false => exact ⟨'f', _, rfl, by decide, by decide⟩
  value_eq fuel rest hFuel _ := by
    cases b with
    | true =>
      obtain ⟨left, rfl, -⟩ := exists_fuel hFuel
      rfl
    | false =>
      obtain ⟨left, rfl, -⟩ := exists_fuel hFuel
      rfl

theorem value_beginsNumber {c : Char} (hc : BeginsNumber c) (fuel : Nat) (s : List Char) :
    value (fuel + 1) (c :: s) = number (c :: s) := by
  rcases hc with rfl | ⟨d, rfl⟩
  · rfl
  · fin_cases d <;> rfl

theorem BeginsNumber.opens {c : Char} (hc : BeginsNumber c) (cs : List Char) : Opens (c :: cs) := by
  refine ⟨c, cs, rfl, ?_⟩
  rcases hc with rfl | ⟨d, rfl⟩
  · decide
  · revert d
    decide

theorem reads_number {l : Literal} (hl : l.WellFormed) : Reads (.number l) (l.chars true) := by
  obtain ⟨c, cs, hChars, hBegin⟩ := chars_begin hl
  refine ⟨hChars ▸ hBegin.opens cs, ?_⟩
  intro fuel rest hFuel hEnds
  have hNumber := number_chars hl hEnds
  rw [hChars] at hFuel hNumber ⊢
  obtain ⟨left, rfl, -⟩ := exists_fuel hFuel
  rw [List.cons_append] at hNumber ⊢
  rw [value_beginsNumber hBegin, hNumber]

theorem reads_string (s : String) : Reads (.string (.whole s)) (quoted s) where
  opens := ⟨'"', _, rfl, by decide, by decide⟩
  value_eq fuel rest hFuel _ := by
    rw [quoted_eq] at hFuel ⊢
    obtain ⟨left, rfl, hLeft⟩ := exists_fuel hFuel
    have hString : string left (s.toList.flatMap escape ++ '"' :: rest) = (.whole s, some rest) := by
      apply string_quoted
      rw [quoted_eq, List.length_cons]
      omega
    rw [List.cons_append, List.append_assoc, List.singleton_append, value,
      skipBlanks_cons (by decide)]
    simp only [hString]

theorem ReadsItems.last {j : Json} {cs : List Char} (hj : Reads j cs) {b : List Char}
    (hb : Blanks b) : ReadsItems [j] (cs ++ b ++ [']']) where
  opens := by
    obtain ⟨c, rest, rfl, h⟩ := hj.opens
    exact ⟨c, _, rfl, h⟩
  items_eq fuel rest hFuel := by
    simp only [List.length_append, List.length_singleton] at hFuel
    obtain ⟨left, rfl⟩ := Nat.exists_eq_succ_of_ne_zero (show fuel ≠ 0 by omega)
    have hValue := hj.value_eq left (b ++ ']' :: rest) (by omega)
      (endsNumber_of_blanks hb (by decide) rest)
    rw [List.append_assoc, List.append_assoc, List.singleton_append, items, hValue]
    simp only [skipBlanks_append hb, skipBlanks_cons (show isBlank ']' = false by decide)]

theorem ReadsItems.cons {j : Json} {cs : List Char} (hj : Reads j cs) {js : List Json}
    {more : List Char} (hjs : ReadsItems js more) {b : List Char} (hb : Blanks b) :
    ReadsItems (j :: js) (cs ++ ',' :: (b ++ more)) where
  opens := by
    obtain ⟨c, rest, rfl, h⟩ := hj.opens
    exact ⟨c, _, rfl, h⟩
  items_eq fuel rest hFuel := by
    simp only [List.length_append, List.length_cons] at hFuel
    obtain ⟨left, rfl⟩ := Nat.exists_eq_succ_of_ne_zero (show fuel ≠ 0 by omega)
    have hValue := hj.value_eq left (',' :: (b ++ (more ++ rest))) (by omega)
      (endsNumber_of_blanks blanks_nil (by decide) _)
    have hItems := hjs.items_eq left rest (by omega)
    rw [List.append_assoc, List.cons_append, List.append_assoc, items, hValue]
    simp only [skipBlanks_cons (show isBlank ',' = false by decide), items_blanks hb, hItems]

theorem reads_emptyList : Reads (.array [] none) ['[', ']'] where
  opens := ⟨'[', _, rfl, by decide, by decide⟩
  value_eq fuel rest hFuel _ := by
    obtain ⟨left, rfl, -⟩ := exists_fuel hFuel
    rfl

theorem ReadsItems.reads {js : List Json} {cs : List Char} (hjs : ReadsItems js cs) {b : List Char}
    (hb : Blanks b) : Reads (.array js none) ('[' :: (b ++ cs)) where
  opens := ⟨'[', _, rfl, by decide, by decide⟩
  value_eq fuel rest hFuel _ := by
    obtain ⟨left, rfl, hLeft⟩ := exists_fuel hFuel
    rw [List.length_append] at hLeft
    have hItems := hjs.items_eq left rest (by omega)
    obtain ⟨c, cs', rfl, hBlank, hClose⟩ := hjs.opens
    rw [List.cons_append] at hItems
    rw [List.cons_append, List.append_assoc, List.cons_append, value,
      skipBlanks_cons (show isBlank '[' = false by decide)]
    simp only [skipBlanks_append hb, skipBlanks_cons hBlank]
    split
    · rename_i hEq
      exact absurd (List.cons.inj hEq).1 hClose
    · rename_i hEq
      cases hEq
    · rw [hItems]

def afterMember (left : Nat) (member : Option JsonText × Json) (rest : List Char) :
    List (Option JsonText × Json) × Option JsonFault × Option (List Char) :=
  match skipBlanks rest with
  | ',' :: rest =>
    let (ms, stop, rest) := members left rest
    (member :: ms, stop, rest)
  | '\x7d' :: rest => ([member], none, some rest)
  | [] => ([member], some .truncated, none)
  | _ => ([member], some .malformed, none)

theorem members_member (k : String) {j : Json} {cs : List Char} (hj : Reads j cs)
    {gap : List Char} (hGap : Blanks gap) (left : Nat) (rest : List Char)
    (hKey : (quoted k).length ≤ left) (hFuel : 2 * cs.length ≤ left) (hEnds : EndsNumber rest) :
    members (left + 1) (quoted k ++ ':' :: (gap ++ (cs ++ rest))) =
      afterMember left (some (.whole k), j) rest := by
  have hString := string_quoted k (':' :: (gap ++ (cs ++ rest))) hKey
  have hValue := hj.value_eq left rest hFuel hEnds
  rw [quoted_eq, List.cons_append, List.append_assoc, List.singleton_append, members,
    skipBlanks_cons (show isBlank '"' = false by decide)]
  simp only [hString, skipBlanks_cons (show isBlank ':' = false by decide), value_blanks hGap, hValue]
  rfl

theorem ReadsMembers.last {j : Json} {cs : List Char} (hj : Reads j cs) (k : String)
    {gap b : List Char} (hGap : Blanks gap) (hb : Blanks b) :
    ReadsMembers [(some (.whole k), j)] (quoted k ++ ':' :: (gap ++ (cs ++ (b ++ ['\x7d'])))) where
  opens := ⟨_, rfl⟩
  members_eq fuel rest hFuel := by
    simp only [List.length_append, List.length_cons] at hFuel
    obtain ⟨left, rfl⟩ := Nat.exists_eq_succ_of_ne_zero (show fuel ≠ 0 by omega)
    have hMember := members_member k hj hGap left (b ++ '\x7d' :: rest) (by omega) (by omega)
      (endsNumber_of_blanks hb (by decide) rest)
    simp only [List.append_assoc, List.cons_append, List.nil_append, Nat.succ_eq_add_one, hMember,
      afterMember, skipBlanks_append hb, skipBlanks_cons (show isBlank '\x7d' = false by decide)]

theorem ReadsMembers.cons {j : Json} {cs : List Char} (hj : Reads j cs) (k : String)
    {ms : List (Option JsonText × Json)} {more : List Char} (hms : ReadsMembers ms more)
    {gap b : List Char} (hGap : Blanks gap) (hb : Blanks b) :
    ReadsMembers ((some (.whole k), j) :: ms)
      (quoted k ++ ':' :: (gap ++ (cs ++ ',' :: (b ++ more)))) where
  opens := ⟨_, rfl⟩
  members_eq fuel rest hFuel := by
    simp only [List.length_append, List.length_cons] at hFuel
    obtain ⟨left, rfl⟩ := Nat.exists_eq_succ_of_ne_zero (show fuel ≠ 0 by omega)
    have hMember := members_member k hj hGap left (',' :: (b ++ (more ++ rest))) (by omega) (by omega)
      (endsNumber_of_blanks blanks_nil (by decide) _)
    have hMembers := hms.members_eq left rest (by omega)
    simp only [List.append_assoc, List.cons_append, Nat.succ_eq_add_one, hMember, afterMember,
      skipBlanks_cons (show isBlank ',' = false by decide), members_blanks hb, hMembers]

theorem reads_emptyObject : Reads (.object [] none) ['\x7b', '\x7d'] where
  opens := ⟨'\x7b', _, rfl, by decide, by decide⟩
  value_eq fuel rest hFuel _ := by
    obtain ⟨left, rfl, -⟩ := exists_fuel hFuel
    rfl

theorem ReadsMembers.reads {ms : List (Option JsonText × Json)} {cs : List Char}
    (hms : ReadsMembers ms cs) {b : List Char} (hb : Blanks b) :
    Reads (.object ms none) ('\x7b' :: (b ++ cs)) where
  opens := ⟨'\x7b', _, rfl, by decide, by decide⟩
  value_eq fuel rest hFuel _ := by
    obtain ⟨left, rfl, hLeft⟩ := exists_fuel hFuel
    rw [List.length_append] at hLeft
    have hMembers := hms.members_eq left rest (by omega)
    obtain ⟨cs', rfl⟩ := hms.opens
    rw [List.cons_append] at hMembers
    rw [List.cons_append, List.append_assoc, List.cons_append, value,
      skipBlanks_cons (show isBlank '\x7b' = false by decide)]
    simp only [skipBlanks_append hb, skipBlanks_cons (show isBlank '"' = false by decide)]
    split
    · rename_i hEq
      cases hEq
    · rename_i hEq
      cases hEq
    · rw [hMembers]

end Parser

end MultibodyCost.Json
