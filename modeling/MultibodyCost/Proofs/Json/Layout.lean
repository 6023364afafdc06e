import MultibodyCost.Json.Encode
import MultibodyCost.Proofs.Json.Reading

/-! # Layouts read back

A value without a break, whose numbers have the form of numbers, is what its text is read as, in
either layout.
-/

namespace MultibodyCost.Json

open MultibodyCost.Json.Parser

mutual

def Plain : Json → Prop
  | .null => True
  | .bool _ => True
  | .number l => l.WellFormed
  | .string (.whole _) => True
  | .array items none => PlainItems items
  | .object members none => PlainMembers members
  | _ => False

def PlainItems : List Json → Prop
  | [] => True
  | j :: js => Plain j ∧ PlainItems js

def PlainMembers : List (Option JsonText × Json) → Prop
  | [] => True
  | (some (.whole _), j) :: ms => Plain j ∧ PlainMembers ms
  | _ :: _ => False

end

theorem plainItems_iff {js : List Json} : PlainItems js ↔ ∀ j ∈ js, Plain j := by
  induction js with
  | nil => simp [PlainItems]
  | cons j js ih => simp [PlainItems, ih]

theorem plain_list {js : List Json} (h : ∀ j ∈ js, Plain j) : Plain (list js) :=
  plainItems_iff.mpr h

theorem plain_record {ms : List (String × Json)} (h : ∀ m ∈ ms, Plain m.2) : Plain (record ms) := by
  show PlainMembers (ms.map fun m => (some (.whole m.1), m.2))
  induction ms with
  | nil => trivial
  | cons m ms ih =>
    exact ⟨h m List.mem_cons_self, ih fun x hx => h x (List.mem_cons_of_mem _ hx)⟩

theorem plain_natural (n : Nat) : Plain (natural n) := Literal.ofNat_wellFormed n

theorem plain_optional {β : Type} {f : β → Json} (h : ∀ x, Plain (f x)) (x : Option β) :
    Plain (optional f x) := by
  cases x with
  | none => trivial
  | some x => exact h x

mutual

theorem reads_compactChars : ∀ j, Plain j → Reads j (compactChars j)
  | .null, _ => reads_null
  | .bool b, _ => reads_bool b
  | .number _, h => reads_number h
  | .string (.whole s), _ => reads_string s
  | .array [] none, _ => reads_emptyList
  | .array (j :: js) none, h =>
    (readsItems_compactItems (j :: js) (List.cons_ne_nil j js) h).reads blanks_nil
  | .object [] none, _ => reads_emptyObject
  | .object (m :: ms) none, h =>
    (readsMembers_compactMembers (m :: ms) (List.cons_ne_nil m ms) h).reads blanks_nil

theorem readsItems_compactItems : ∀ js, js ≠ [] → PlainItems js → ReadsItems js (compactItems js)
  | [], hNe, _ => absurd rfl hNe
  | [j], _, h => by
    have hLast := ReadsItems.last (reads_compactChars j h.1) blanks_nil
    rwa [List.append_nil] at hLast
  | j :: next :: rest, _, h =>
    .cons (reads_compactChars j h.1)
      (readsItems_compactItems (next :: rest) (List.cons_ne_nil next rest) h.2) blanks_nil

theorem readsMembers_compactMembers :
    ∀ ms, ms ≠ [] → PlainMembers ms → ReadsMembers ms (compactMembers ms)
  | [], hNe, _ => absurd rfl hNe
  | [(some (.whole k), j)], _, h => by
    have hLast := ReadsMembers.last (reads_compactChars j h.1) k blanks_nil blanks_nil
    simpa only [compactMembers, keyChars, List.nil_append, List.append_assoc,
      List.cons_append] using hLast
  | (some (.whole k), j) :: next :: rest, _, h => by
    have hCons := ReadsMembers.cons (reads_compactChars j h.1) k
      (readsMembers_compactMembers (next :: rest) (List.cons_ne_nil next rest) h.2)
      blanks_nil blanks_nil
    simpa only [compactMembers, keyChars, List.nil_append, List.append_assoc,
      List.cons_append] using hCons

end

theorem parse_of_reads {j : Json} {cs : List Char} (h : Reads j cs) : parse cs = ⟨j, false⟩ := by
  have hValue := h.value_eq (2 * cs.length + 2) [] (by omega) (fun c hc => by cases hc)
  rw [List.append_nil] at hValue
  rw [parse, hValue]
  rfl

theorem parse_compact {j : Json} (h : Plain j) : parse j.compact.toList = ⟨j, false⟩ := by
  rw [compact, String.toList_ofList]
  exact parse_of_reads (reads_compactChars j h)

theorem blanks_newline (level : Nat) : Blanks (newline level) := by
  intro c hc
  rcases List.mem_cons.mp hc with rfl | hc
  · rfl
  · rw [List.eq_of_mem_replicate hc]
    rfl

theorem blanks_gap : Blanks [' '] := by
  intro c hc
  rw [List.mem_singleton.mp hc]
  rfl

-- The first element or member is given with its text, and the recursion is on those behind it.
mutual

theorem reads_prettyChars : ∀ (j : Json) (level : Nat), Plain j → Reads j (prettyChars level j)
  | .null, _, _ => reads_null
  | .bool b, _, _ => reads_bool b
  | .number _, _, h => reads_number h
  | .string (.whole s), _, _ => reads_string s
  | .array [] none, _, _ => reads_emptyList
  | .array (j :: js) none, level, h => by
    have hItems := readsItems_prettyItems js level (reads_prettyChars j (level + 1) h.1) h.2
    simpa only [prettyChars, List.cons_append, List.append_assoc] using
      hItems.reads (blanks_newline (level + 1))
  | .object [] none, _, _ => reads_emptyObject
  | .object ((some (.whole k), j) :: ms) none, level, h => by
    have hMembers := readsMembers_prettyMembers ms level k (reads_prettyChars j (level + 1) h.1) h.2
    simpa only [prettyChars, keyChars, List.cons_append, List.append_assoc, List.nil_append] using
      hMembers.reads (blanks_newline (level + 1))

theorem readsItems_prettyItems : ∀ (js : List Json) (level : Nat) {j : Json} {cs : List Char},
    Reads j cs → PlainItems js → ReadsItems (j :: js) (cs ++ prettyItems level js)
  | [], level, _, _, hj, _ => by
    have hLast := ReadsItems.last hj (blanks_newline level)
    rwa [List.append_assoc] at hLast
  | next :: rest, level, _, _, hj, h => by
    have hRest := readsItems_prettyItems rest level (reads_prettyChars next (level + 1) h.1) h.2
    have hCons := ReadsItems.cons hj hRest (blanks_newline (level + 1))
    simpa only [prettyItems, List.cons_append, List.append_assoc] using hCons

theorem readsMembers_prettyMembers : ∀ (ms : List (Option JsonText × Json)) (level : Nat)
    (k : String) {j : Json} {cs : List Char}, Reads j cs → PlainMembers ms →
      ReadsMembers ((some (.whole k), j) :: ms)
        (quoted k ++ ':' :: ([' '] ++ (cs ++ prettyMembers level ms)))
  | [], level, k, _, _, hj, _ => ReadsMembers.last hj k blanks_gap (blanks_newline level)
  | (some (.whole next), v) :: rest, level, k, _, _, hj, h => by
    have hRest := readsMembers_prettyMembers rest level next
      (reads_prettyChars v (level + 1) h.1) h.2
    have hCons := ReadsMembers.cons hj k hRest blanks_gap (blanks_newline (level + 1))
    simpa only [prettyMembers, keyChars, List.cons_append, List.append_assoc, List.nil_append] using
      hCons

end

theorem parse_pretty {j : Json} (h : Plain j) : parse j.pretty.toList = ⟨j, false⟩ := by
  rw [pretty, String.toList_ofList]
  exact parse_of_reads (reads_prettyChars j 0 h)

end MultibodyCost.Json
