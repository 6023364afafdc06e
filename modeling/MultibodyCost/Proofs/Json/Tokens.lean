import MultibodyCost.Json.Parser
import MultibodyCost.Json.Printer
import MultibodyCost.Proofs.Decimal.Digits

/-! # Numbers and strings read back

A written number is read as the literal it was written from where what follows cannot belong to it,
and a written string as the string, whatever characters it has.
-/

namespace MultibodyCost.Json

namespace Parser

/-- No digit, point or exponent begins here, so that a number before this ends. -/
def EndsNumber (rest : List Char) : Prop :=
  ∀ c ∈ rest.head?, Digit.ofChar? c = none ∧ c ≠ '.' ∧ c ≠ 'e' ∧ c ≠ 'E'

def NoDigit (rest : List Char) : Prop := ∀ c ∈ rest.head?, Digit.ofChar? c = none

theorem EndsNumber.noDigit {rest : List Char} (h : EndsNumber rest) : NoDigit rest :=
  fun c hc => (h c hc).1

theorem spanDigits_noDigit {rest : List Char} (h : NoDigit rest) : spanDigits rest = ([], rest) := by
  cases rest with
  | nil => rfl
  | cons c rest => simp only [spanDigits, h c rfl]

theorem spanDigits_append (ds : List Digit) {rest : List Char} (h : NoDigit rest) :
    spanDigits (ds.map Digit.char ++ rest) = (ds, rest) := by
  induction ds with
  | nil => exact spanDigits_noDigit h
  | cons d ds ih =>
    rw [List.map_cons, List.cons_append, spanDigits, Digit.ofChar?_char]
    simp only [ih]

def fractionChars (fraction : List Digit) : List Char :=
  if fraction.isEmpty then [] else '.' :: fraction.map Digit.char

def powerChars : Option Int → List Char
  | none => []
  | some e => Literal.exponentChars true e

theorem exponent_chars (e : Option Int) {rest : List Char} (h : EndsNumber rest) :
    exponent (powerChars e ++ rest) = .ok (e, rest) := by
  cases e with
  | none =>
    rw [powerChars, List.nil_append]
    cases rest with
    | nil => rfl
    | cons c rest =>
      obtain ⟨-, -, hLower, hUpper⟩ := h c rfl
      simp only [exponent, hLower, hUpper, or_self, if_false]
  | some e =>
    obtain ⟨d, ds, hDigits, -⟩ := Digit.ofNat_unpadded e.natAbs
    have hSpan : spanDigits ((d :: ds).map Digit.char ++ rest) = (d :: ds, rest) :=
      spanDigits_append _ h.noDigit
    have hAbs : Digit.toNat (d :: ds) = e.natAbs := by rw [← hDigits, Digit.toNat_ofNat]
    simp only [powerChars, Literal.exponentChars, hDigits, List.cons_append, exponent, true_or,
      if_true]
    by_cases hNeg : e < 0
    · have hValue : -(e.natAbs : Int) = e := by omega
      simp only [hNeg, if_true, List.cons_append, List.nil_append, hSpan, hAbs, hValue]
    · have hValue : (e.natAbs : Int) = e := by omega
      simp only [hNeg, if_false, List.cons_append, List.nil_append, hSpan, hAbs,
        Bool.false_eq_true, hValue]

theorem fraction_chars (ds : List Digit) {rest : List Char} (h : NoDigit rest)
    (hPoint : rest.head? ≠ some '.') : fraction (fractionChars ds ++ rest) = .ok (ds, rest) := by
  cases ds with
  | nil =>
    rw [fractionChars, List.isEmpty_nil, if_pos rfl, List.nil_append]
    unfold fraction
    split
    · exact absurd rfl hPoint
    · rfl
  | cons d ds =>
    have hSpan := spanDigits_append (d :: ds) h
    simp only [fractionChars, List.isEmpty_cons, Bool.false_eq_true, if_false, List.cons_append,
      fraction, hSpan]

theorem chars_eq (l : Literal) :
    l.chars true = (if l.negative then ['-'] else []) ++
      (l.whole.map Digit.char ++ (fractionChars l.fraction ++ powerChars l.exponent)) := by
  cases hExponent : l.exponent <;>
    simp only [Literal.chars, hExponent, fractionChars, powerChars, List.append_assoc]

theorem unsigned_chars {l : Literal} (hl : l.WellFormed) {rest : List Char} (h : EndsNumber rest) :
    unsigned l.negative (l.whole.map Digit.char ++
      (fractionChars l.fraction ++ (powerChars l.exponent ++ rest))) = .ok (l, rest) := by
  have hPower : NoDigit (powerChars l.exponent ++ rest) ∧
      (powerChars l.exponent ++ rest).head? ≠ some '.' := by
    cases hExponent : l.exponent with
    | none =>
      refine ⟨h.noDigit, ?_⟩
      intro hPoint
      exact (h '.' hPoint).2.1 rfl
    | some e =>
      refine ⟨?_, fun hPoint => by cases hPoint⟩
      rintro c ⟨rfl⟩
      decide
  have hFraction : NoDigit (fractionChars l.fraction ++ (powerChars l.exponent ++ rest)) := by
    cases hDigits : l.fraction with
    | nil => exact hPower.1
    | cons d ds =>
      rintro c ⟨rfl⟩
      decide
  obtain ⟨d, ds, hWhole, hLead⟩ := hl
  simp only [unsigned, spanDigits_append l.whole hFraction]
  rw [hWhole]
  split
  · rename_i hEq
    cases hEq
  · rename_i hEq
    cases hEq
    cases hLead rfl
  · simp only [bind, Except.bind, fraction_chars l.fraction hPower.1 hPower.2,
      exponent_chars l.exponent h, pure, Except.pure]
    rw [← hWhole]

theorem number_chars {l : Literal} (hl : l.WellFormed) {rest : List Char} (h : EndsNumber rest) :
    number (l.chars true ++ rest) = (.number l, some rest) := by
  have hUnsigned := unsigned_chars hl h
  rw [chars_eq, List.append_assoc, List.append_assoc, List.append_assoc]
  cases hNegative : l.negative with
  | true =>
    rw [hNegative] at hUnsigned
    simp only [if_true, List.cons_append, List.nil_append, number, hUnsigned]
  | false =>
    rw [hNegative] at hUnsigned
    simp only [Bool.false_eq_true, if_false, List.nil_append]
    obtain ⟨d, ds, hWhole, -⟩ := hl
    have hMinus : d.char ≠ '-' := d.char_ne (by decide)
    unfold number
    split
    · rename_i hEq
      rw [hWhole, List.map_cons, List.cons_append] at hEq
      exact absurd (List.cons.inj hEq).1 hMinus
    · rw [hUnsigned]

def BeginsNumber (c : Char) : Prop := c = '-' ∨ ∃ d : Digit, c = d.char

theorem chars_begin {l : Literal} (hl : l.WellFormed) :
    ∃ c cs, l.chars true = c :: cs ∧ BeginsNumber c := by
  obtain ⟨d, ds, hWhole, -⟩ := hl
  rw [chars_eq, hWhole]
  cases l.negative with
  | true => exact ⟨'-', _, rfl, Or.inl rfl⟩
  | false => exact ⟨d.char, _, rfl, Or.inr ⟨d, rfl⟩⟩

theorem hexDigit?_hexChar {n : Nat} (h : n < 16) : hexDigit? (hexChar n) = some n := by
  revert n
  decide

theorem hexDigits_control {n : Nat} (h : n < 32) (rest : List Char) :
    hexDigits ('0' :: '0' :: hexChar (n / 16) :: hexChar (n % 16) :: rest) = .ok (n, rest) := by
  have hZero : hexDigit? '0' = some 0 := by decide
  have hValue : ((0 * 16 + 0) * 16 + n / 16) * 16 + n % 16 = n := by omega
  simp only [hexDigits, hex?, hZero, hexDigit?_hexChar (show n / 16 < 16 by omega),
    hexDigit?_hexChar (show n % 16 < 16 by omega), bind, Option.bind, pure, hValue]

theorem nextPiece_escape (c : Char) (rest : List Char) :
    nextPiece (escape c ++ rest) = (.char c, rest) := by
  by_cases hLetter : c ∈ ['"', '\\', '\x08', '\x0c', '\n', '\r', '\t']
  · simp only [List.mem_cons, List.not_mem_nil, or_false] at hLetter
    rcases hLetter with rfl | rfl | rfl | rfl | rfl | rfl | rfl <;> rfl
  simp only [List.mem_cons, List.not_mem_nil, or_false, not_or] at hLetter
  obtain ⟨hQuote, hSlash, hBack, hFeed, hLine, hReturn, hTab⟩ := hLetter
  simp only [escape, hQuote, hSlash, hBack, hFeed, hLine, hReturn, hTab, if_false]
  by_cases hControl : c.toNat < 32
  · have hLow : isLowSurrogate c.toNat = false := by simp [isLowSurrogate]; omega
    have hHigh : isHighSurrogate c.toNat = false := by simp [isHighSurrogate]; omega
    simp only [hControl, if_true, List.cons_append, List.nil_append, nextPiece, escapePiece,
      hexDigits_control hControl, hLow, hHigh, Bool.false_eq_true, if_false, Char.ofNat_toNat]
  · simp only [hControl, if_false, List.cons_append, List.nil_append]
    unfold nextPiece
    split
    · rename_i hEq
      cases hEq
    · rename_i hEq
      exact absurd (List.cons.inj hEq).1 hQuote
    · rename_i hEq
      exact absurd (List.cons.inj hEq).1 hSlash
    · rename_i hEq
      obtain ⟨rfl, rfl⟩ := List.cons.inj hEq
      rw [if_neg hControl]

theorem stringTail_escaped (cs : List Char) {fuel : Nat} (hFuel : cs.length < fuel)
    (read rest : List Char) :
    stringTail fuel (some read) (cs.flatMap escape ++ '"' :: rest) =
      (.whole (String.ofList (read.reverse ++ cs)), some rest) := by
  induction cs generalizing fuel read with
  | nil =>
    obtain ⟨fuel, rfl⟩ := Nat.exists_eq_succ_of_ne_zero (Nat.ne_of_gt hFuel)
    rw [List.append_nil]
    rfl
  | cons c cs ih =>
    obtain ⟨fuel, rfl⟩ := Nat.exists_eq_succ_of_ne_zero (Nat.ne_of_gt (Nat.zero_lt_of_lt hFuel))
    have hFuel' : cs.length < fuel := by
      rw [List.length_cons] at hFuel
      omega
    rw [List.flatMap_cons, List.append_assoc, stringTail, nextPiece_escape]
    have hRead := ih hFuel' (c :: read)
    rw [List.reverse_cons, List.append_assoc, List.singleton_append] at hRead
    exact hRead

theorem escape_ne_nil (c : Char) : 0 < (escape c).length := by
  unfold escape
  split_ifs <;> exact Nat.zero_lt_succ _

theorem length_le_escaped (cs : List Char) : cs.length ≤ (cs.flatMap escape).length := by
  induction cs with
  | nil => exact Nat.le_refl 0
  | cons c cs ih =>
    rw [List.flatMap_cons, List.length_append, List.length_cons]
    have hEscape := escape_ne_nil c
    omega

theorem quoted_eq (s : String) : quoted s = '"' :: (s.toList.flatMap escape ++ ['"']) := rfl

theorem string_quoted (s : String) (rest : List Char) {fuel : Nat}
    (hFuel : (quoted s).length ≤ fuel) :
    string fuel (s.toList.flatMap escape ++ '"' :: rest) = (.whole s, some rest) := by
  have hLength := length_le_escaped s.toList
  rw [quoted_eq, List.length_cons, List.length_append] at hFuel
  rw [string, stringTail_escaped s.toList (by omega), List.reverse_nil, List.nil_append,
    String.ofList_toList]

end Parser

end MultibodyCost.Json
