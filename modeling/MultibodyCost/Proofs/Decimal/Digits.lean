import Mathlib.Data.List.Basic
import MultibodyCost.Decimal.Literal

/-! # Decimal digits: a number and what is written for it

The digits of a number denote it, there is at least one, and none is wasted on leading zeros. A
literal with such digits before its point is what a number in a text looks like.
-/

namespace MultibodyCost

namespace Digit

theorem ofNat_go (n : Nat) (tail : List Digit) : ofNat.go n tail = ofNat n ++ tail := by
  induction n using Nat.strongRecOn generalizing tail with
  | ind n ih =>
    rw [ofNat, ofNat.go.eq_def n tail, ofNat.go.eq_def n []]
    by_cases hSmall : n < 10
    · simp only [dif_pos hSmall, List.singleton_append]
    · simp only [dif_neg hSmall]
      rw [ih (n / 10) (by omega), ih (n / 10) (by omega) [_], List.append_assoc,
        List.singleton_append]

theorem ofNat_small {n : Nat} (h : n < 10) : ofNat n = [⟨n, h⟩] := by
  rw [ofNat, ofNat.go]
  simp only [dif_pos h, Nat.mod_eq_of_lt h]

theorem ofNat_large {n : Nat} (h : 10 ≤ n) :
    ofNat n = ofNat (n / 10) ++ [⟨n % 10, Nat.mod_lt n (by decide)⟩] := by
  rw [ofNat, ofNat.go]
  simp only [dif_neg (Nat.not_lt_of_le h), ofNat_go]

theorem toNat_append_singleton (ds : List Digit) (d : Digit) :
    toNat (ds ++ [d]) = 10 * toNat ds + d.val := by
  simp only [toNat, List.foldl_append, List.foldl_cons, List.foldl_nil]

theorem toNat_ofNat (n : Nat) : toNat (ofNat n) = n := by
  induction n using Nat.strongRecOn with
  | ind n ih =>
    by_cases hSmall : n < 10
    · rw [ofNat_small hSmall]
      simp [toNat]
    · rw [ofNat_large (Nat.le_of_not_lt hSmall), toNat_append_singleton, ih (n / 10) (by omega)]
      exact Nat.div_add_mod n 10

/-- At least one digit, and a leading zero only where it is the only digit. -/
def Unpadded (ds : List Digit) : Prop :=
  ∃ d rest, ds = d :: rest ∧ (d = .zero → rest = [])

theorem ofNat_head_pos {n : Nat} (h : 0 < n) : ∃ d rest, ofNat n = d :: rest ∧ d ≠ .zero := by
  induction n using Nat.strongRecOn with
  | ind n ih =>
    by_cases hSmall : n < 10
    · refine ⟨⟨n, hSmall⟩, [], ofNat_small hSmall, ?_⟩
      intro hZero
      have hVal : n = 0 := congrArg Fin.val hZero
      omega
    · obtain ⟨d, rest, hDigits, hd⟩ := ih (n / 10) (by omega) (by omega)
      rw [ofNat_large (Nat.le_of_not_lt hSmall), hDigits]
      exact ⟨d, _, rfl, hd⟩

theorem ofNat_unpadded (n : Nat) : Unpadded (ofNat n) := by
  by_cases hZero : n = 0
  · subst hZero
    exact ⟨0, [], ofNat_small (by decide), fun _ => rfl⟩
  · obtain ⟨d, rest, hDigits, hd⟩ := ofNat_head_pos (Nat.pos_of_ne_zero hZero)
    exact ⟨d, rest, hDigits, fun h => absurd h hd⟩

theorem char_ne (d : Digit) {c : Char} (h : ofChar? c = none) : d.char ≠ c := by
  rintro rfl
  rw [ofChar?_char] at h
  cases h

end Digit

namespace Literal

def WellFormed (l : Literal) : Prop := Digit.Unpadded l.whole

theorem ofNat_wellFormed (n : Nat) : (ofNat n).WellFormed := Digit.ofNat_unpadded n

theorem natural?_ofNat {n : Nat} (h : n < wordBound) : (ofNat n).natural? = some n := by
  simp only [natural?, ofNat, Digit.toNat_ofNat, h, and_self, if_true]

end Literal

end MultibodyCost
