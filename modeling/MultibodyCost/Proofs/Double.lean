import Mathlib
import MultibodyCost.Decimal.Shortest
import MultibodyCost.Scalar

/-! # Doubles by their bits

The fields of a double are read off its bits as a natural number. The exponent field tells which
doubles are finite, and a zero has no bit set but that of its sign.
-/

namespace MultibodyCost.Double

open Float.Model UnpackedFloat

theorem eq_of_toBits {v w : Float} (h : v.toBits = w.toBits) : v = w := by
  obtain ⟨⟨bits, _⟩⟩ := v
  obtain ⟨⟨bits', _⟩⟩ := w
  obtain rfl : bits = bits' := h
  rfl

def exponentField (w : Float) : Nat := w.toBits.toNat / unitBits % 2048

def mantissaField (w : Float) : Nat := w.toBits.toNat % unitBits

theorem unpackExponent_eq_iff (w : Float) (n : BitVec 11) :
    @unpackExponent .binary64 w.toModel.toBits.toBitVec = n ↔ exponentField w = n.toNat := by
  rw [← BitVec.toNat_inj]
  change (w.toBits.toNat >>> 52) % 2048 = _ ↔ _
  rw [Nat.shiftRight_eq_div_pow]
  rfl

theorem unpackMantissa_eq_iff (w : Float) (n : BitVec 52) :
    @unpackMantissa .binary64 w.toModel.toBits.toBitVec = n ↔ mantissaField w = n.toNat := by
  rw [← BitVec.toNat_inj]
  change (w.toBits.toNat >>> 0) % unitBits = _ ↔ _
  rw [Nat.shiftRight_zero]
  rfl

theorem exponentField_of_not_finite {w : Float} (h : Scalar.isFinite w = false) :
    exponentField w = 2047 := by
  change w.toModel.unpack.isFinite = false at h
  unfold Float.Model.unpack UnpackedFloat.unpack at h
  dsimp only at h
  split at h
  · rename_i hExponent
    exact (unpackExponent_eq_iff w (-1)).mp hExponent
  · split at h
    · split at h
      · cases h
      · cases h
    · cases h

theorem fields_of_zero {w : Float} {sign : Sign} (h : w.toModel.unpack = .zero sign) :
    exponentField w = 0 ∧ mantissaField w = 0 := by
  unfold Float.Model.unpack UnpackedFloat.unpack at h
  dsimp only at h
  split at h
  · split at h
    · cases h
    · cases h
  · split at h
    · rename_i hExponent
      split at h
      · rename_i hMantissa
        exact ⟨(unpackExponent_eq_iff w 0).mp hExponent, (unpackMantissa_eq_iff w 0).mp hMantissa⟩
      · cases h
    · cases h

theorem eq_zero_of_unpack {w : Float} {sign : Sign} (h : w.toModel.unpack = .zero sign) :
    w = 0 ∨ w = -0 := by
  obtain ⟨hExponent, hMantissa⟩ := fields_of_zero h
  have hBits : w.toBits.toNat = 0 ∨ w.toBits.toNat = 9223372036854775808 := by
    have hWord : w.toBits.toNat < 18446744073709551616 := UInt64.toNat_lt _
    unfold exponentField unitBits at hExponent
    unfold mantissaField unitBits at hMantissa
    omega
  refine hBits.imp (fun hZero => eq_of_toBits ?_) fun hZero => eq_of_toBits ?_
  · rw [show (0 : Float).toBits = 0 by decide +kernel]
    exact UInt64.toNat_inj.mp hZero
  · rw [show (-0 : Float).toBits = 9223372036854775808 by decide +kernel]
    exact UInt64.toNat_inj.mp hZero

theorem le_iff (v w : Float) : v ≤ w ↔ v.toModel.unpack.le w.toModel.unpack = true :=
  decide_eq_true_iff

theorem lt_iff (v w : Float) : v < w ↔ v.toModel.unpack.lt w.toModel.unpack = true :=
  decide_eq_true_iff

theorem isFinite_of_unit {w : Float} (hPos : 0 < w) (hLe : w ≤ 1) : Scalar.isFinite w = true := by
  rw [lt_iff] at hPos
  rw [le_iff] at hLe
  change w.toModel.unpack.isFinite = true
  cases hUnpack : w.toModel.unpack with
  | notANumber =>
    rw [hUnpack] at hLe
    exact absurd hLe (by decide +kernel)
  | infinity sign =>
    rw [hUnpack] at hPos hLe
    cases sign with
    | positive => exact absurd hLe (by decide +kernel)
    | negative => exact absurd hPos (by decide +kernel)
  | zero sign => rfl
  | finite sign mantissa exponent h => rfl

theorem isNumber_of_le {v w : Float} (h : v ≤ w) :
    v.toModel.unpack ≠ .notANumber ∧ w.toModel.unpack ≠ .notANumber := by
  rw [le_iff] at h
  constructor
  · intro hv
    rw [hv] at h
    cases h
  · intro hw
    rw [hw] at h
    cases hv : v.toModel.unpack <;> rw [hv] at h <;> cases h

theorem isInf_of_not_finite {w : Float} (hNumber : w.toModel.unpack ≠ .notANumber)
    (h : Scalar.isFinite w = false) : w.isInf = true := by
  change w.toModel.unpack.isFinite = false at h
  change w.toModel.unpack.isInf = true
  cases hw : w.toModel.unpack with
  | notANumber => exact absurd hw hNumber
  | infinity sign => rfl
  | zero sign =>
    rw [hw] at h
    cases h
  | finite sign mantissa exponent hPos =>
    rw [hw] at h
    cases h

theorem not_finite_of_isInf {w : Float} (h : w.isInf = true) : Scalar.isFinite w = false := by
  change w.toModel.unpack.isInf = true at h
  change w.toModel.unpack.isFinite = false
  cases hw : w.toModel.unpack with
  | infinity sign => rfl
  | notANumber => rfl
  | zero sign =>
    rw [hw] at h
    cases h
  | finite sign mantissa exponent hPos =>
    rw [hw] at h
    cases h

end MultibodyCost.Double
