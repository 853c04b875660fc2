import Blockwork.Number.Binary
import Mathlib.Algebra.Group.Nat.Defs
import Mathlib.Tactic.Common

/-!
# The words of 64-bit numbers

A word of 64 bits has a sign, an exponent and a fraction. What the exact reader of words makes of
them is related here to what the operations on numbers take them for: a number is finite if its
exponent is not all ones, and then its mantissa has at most 53 bits.

## Main statements

* `unpack_of_ones`, `unpack_of_not_ones`: what the operations take a word for.
* `Binary.decode_double`: the exact value of a word, by its fields.
* `Binary.ofFloat_eq`: both are the same.
-/

namespace Blockwork

open Float.Model (UnpackedFloat Format)
open Float.Model.UnpackedFloat

/-! ## Fields -/

/-- The fraction of a word. -/
def fractionOf (word : Nat) : Nat := word % 2 ^ 52

/-- The exponent of a word. -/
def exponentOf (word : Nat) : Nat := word / 2 ^ 52 % 2 ^ 11

/-- The mantissa of a word: the fraction, with a leading one if the exponent is not zero. -/
def mantissaOf (word : Nat) : Nat :=
  if exponentOf word = 0 then fractionOf word else 2 ^ 52 + fractionOf word

/-- The exponent of the last place of the mantissa. -/
def placeValueOf (word : Nat) : Int := max (exponentOf word) 1 - 1075

theorem mantissaOf_lt (word : Nat) : mantissaOf word < 2 ^ 53 := by
  rw [mantissaOf, fractionOf]
  split <;> omega

section

variable (b : BitVec Format.binary64.numBits)

theorem toNat_lt : b.toNat < 2 ^ 64 := b.isLt

theorem toNat_unpackMantissa : (unpackMantissa b).toNat = fractionOf b.toNat := by
  simp [unpackMantissa, BitVec.extractLsb_toNat, fractionOf]

theorem toNat_unpackExponent : (unpackExponent b).toNat = exponentOf b.toNat := by
  simp [unpackExponent, BitVec.extractLsb_toNat, Nat.shiftRight_eq_div_pow, exponentOf]

theorem toNat_unpackSign : (unpackSign b).toNat = b.toNat / 2 ^ 63 := by
  have := toNat_lt b
  show b.toNat >>> 63 % 2 ^ 1 = _
  rw [Nat.shiftRight_eq_div_pow]
  omega

theorem toNat_append_one (m : BitVec 52) : (1#1 ++ m).toNat = 2 ^ 52 + m.toNat := by
  rw [BitVec.toNat_append, ← Nat.shiftLeft_add_eq_or_of_lt m.isLt]
  rfl

/-- The sign of a word is negative if its first bit is set. -/
theorem isNegative_eq :
    (Sign.ofBitVec (unpackSign b) == .negative) = decide (2 ^ 63 ≤ b.toNat) := by
  have sign := toNat_unpackSign b
  have := toNat_lt b
  by_cases h : unpackSign b = 0#1
  · rw [h, BitVec.toNat_ofNat] at sign
    rw [Sign.ofBitVec, if_pos h, decide_eq_false (by omega)]
    rfl
  · have : (unpackSign b).toNat ≠ 0 := fun zero => h (BitVec.eq_of_toNat_eq zero)
    rw [Sign.ofBitVec, if_neg h, decide_eq_true (by omega)]
    rfl

theorem unpackExponent_eq_iff (e : BitVec 11) :
    unpackExponent b = e ↔ exponentOf b.toNat = e.toNat := by
  rw [← toNat_unpackExponent]
  exact BitVec.toNat_inj.symm

theorem unpackMantissa_eq_iff : unpackMantissa b = 0#52 ↔ fractionOf b.toNat = 0 := by
  rw [← toNat_unpackMantissa]
  exact BitVec.toNat_inj.symm

/-! ## What a word stands for -/

/-- If the exponent is all ones, a word stands for infinity or NaN. -/
theorem unpack_of_ones (h : exponentOf b.toNat = 2047) :
    unpack .binary64 b = if fractionOf b.toNat = 0 then .infinity (.ofBitVec (unpackSign b))
      else .notANumber := by
  have ones : unpackExponent b = -1#11 := (unpackExponent_eq_iff b (-1#11)).mpr h
  unfold UnpackedFloat.unpack
  dsimp only
  rw [if_pos ones]
  exact if_congr (unpackMantissa_eq_iff b) rfl rfl

/-- Any other word stands for a finite number. -/
theorem unpack_of_not_ones (h : exponentOf b.toNat ≠ 2047) :
    (mantissaOf b.toNat = 0 ∧ placeValueOf b.toNat = -1074 ∧
        unpack .binary64 b = .zero (.ofBitVec (unpackSign b))) ∨
      ∃ pos, unpack .binary64 b =
        .finite (.ofBitVec (unpackSign b)) (mantissaOf b.toNat) (placeValueOf b.toNat) pos := by
  have ones : unpackExponent b ≠ -1#11 := (unpackExponent_eq_iff b (-1#11)).not.mpr h
  have exponent := toNat_unpackExponent b
  have mantissa := toNat_unpackMantissa b
  unfold UnpackedFloat.unpack
  dsimp only
  rw [if_neg ones]
  by_cases subnormal : exponentOf b.toNat = 0
  · have place : placeValueOf b.toNat = -1074 := by rw [placeValueOf, subnormal]; rfl
    rw [if_pos ((unpackExponent_eq_iff b 0#11).mpr subnormal)]
    by_cases zero : fractionOf b.toNat = 0
    · rw [dif_pos ((unpackMantissa_eq_iff b).mpr zero)]
      exact .inl ⟨by rw [mantissaOf, if_pos subnormal, zero], place, rfl⟩
    · rw [dif_neg ((unpackMantissa_eq_iff b).not.mpr zero)]
      refine .inr ⟨by rw [mantissaOf, if_pos subnormal]; omega, ?_⟩
      congr 1
      · rw [mantissa, mantissaOf, if_pos subnormal]
      · rw [exponent, subnormal, place]
        rfl
  · rw [if_neg ((unpackExponent_eq_iff b 0#11).not.mpr subnormal)]
    refine .inr ⟨by rw [mantissaOf, if_neg subnormal]; omega, ?_⟩
    congr 1
    · rw [mantissaOf, if_neg subnormal, ← mantissa]
      exact toNat_append_one _
    · rw [exponent, placeValueOf]
      show (exponentOf b.toNat : Int) - (1023 + 52) = _
      omega

end

/-! ## The exact reader -/

namespace Binary

/-- What the operations on numbers take for a number, as an exact value. -/
def ofUnpacked : UnpackedFloat → Binary
  | .notANumber => .nan
  | .infinity s => .infinite (s == .negative)
  | .zero s => .finite (s == .negative) 0 (-1074)
  | .finite s m e _ => .finite (s == .negative) m e

theorem decode_double (word : Nat) :
    decode .double word =
      if exponentOf word = 2047 then
        if fractionOf word = 0 then .infinite (2 ^ 63 ≤ word) else .nan
      else .finite (2 ^ 63 ≤ word) (mantissaOf word) (placeValueOf word) := by
  have infinity : BinaryFormat.double.infinity = 2047 * 2 ^ 52 := rfl
  have signBit : BinaryFormat.double.signBit = 2 ^ 63 := rfl
  have least : BinaryFormat.double.least = -1074 := rfl
  have fraction : Nat.pow 2 BinaryFormat.double.fraction = 2 ^ 52 := rfl
  have magnitude : word % 2 ^ 63 = exponentOf word * 2 ^ 52 + fractionOf word := by
    rw [exponentOf, fractionOf]
    omega
  have lt : fractionOf word < 2 ^ 52 := Nat.mod_lt _ (by decide)
  unfold decode
  rw [infinity, signBit, least, fraction]
  dsimp only
  by_cases ones : exponentOf word = 2047
  · rw [if_pos ones, magnitude, ones]
    by_cases zero : fractionOf word = 0
    · rw [if_neg (by omega), if_pos (by omega), if_pos zero]
    · rw [if_pos (by omega), if_neg zero]
  · have : exponentOf word < 2 ^ 11 := Nat.mod_lt _ (by decide)
    have scale : word % 2 ^ 63 / 2 ^ 52 = exponentOf word := by omega
    have rest : word % 2 ^ 63 % 2 ^ 52 = fractionOf word := by omega
    rw [if_neg ones, if_neg (by omega), if_neg (by omega), scale, rest, mantissaOf, placeValueOf]
    by_cases subnormal : exponentOf word = 0
    · rw [if_pos subnormal, if_pos subnormal, subnormal]
      rfl
    · rw [if_neg subnormal, if_neg subnormal]
      congr 1
      omega

/-- **The exact reader of words takes a word for what the operations take it for.** -/
theorem ofFloat_eq (x : Float) : ofFloat x = ofUnpacked x.toModel.unpack := by
  show decode .double x.toModel.toBits.toBitVec.toNat =
    ofUnpacked (UnpackedFloat.unpack .binary64 x.toModel.toBits.toBitVec)
  generalize x.toModel.toBits.toBitVec = b
  rw [decode_double, ← isNegative_eq]
  by_cases ones : exponentOf b.toNat = 2047
  · rw [if_pos ones, unpack_of_ones b ones]
    split <;> rfl
  · rw [if_neg ones]
    obtain ⟨mantissa, place, zero⟩ | ⟨pos, finite⟩ := unpack_of_not_ones b ones
    · rw [zero, mantissa, place]
      rfl
    · rw [finite]
      rfl

end Binary

end Blockwork
