import Blockwork.Machine
import Blockwork.Proofs.FloatOrder
import Blockwork.Proofs.FloatWords
import Mathlib.Algebra.Order.Field.Power
import Mathlib.Algebra.Order.Floor.Semifield
import Mathlib.Data.Rat.Floor
import Mathlib.Tactic.FieldSimp
import Mathlib.Tactic.Linarith
import Mathlib.Tactic.Positivity
import Mathlib.Tactic.Ring

/-!
# Rounding to whole numbers

A value is rounded on its exact mantissa and exponent, by adding and dividing natural numbers. Here
this is compared with rounding the rational number that the value is. How often a body is repeated
follows from it: the nearest whole number of times, and not at all for a number that is not
positive.

## Main statements

* `Whole.quotient_eq`: dividing by a power of two rounds the quotient.
* `Binary.natAbs?_toWhole`: rounding an exact value rounds its magnitude.
* `Machine.repeatCount_eq`: how often a body is repeated.
* `Machine.abs_repeatCount_sub_le`: a body is repeated as often as the number says, or as is nearest
  to it.
-/

namespace Blockwork

open Float.Model (UnpackedFloat)

/-! ## Quotients -/

namespace Whole

/-- The whole number that a magnitude is rounded to. -/
def rounded : Whole → ℚ → ℕ
  | .towardZero, q => ⌊q⌋₊
  | .awayFromZero, q => ⌈q⌉₊
  | .nearest, q => ⌊q + 1 / 2⌋₊

theorem rounded_natCast (r : Whole) (n : ℕ) : r.rounded n = n := by
  cases r with
  | towardZero => exact Nat.floor_natCast n
  | awayFromZero => exact Nat.ceil_natCast n
  | nearest =>
    refine (Nat.floor_eq_iff (by positivity)).mpr ⟨?_, ?_⟩
    · linarith
    · linarith

theorem ceil_div_eq (m : ℕ) {n : ℕ} (pos : 0 < n) : ⌈(m : ℚ) / n⌉₊ = (m + (n - 1)) / n := by
  refine eq_of_forall_ge_iff fun c => ?_
  have pos' : (0 : ℚ) < n := by exact_mod_cast pos
  rw [Nat.ceil_le, div_le_iff₀ pos', ← Nat.lt_succ_iff, Nat.div_lt_iff_lt_mul pos, Nat.succ_mul]
  norm_cast
  omega

/-- **Dividing by a power of two rounds the quotient.** -/
theorem quotient_eq (r : Whole) (mantissa places : ℕ) :
    r.quotient mantissa places = r.rounded (mantissa / 2 ^ places) := by
  have power : ((2 ^ places : ℕ) : ℚ) = 2 ^ places := by push_cast; rfl
  cases r with
  | towardZero =>
    show mantissa / 2 ^ places = ⌊(mantissa : ℚ) / 2 ^ places⌋₊
    rw [← power, Nat.floor_div_eq_div]
  | awayFromZero =>
    show (mantissa + (2 ^ places - 1)) / 2 ^ places = ⌈(mantissa : ℚ) / 2 ^ places⌉₊
    rw [← power, ceil_div_eq mantissa (Nat.two_pow_pos places)]
  | nearest =>
    show (2 * mantissa + 2 ^ places) / 2 ^ (places + 1) = ⌊(mantissa : ℚ) / 2 ^ places + 1 / 2⌋₊
    rw [← Nat.floor_div_eq_div (K := ℚ)]
    congr 1
    push_cast
    field_simp
    ring

end Whole

/-! ## Exact values -/

/-- **Rounding an exact value rounds its magnitude.** -/
theorem Binary.natAbs?_toWhole (r : Whole) (negative : Bool) (mantissa : ℕ) (exponent : ℤ) :
    ((finite negative mantissa exponent).toWhole r).natAbs? =
      some (r.rounded (mantissa * 2 ^ exponent)) := by
  rw [toWhole]
  by_cases whole : 0 ≤ exponent
  · obtain ⟨k, rfl⟩ := Int.eq_ofNat_of_zero_le whole
    have value : (mantissa : ℚ) * 2 ^ (k : ℤ) = (mantissa * 2 ^ k : ℕ) := by push_cast; rfl
    rw [if_pos whole, natAbs?, if_pos whole, value, Whole.rounded_natCast]
    rfl
  · obtain ⟨k, rfl⟩ : ∃ k : ℕ, exponent = -k := ⟨(-exponent).toNat, by omega⟩
    have value : (mantissa : ℚ) * 2 ^ (-k : ℤ) = mantissa / 2 ^ k := by
      rw [zpow_neg, zpow_natCast, div_eq_mul_inv]
    rw [if_neg whole, natAbs?, if_pos le_rfl, neg_neg, Int.toNat_natCast, Whole.quotient_eq, value]
    simp

theorem Binary.exists_toWhole (r : Whole) (negative : Bool) (mantissa : ℕ) (exponent : ℤ) :
    ∃ n k, (finite negative mantissa exponent).toWhole r = finite negative n k := by
  rw [toWhole]
  split
  · exact ⟨_, _, rfl⟩
  · exact ⟨_, _, rfl⟩

/-! ## How often a body is repeated -/

namespace Machine

/-- How often a body is to be repeated for a number. No more is counted than a word of 64 bits
holds. -/
def repetitions : UnpackedFloat → ℕ
  | .finite .positive m e _ => min ⌊(m : ℚ) * 2 ^ e + 1 / 2⌋₊ (2 ^ 64 - 1)
  | .infinity .positive => 2 ^ 64 - 1
  | _ => 0

/-- **How often a body is repeated:** the nearest whole number of times, and not at all for NaN and
for a number that is not positive. -/
theorem repeatCount_eq (x : Float) : repeatCount x = repetitions x.toModel.unpack := by
  have zero : (0 : Float).toModel.unpack = .zero .positive := by rfl
  unfold repeatCount
  simp only [Value.lt_iff, zero, Binary.ofFloat_eq]
  -- only for a positive number is there anything to round
  rcases x.toModel.unpack with (_ | _) | _ | _ | ⟨_ | _, m, e, pos⟩
  · rfl
  · rfl
  · rfl
  · rfl
  · rfl
  · have magnitude := Binary.natAbs?_toWhole .nearest false m e
    obtain ⟨n, k, whole⟩ := Binary.exists_toWhole .nearest false m e
    have round : (Binary.ofUnpacked (.finite .positive m e pos)).round = .finite false n k := whole
    rw [round]
    show min ((Binary.finite false n k).natAbs?.getD 0) (2 ^ 64 - 1) = _
    rw [← whole, magnitude]
    rfl

example : repeatCount 2.5 = 3 ∧ repeatCount (-4) = 0 ∧ repeatCount (0 / 0) = 0 := by
  decide +kernel

/-- **A body is repeated as often as the number says,** or as is nearest to it, if so far is
counted. -/
theorem abs_repeatCount_sub_le {x : Float} {m : ℕ} {e : ℤ} {pos : 0 < m}
    (is : x.toModel.unpack = .finite .positive m e pos) (fits : (m : ℚ) * 2 ^ e ≤ 2 ^ 64 - 1) :
    |(repeatCount x : ℚ) - m * 2 ^ e| ≤ 1 / 2 := by
  have count : repeatCount x = ⌊(m : ℚ) * 2 ^ e + 1 / 2⌋₊ := by
    rw [repeatCount_eq, is]
    refine Nat.min_eq_left (Nat.le_of_lt_succ ((Nat.floor_lt (by positivity)).mpr ?_))
    push_cast
    linarith
  rw [count, abs_le]
  have below := Nat.floor_le (a := (m : ℚ) * 2 ^ e + 1 / 2) (by positivity)
  have above := Nat.lt_floor_add_one ((m : ℚ) * 2 ^ e + 1 / 2)
  constructor
  · linarith
  · linarith

end Machine

end Blockwork
