import Blockwork.Value.Order
import Mathlib.Data.Int.Order.Basic
import Mathlib.Data.Prod.Lex
import Mathlib.Order.Compare

/-!
# The order of numbers

Numbers other than NaN stand in a line: negative infinity, the negative numbers from the largest
exponent and mantissa down, the two zeros in one place, the positive numbers, infinity. Comparing
two numbers is comparing their places, and NaN has none.

## Main statements

* `Value.compareNumbers_eq`: the order of two numbers is that of their places.
* `Value.compareNumbers_swap`: it can be turned round.
-/

namespace Blockwork

open Float.Model (UnpackedFloat)

/-- Where numbers stand: by sign, exponent and mantissa. -/
abbrev FloatPlace : Type := ℤ ×ₗ ℤ ×ₗ ℤ

/-- Where a number stands among the others. -/
def placeOf : UnpackedFloat → Option FloatPlace
  | .notANumber => none
  | .infinity .negative => some (toLex (-2, toLex (0, 0)))
  | .finite .negative m e _ => some (toLex (-1, toLex (-e, -m)))
  | .zero _ => some (toLex (0, toLex (0, 0)))
  | .finite .positive m e _ => some (toLex (1, toLex (e, m)))
  | .infinity .positive => some (toLex (2, toLex (0, 0)))

/-! ## Places -/

theorem compare_places (sign e m e' m' : ℤ) :
    compare (toLex (sign, toLex (e, m)) : FloatPlace) (toLex (sign, toLex (e', m'))) =
      (compare e e').then (compare m m') := by
  simp [Prod.Lex.compare_def, compareLex, compareOn]

theorem compare_neg (a b : ℤ) : compare (-a) (-b) = (compare a b).swap := by
  rcases Int.lt_trichotomy a b with h | rfl | h
  · rw [compare_lt_iff_lt.mpr h, compare_gt_iff_gt.mpr (by omega)]
    rfl
  · simp
  · rw [compare_gt_iff_gt.mpr h, compare_lt_iff_lt.mpr (by omega)]
    rfl

theorem compare_natCast (m m' : ℕ) : compare (m : ℤ) m' = compare m m' := by
  rcases Nat.lt_trichotomy m m' with h | rfl | h
  · rw [compare_lt_iff_lt.mpr h, compare_lt_iff_lt.mpr (by omega)]
  · simp
  · rw [compare_gt_iff_gt.mpr h, compare_gt_iff_gt.mpr (by omega)]

theorem compare_positive (m m' : ℕ) (e e' : ℤ) :
    (compare e e').then (compare m m') =
      compare (toLex (1, toLex (e, ↑m)) : FloatPlace) (toLex (1, toLex (e', ↑m'))) := by
  rw [compare_places, compare_natCast]

/-- Negative numbers compare the other way round. -/
theorem compare_negative (m m' : ℕ) (e e' : ℤ) :
    ((compare e e').then (compare m m')).swap =
      compare (toLex (-1, toLex (-e, -↑m)) : FloatPlace) (toLex (-1, toLex (-e', -↑m'))) := by
  rw [compare_places, compare_neg, compare_neg, compare_natCast, Ordering.swap_then]

/-- **Two numbers compare as their places do.** -/
theorem compare_eq_places (x y : UnpackedFloat) :
    x.compare y = (placeOf x).bind fun a => (placeOf y).map fun b => compare a b := by
  rcases x with (_ | _) | _ | _ | ⟨_ | _, m, e, pos⟩ <;>
    rcases y with (_ | _) | _ | _ | ⟨_ | _, m', e', pos'⟩ <;>
    first
    | rfl
    | exact congrArg some (compare_positive m m' e e')
    | exact congrArg some (compare_negative m m' e e')

/-! ## Numbers -/

namespace Value

/-- Where a number stands among the others. -/
def place? (x : Float) : Option FloatPlace := placeOf x.toModel.unpack

theorem lt_iff (x y : Float) : x < y ↔ x.toModel.unpack.compare y.toModel.unpack = some .lt := by
  show decide (x.toModel < y.toModel) = true ↔ _
  rw [decide_eq_true_iff]
  exact beq_iff_eq

theorem beq_iff (x y : Float) :
    (x == y) = true ↔ x.toModel.unpack.compare y.toModel.unpack = some .eq := by
  show (x.toModel.unpack.compare y.toModel.unpack == some .eq) = true ↔ _
  exact beq_iff_eq

/-- **The order of two numbers is that of their places.** -/
theorem compareNumbers_eq (x y : Float) :
    compareNumbers x y = (place? x).bind fun a => (place? y).map fun b => compare a b := by
  simp only [compareNumbers, lt_iff, beq_iff, compare_eq_places, place?]
  cases placeOf x.toModel.unpack with
  | none => simp
  | some a =>
    cases placeOf y.toModel.unpack with
    | none => simp
    | some b =>
      rcases lt_trichotomy a b with h | rfl | h
      · simp [compare_lt_iff_lt.mpr h]
      · simp
      · simp [compare_gt_iff_gt.mpr h, compare_lt_iff_lt.mpr h]

/-- The order of two numbers can be turned round. -/
theorem compareNumbers_swap (x y : Float) :
    compareNumbers y x = (compareNumbers x y).map Ordering.swap := by
  rw [compareNumbers_eq, compareNumbers_eq]
  cases place? x with
  | none => cases place? y <;> rfl
  | some a =>
    cases place? y with
    | none => rfl
    | some b => exact congrArg some (Std.OrientedOrd.eq_swap)

/-- Numbers that are equal are equal in the order. -/
theorem compareNumbers_of_beq {x y : Float} (h : (x == y) = true) :
    compareNumbers x y = some .eq := by
  have not_lt : ¬x < y := by
    rw [lt_iff, (beq_iff x y).mp h]
    decide
  rw [compareNumbers, if_neg not_lt, if_pos h]

end Value

end Blockwork
