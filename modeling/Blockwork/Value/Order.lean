import Blockwork.Text.Lower
import Blockwork.Value

/-!
# The loose order of values

Two values that both are numbers, or texts that spell one, are compared as numbers. All others are
compared by the texts that show them, in lower case, by code point.
-/

namespace Blockwork

namespace Value

/-- The number of a value that counts as one in a comparison: a number, or a text that spells a
finite one. -/
def strictNumber? : Value → Option Float
  | .number x => some x
  | .text s => (readNumber? (trimBlank s)).filter Float.isFinite
  | .boolean _ => none

/-- The order of two numbers; NaN has none. -/
def compareNumbers (x y : Float) : Option Ordering :=
  if x < y then some .lt
  else if x == y then some .eq
  else if y < x then some .gt
  else none

/-- The order of two values as texts. -/
def compareTexts (a b : Value) : Ordering := compare (lowerText a.display) (lowerText b.display)

/-- The order of two values. -/
def compareLoosely (a b : Value) : Ordering :=
  let ofNumbers := do compareNumbers (← a.strictNumber?) (← b.strictNumber?)
  ofNumbers.getD (compareTexts a b)

/-- Whether two values are the same in the loose order. -/
def looselyEquals (a b : Value) : Bool := compareLoosely a b = .eq

end Value

end Blockwork
