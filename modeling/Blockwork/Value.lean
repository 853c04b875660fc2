import Blockwork.Number.Reading
import Blockwork.Number.Style
import Blockwork.Text.Blank

/-!
# Values

What a block takes and gives: a number, a text or a truth value. Each kind can be read as any of
the others, except that not every text spells a number.
-/

namespace Blockwork

/-- A value of a running program. -/
inductive Value where
  | number (x : Float)
  | text (s : String)
  | boolean (b : Bool)

namespace Value

instance : Inhabited Value := ⟨.text ""⟩

/-- The name of the kind of a value. -/
def typeName : Value → String
  | .number _ => "Number"
  | .text _ => "Text"
  | .boolean _ => "Boolean"

/-- The text that shows a value. A whole number is shown without a point, and zero without a
sign. -/
def display : Value → String
  | .number x => if x == 0 then "0" else plainText x
  | .text s => s
  | .boolean b => if b then "true" else "false"

/-- The number a value stands for; a blank text stands for zero. -/
def toNumber? : Value → Option Float
  | .number x => some x
  | .boolean b => some (if b then 1 else 0)
  | .text s => if trimBlank s = "" then some 0 else readNumber? (trimBlank s)

/-- Whether a value counts as true: a number other than zero and NaN, or a text other than the
empty one, `0` and the word false in any case. -/
def isTruthy : Value → Bool
  | .number x => x != 0 && !x.isNaN
  | .boolean b => b
  | .text s => s ≠ "" && s ≠ "0" && s.toList.map Char.toLower ≠ "false".toList

/-- Values are equal when they are of one kind and hold the same; numbers are compared as numbers,
so NaN is not equal to itself. -/
instance : BEq Value where
  beq
    | .number x, .number y => x == y
    | .text s, .text t => s = t
    | .boolean b, .boolean c => b = c
    | _, _ => false

end Value

end Blockwork
