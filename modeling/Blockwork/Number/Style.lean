import Blockwork.Number.Shortest

/-!
# Writing numbers

A number is written as its shortest decimal, positionally or with an exponent. What differs
between the places where numbers are written is kept in one record, `NumberStyle`, with a value
for each of them.
-/

namespace Blockwork

/-- The decisions of one way to write numbers. -/
structure NumberStyle where
  /-- Which of two equally near shortest decimals is written. -/
  tie : Tie
  /-- Whether a number with this decimal exponent of its leading digit is written positionally. -/
  positional : Int → Bool
  /-- Whether a whole number that is written positionally ends in a point and a zero. -/
  pointZero : Bool
  nan : String
  infinite : Bool → String

/-- Decimal digits of a natural number, the first one leading. -/
def decimalDigits (n : Nat) : List Char := Nat.toDigits 10 n

namespace Decimal

/-- Exponent of the leading digit, given the digits. -/
def leading (d : Decimal) (digits : List Char) : Int := d.exponent + digits.length - 1

/-- Digits around a point, with zeros where they leave room. -/
def positional (d : Decimal) (pointZero : Bool) : List Char :=
  let digits := decimalDigits d.digits
  if 0 ≤ d.exponent then
    digits ++ List.replicate d.exponent.toNat '0' ++ if pointZero then ['.', '0'] else []
  else
    let places := (-d.exponent).toNat
    if places < digits.length then
      digits.take (digits.length - places) ++ '.' :: digits.drop (digits.length - places)
    else
      '0' :: '.' :: List.replicate (places - digits.length) '0' ++ digits

/-- One digit before the point, and the exponent with its sign after an `e`. -/
def scientific (d : Decimal) : List Char :=
  let digits := decimalDigits d.digits
  let exponent := d.leading digits
  let fraction :=
    match digits.drop 1 with
    | [] => []
    | rest => '.' :: rest
  digits.take 1 ++ fraction ++ 'e' :: (if exponent < 0 then '-' else '+') ::
    decimalDigits exponent.natAbs

end Decimal

namespace NumberStyle

/-- The text of a value of the given format. -/
def write (style : NumberStyle) (f : BinaryFormat) (b : Binary) : String :=
  match b with
  | .nan => style.nan
  | .infinite negative => style.infinite negative
  | .finite negative mantissa exponent =>
    let d := if mantissa = 0 then ⟨0, 0⟩ else Decimal.shortest f style.tie mantissa exponent
    let body :=
      if style.positional (d.leading (decimalDigits d.digits)) then d.positional style.pointZero
      else d.scientific
    (if negative then "-" else "") ++ String.ofList body

/-- Numbers as a reader of a message sees them: never with an exponent. -/
def plain : NumberStyle where
  tie := .upper
  positional := fun _ => true
  pointZero := false
  nan := "NaN"
  infinite := fun negative => if negative then "-inf" else "inf"

/-- Numbers in JSON text, where they keep a point or an exponent.
There is no JSON number for the values that are not finite. -/
def json : NumberStyle where
  tie := .even
  positional := fun e => -5 ≤ e && e < 16
  pointZero := true
  nan := "null"
  infinite := fun _ => "null"

end NumberStyle

/-- A 64-bit number without an exponent. -/
def plainText (x : Float) : String := NumberStyle.plain.write .double (Binary.ofFloat x)

/-- A 32-bit number without an exponent. -/
def plainText32 (x : Float32) : String := NumberStyle.plain.write .single (Binary.ofFloat32 x)

end Blockwork
