import Blockwork.Number.Binary

/-!
# Reading numbers

A number is an optional sign, then `inf`, `infinity` or `nan` in any case, or digits with an
optional point among or around them and an optional exponent. It stands for the 64-bit number
nearest to it.
-/

namespace Blockwork

/-- The value of a row of decimal digits. -/
def digitsValue (digits : List Char) : Nat :=
  digits.foldl (fun n c => 10 * n + (c.toNat - '0'.toNat)) 0

/-- A sign in front, and what follows it. -/
def splitSign : List Char → Bool × List Char
  | '-' :: rest => (true, rest)
  | '+' :: rest => (false, rest)
  | cs => (false, cs)

/-- The digits in front, and what follows them. -/
def splitDigits (cs : List Char) : List Char × List Char :=
  (cs.takeWhile Char.isDigit, cs.dropWhile Char.isDigit)

/-- `digits * 10 ^ exponent`, rounded to the nearest 64-bit number. -/
def scaledFloat (digits : Nat) (exponent : Int) : Float :=
  Float.ofScientific digits (exponent < 0) exponent.natAbs

/-- The exponent after the mantissa: none, or a mark, an optional sign and at least one digit. -/
def readExponent : List Char → Option Int
  | [] => some 0
  | mark :: rest =>
    if mark = 'e' || mark = 'E' then
      let (negative, rest) := splitSign rest
      match splitDigits rest with
      | ([], _) => none
      | (digits, []) => some (if negative then -(digitsValue digits) else digitsValue digits)
      | (_, _ :: _) => none
    else none

/-- A mantissa with at least one digit, and its exponent. -/
def readDecimal (cs : List Char) : Option Float :=
  let (whole, rest) := splitDigits cs
  let (fraction, rest) :=
    match rest with
    | '.' :: rest => splitDigits rest
    | rest => ([], rest)
  if whole.isEmpty && fraction.isEmpty then none
  else (readExponent rest).map fun e =>
    scaledFloat (digitsValue (whole ++ fraction)) (e - fraction.length)

/-- A number without its sign. -/
def readMagnitude (cs : List Char) : Option Float :=
  match String.ofList (cs.map Char.toLower) with
  | "inf" => some (Binary.infinite false).toFloat
  | "infinity" => some (Binary.infinite false).toFloat
  | "nan" => some Binary.nan.toFloat
  | _ => readDecimal cs

/-- The number a text spells out in full, if it spells one. -/
def readNumber? (text : String) : Option Float :=
  let (negative, rest) := splitSign text.toList
  (readMagnitude rest).map fun x => if negative then -x else x

end Blockwork
