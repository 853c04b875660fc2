/-!
# Binary numbers, exactly

A binary interchange format keeps a sign, an exponent and a fraction in a word. `Binary.decode`
reads the word as a sign and an exact value `mantissa * 2 ^ exponent`; `Binary.encode` goes back,
to the nearest word, a tie to the even one.

Rounding to whole numbers is done here too, on the exact value, so that every step of a run has a
definition that can be unfolded.

## Layout of a word

With `f` fraction bits, the words of the finite non-negative numbers, read as naturals, are in
order: the word of `r * 2 ^ (least + s)` is `s * 2 ^ f + r`, for a subnormal number (`s = 0`,
`r < 2 ^ f`) and for a normal one (`2 ^ f ≤ r < 2 ^ (f + 1)`) alike. The word after the last finite
one is infinity, which is why an overflow needs no case of its own.
-/

namespace Blockwork

/-- Widths of a binary interchange format. -/
structure BinaryFormat where
  /-- Bits of the fraction, without the leading one. -/
  fraction : Nat
  /-- Bits of the exponent. -/
  exponent : Nat
deriving DecidableEq, Repr

namespace BinaryFormat

/-- The 64-bit format. -/
def double : BinaryFormat := ⟨52, 11⟩

/-- The 32-bit format. -/
def single : BinaryFormat := ⟨23, 8⟩

/-- The exponent of the last place of a subnormal number. -/
def least (f : BinaryFormat) : Int :=
  3 - (Nat.pow 2 (f.exponent - 1) : Nat) - (f.fraction + 1 : Nat)

/-- The word of positive infinity. -/
def infinity (f : BinaryFormat) : Nat := (Nat.pow 2 f.exponent - 1) * Nat.pow 2 f.fraction

/-- The word whose only set bit is the sign. -/
def signBit (f : BinaryFormat) : Nat := Nat.pow 2 (f.exponent + f.fraction)

end BinaryFormat

/-- What a word stands for. -/
inductive Binary where
  | nan
  | infinite (negative : Bool)
  /-- `± mantissa * 2 ^ exponent`; zero has a sign too. -/
  | finite (negative : Bool) (mantissa : Nat) (exponent : Int)
deriving DecidableEq, Repr

/-- How a magnitude between two whole numbers is rounded. -/
inductive Whole where
  | towardZero
  | awayFromZero
  /-- To the nearer one, and away from zero when both are equally near. -/
  | nearest
deriving DecidableEq, Repr

/-- The whole number for `mantissa / 2 ^ places`. -/
def Whole.quotient (r : Whole) (mantissa places : Nat) : Nat :=
  match r with
  | .towardZero => mantissa / Nat.pow 2 places
  | .awayFromZero => (mantissa + (Nat.pow 2 places - 1)) / Nat.pow 2 places
  | .nearest => (2 * mantissa + Nat.pow 2 places) / Nat.pow 2 (places + 1)

namespace Binary

/-- The value of a word. -/
def decode (f : BinaryFormat) (word : Nat) : Binary :=
  let negative := f.signBit ≤ word
  let magnitude := word % f.signBit
  let fraction := magnitude % Nat.pow 2 f.fraction
  let scale := magnitude / Nat.pow 2 f.fraction
  if f.infinity < magnitude then .nan
  else if magnitude = f.infinity then .infinite negative
  else if scale = 0 then .finite negative fraction f.least
  else .finite negative (Nat.pow 2 f.fraction + fraction) (f.least + (scale - 1 : Nat))

/-- `mantissa / 2 ^ places` to the nearest natural, a tie to the even one. -/
def nearestEven (mantissa places : Nat) : Nat :=
  let quotient := mantissa / Nat.pow 2 places
  let rest := 2 * (mantissa % Nat.pow 2 places)
  if rest < Nat.pow 2 places then quotient
  else if rest = Nat.pow 2 places then quotient + quotient % 2
  else quotient + 1

/-- The word nearest to a value, infinity when it is too large. -/
def encode (f : BinaryFormat) : Binary → Nat
  | .nan => f.infinity + Nat.pow 2 (f.fraction - 1)
  | .infinite negative => f.infinity + if negative then f.signBit else 0
  | .finite negative mantissa exponent =>
    let place := max (exponent + mantissa.log2 - f.fraction) f.least
    let rounded :=
      if place ≤ exponent then mantissa * Nat.pow 2 (exponent - place).toNat
      else nearestEven mantissa (place - exponent).toNat
    let magnitude :=
      if mantissa = 0 then 0 else (place - f.least).toNat * Nat.pow 2 f.fraction + rounded
    min magnitude f.infinity + if negative then f.signBit else 0

/-- A whole number near the value, with the value's sign, also when it is zero. -/
def toWhole (r : Whole) : Binary → Binary
  | .finite negative mantissa exponent =>
    if 0 ≤ exponent then .finite negative mantissa exponent
    else .finite negative (r.quotient mantissa (-exponent).toNat) 0
  | b => b

/-- The greatest whole number that is not above the value. -/
def floor (b : Binary) : Binary :=
  match b with
  | .finite true .. => b.toWhole .awayFromZero
  | _ => b.toWhole .towardZero

/-- The least whole number that is not below the value. -/
def ceil (b : Binary) : Binary :=
  match b with
  | .finite true .. => b.toWhole .towardZero
  | _ => b.toWhole .awayFromZero

/-- The nearest whole number, halves away from zero. -/
def round (b : Binary) : Binary := b.toWhole .nearest

/-- The magnitude of a whole value, as a natural number; `none` for any other value. -/
def natAbs? : Binary → Option Nat
  | .finite _ mantissa exponent =>
    if 0 ≤ exponent then some (mantissa * Nat.pow 2 exponent.toNat)
    else if mantissa % Nat.pow 2 (-exponent).toNat = 0 then
      some (mantissa / Nat.pow 2 (-exponent).toNat)
    else none
  | _ => none

/-- The value of a 64-bit number. -/
def ofFloat (x : Float) : Binary := decode .double x.toBits.toNat

/-- The nearest 64-bit number. -/
def toFloat (b : Binary) : Float := Float.ofBits (UInt64.ofNat (encode .double b))

/-- The value of a 32-bit number. -/
def ofFloat32 (x : Float32) : Binary := decode .single x.toBits.toNat

/-- The nearest 32-bit number. -/
def toFloat32 (b : Binary) : Float32 := Float32.ofBits (UInt32.ofNat (encode .single b))

/-- A natural number as an exact value. -/
def ofNat (n : Nat) : Binary := .finite false n 0

end Binary

end Blockwork
