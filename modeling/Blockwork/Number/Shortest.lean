import Blockwork.Number.Binary

/-!
# The shortest decimal of a binary number

Every decimal in a small interval around a binary number reads back to it: the interval reaches
halfway to the neighbour on either side, its ends included exactly when the mantissa is even.
`Decimal.shortest` is a decimal of that interval with the fewest digits, and of those the nearest
to the number.

## The search

For `n = 1, 2, …` digits the candidates are the two neighbours of the number among the multiples of
`10 ^ (k - n)`, where `10 ^ k` is the least power of ten above the number. The first `n` with a
candidate in the interval wins. Everything is compared by cross-multiplying naturals.
-/

namespace Blockwork

/-- `digits * 10 ^ exponent` -/
structure Decimal where
  digits : Nat
  exponent : Int
deriving DecidableEq, Repr

/-- Which of two equally near candidates is taken. -/
inductive Tie where
  | upper
  | even
deriving DecidableEq, Repr

namespace Decimal

/-- The same value, without zeros at the end of the digits. -/
def trimmed (d : Decimal) : Decimal :=
  if d.digits = 0 then ⟨0, 0⟩
  else if d.digits % 10 = 0 then trimmed ⟨d.digits / 10, d.exponent + 1⟩
  else d
termination_by d.digits
decreasing_by exact Nat.div_lt_self (Nat.pos_of_ne_zero ‹_›) (by omega)

/-- A positive number `mantissa * 2 ^ exponent` measured by a power of ten:
it is `mantissa * up / down` times that power. -/
structure Scaled where
  mantissa : Nat
  up : Nat
  down : Nat

/-- `mantissa * 2 ^ exponent` in units of `10 ^ place`. -/
def scale (mantissa : Nat) (exponent place : Int) : Scaled where
  mantissa := mantissa
  up := Nat.pow 2 exponent.toNat * Nat.pow 10 (-place).toNat
  down := Nat.pow 2 (-exponent).toNat * Nat.pow 10 place.toNat

/-- Whether the number is below the unit it is measured by. -/
def Scaled.belowOne (s : Scaled) : Bool := s.mantissa * s.up < s.down

/-- Whether `c` units lie in the interval of the decimals that read back to the number.
The gap below is only half as wide when the mantissa is the least of its length (`narrow`). -/
def Scaled.readsBack (s : Scaled) (narrow : Bool) (c : Nat) : Bool :=
  let low := (4 * s.mantissa - if narrow then 1 else 2) * s.up
  let high := (4 * s.mantissa + 2) * s.up
  let units := 4 * c * s.down
  if s.mantissa % 2 = 0 then low ≤ units && units ≤ high else low < units && units < high

/-- Of the two neighbouring counts of units, the one that reads back; the nearer one of two. -/
def Scaled.nearest? (s : Scaled) (narrow : Bool) (tie : Tie) : Option Nat :=
  let c := s.mantissa * s.up / s.down
  match s.readsBack narrow c, s.readsBack narrow (c + 1) with
  | true, true =>
    match compare (2 * s.mantissa * s.up) ((2 * c + 1) * s.down) with
    | .lt => some c
    | .gt => some (c + 1)
    | .eq =>
      match tie with
      | .upper => some (c + 1)
      | .even => some (c + c % 2)
  | true, false => some c
  | false, true => some (c + 1)
  | false, false => none

/-- The least `k` with `mantissa * 2 ^ exponent < 10 ^ k`: the binary logarithm gives it up to
two. -/
def magnitude (mantissa : Nat) (exponent : Int) : Int :=
  let k := (exponent + mantissa.log2) * 1233 / 4096
  if (scale mantissa exponent k).belowOne then k
  else if (scale mantissa exponent (k + 1)).belowOne then k + 1
  else k + 2

/-- The exact value, which has a finite decimal expansion. -/
def exact (mantissa : Nat) (exponent : Int) : Decimal :=
  if 0 ≤ exponent then ⟨mantissa * Nat.pow 2 exponent.toNat, 0⟩
  else ⟨mantissa * Nat.pow 5 (-exponent).toNat, exponent⟩

/-- The shortest decimal that reads back to `mantissa * 2 ^ exponent` in the format. -/
def shortest (f : BinaryFormat) (tie : Tie) (mantissa : Nat) (exponent : Int) : Decimal :=
  let narrow := mantissa = Nat.pow 2 f.fraction && f.least < exponent
  let top := magnitude mantissa exponent
  let found := (List.range 17).findSome? fun n =>
    let place := top - (n + 1 : Nat)
    ((scale mantissa exponent place).nearest? narrow tie).map (Decimal.mk · place)
  (found.getD (exact mantissa exponent)).trimmed

end Decimal

end Blockwork
