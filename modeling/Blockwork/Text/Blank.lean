/-!
# Blank characters

The characters that count as white space, and texts without them at either end.
-/

namespace Blockwork

/-- White space: the controls from tab to carriage return, the next-line control, and the spaces
and separators of every script. -/
def isBlank (c : Char) : Bool :=
  let n := c.toNat
  (0x09 ≤ n && n ≤ 0x0D) || n = 0x20 || n = 0x85 || n = 0xA0 || n = 0x1680 ||
    (0x2000 ≤ n && n ≤ 0x200A) || n = 0x2028 || n = 0x2029 || n = 0x202F || n = 0x205F || n = 0x3000

/-- A row of characters without those at either end that satisfy `p`. -/
def stripEnds (p : Char → Bool) (cs : List Char) : List Char :=
  ((cs.dropWhile p).reverse.dropWhile p).reverse

/-- A text without white space at either end. -/
def trimBlank (s : String) : String := String.ofList (stripEnds isBlank s.toList)

end Blockwork
