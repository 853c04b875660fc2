import Blockwork.Text.Ranges
import Blockwork.Text.WidthTable

/-!
# The width of characters

How many columns of a terminal a character takes. A tab fills the columns up to the next tab stop,
so its width depends on where it stands.
-/

namespace Blockwork

/-- How many columns there are between tab stops. -/
def tabWidth : Nat := 4

/-- The width of a character that is not a tab. -/
def charWidth (c : Char) : Nat :=
  if inRanges zeroWidthRanges c then 0 else if inRanges doubleWidthRanges c then 2 else 1

/-- The width of a character that begins in the given column. -/
def widthAt (column : Nat) (c : Char) : Nat :=
  if c = '\t' then tabWidth - column % tabWidth else charWidth c

end Blockwork
