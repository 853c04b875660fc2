import Blockwork.Text.CaseTable
import Blockwork.Text.Ranges

/-!
# Lower case

The lower case form of a text, character by character. Two characters are special: a capital I
with a dot becomes two characters, and a capital sigma takes its final form at the end of a word,
that is after a cased character and not before one, ignored characters apart.
-/

namespace Blockwork

/-- The lower case form of a character that has one of its own. -/
def lowerChar (c : Char) : Char :=
  if c.toNat < 0x80 then c.toLower
  else
    match lowerRuns.find? fun r =>
        r.first ≤ c.toNat && c.toNat ≤ r.last && (c.toNat - r.first) % r.step = 0 with
    | some r => Char.ofNat (c.toNat + r.shift).toNat
    | none => c

/-- Whether the first character that is not ignored is cased. -/
def meetsCased (cs : List Char) : Bool :=
  match cs.dropWhile (inRanges ignoredRanges) with
  | c :: _ => inRanges casedRanges c
  | [] => false

/-- The lower case form of a row of characters, given those before it, the nearest one first. -/
def lowerAfter (before : List Char) : List Char → List Char
  | [] => []
  | c :: rest =>
    let form :=
      if c = 'Σ' then [if meetsCased before && !meetsCased rest then 'ς' else 'σ']
      else if c = 'İ' then ['i', '\u0307']
      else [lowerChar c]
    form ++ lowerAfter (c :: before) rest

/-- The lower case form of a text. -/
def lowerText (s : String) : String := String.ofList (lowerAfter [] s.toList)

end Blockwork
