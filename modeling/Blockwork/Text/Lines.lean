/-!
# Lines and parts of texts

The lines of a text, and whether a text is a part of another.
-/

namespace Blockwork

/-- The lines of a row of characters; `line` is the beginning of the first one in reverse. A line
feed ends a line, together with a carriage return right before it. -/
def linesFrom (line : List Char) : List Char → List String
  | [] => if line.isEmpty then [] else [String.ofList line.reverse]
  | '\n' :: rest =>
    let line :=
      match line with
      | '\r' :: line => line
      | line => line
    String.ofList line.reverse :: linesFrom [] rest
  | c :: rest => linesFrom (c :: line) rest

/-- The lines of a text, without their ends. -/
def textLines (s : String) : List String := linesFrom [] s.toList

/-- Whether a row of characters is a part of another. -/
def hasPart (part : List Char) : List Char → Bool
  | [] => part.isEmpty
  | c :: rest => part.isPrefixOf (c :: rest) || hasPart part rest

/-- Whether a text has another as a part. -/
def containsText (whole part : String) : Bool := hasPart part.toList whole.toList

/-- Whether a text ends with another. -/
def endsWithText (whole ending : String) : Bool := ending.toList.isSuffixOf whole.toList

/-- Whether a text begins with another. -/
def startsWithText (whole start : String) : Bool := start.toList.isPrefixOf whole.toList

/-- The pieces of a row of characters between separators; `piece` is the beginning of the first one
in reverse. -/
def splitFrom (separator : Char) (piece : List Char) : List Char → List String
  | [] => [String.ofList piece.reverse]
  | c :: rest =>
    if c = separator then String.ofList piece.reverse :: splitFrom separator [] rest
    else splitFrom separator (c :: piece) rest

/-- The pieces of a text between separators. -/
def splitText (separator : Char) (s : String) : List String := splitFrom separator [] s.toList

end Blockwork
