import Blockwork.Diagnostic
import Blockwork.Text.Width

/-!
# Diagnostics as text

A diagnostic is shown with the lines that it marks, between a gutter with their numbers and the
notes. A mark within a line is a row of carets below it. A mark across lines is a border to their
left; of a long one only the lines near its ends are shown.
-/

namespace Blockwork

/-- A text that a diagnostic is about. -/
structure Source where
  name : String
  text : String
deriving DecidableEq, Repr

/-! ## Lines -/

/-- A line of a text. -/
structure SourceLine where
  /-- Its place in the text; the first line is at 0. -/
  index : Nat
  /-- The byte where it begins. -/
  start : Nat
  chars : List Char
deriving DecidableEq, Repr, Inhabited

namespace SourceLine

/-- The number that a reader sees. -/
def number (l : SourceLine) : Nat := l.index + 1

/-- The characters without line ends and zeros at the end of the line. -/
def shown (l : SourceLine) : List Char :=
  (l.chars.reverse.dropWhile fun c => c = '\n' || c = '\r' || c = '\x00').reverse

end SourceLine

/-- How many bytes a row of characters has. -/
def byteCount (cs : List Char) : Nat := cs.foldr (fun c n => c.utf8Size + n) 0

/-- The lines of a row of characters; `line` holds the beginning of the first one in reverse. The
row has one line more than line ends. -/
def sourceLinesFrom (index start : Nat) (line : List Char) : List Char → List SourceLine
  | [] => [⟨index, start, line.reverse⟩]
  | '\n' :: rest =>
    let chars := ('\n' :: line).reverse
    ⟨index, start, chars⟩ :: sourceLinesFrom (index + 1) (start + byteCount chars) [] rest
  | c :: rest => sourceLinesFrom index start (c :: line) rest

namespace Source

/-- The lines of a text. -/
def lines (s : Source) : List SourceLine := sourceLinesFrom 0 0 [] s.text.toList

/-- The line of a byte: the last one that does not begin behind it. -/
def lineAt (s : Source) (byte : Nat) : SourceLine :=
  ((s.lines.takeWhile fun l => l.start ≤ byte).getLast?).getD default

end Source

/-! ## Cells -/

/-- A character of a line, the bytes before it, and its width. -/
structure Cell where
  char : Char
  offset : Nat
  width : Nat
deriving DecidableEq, Repr

/-- The cells of characters, the first of which stands behind `offset` bytes in a column. -/
def cellsFrom (offset column : Nat) : List Char → List Cell
  | [] => []
  | c :: rest =>
    let width := widthAt column c
    ⟨c, offset, width⟩ :: cellsFrom (offset + c.utf8Size) (column + width) rest

/-- A row of equal characters. -/
def repeated (count : Nat) (c : Char) : String := String.ofList (List.replicate count c)

namespace SourceLine

/-- The cells of a line. -/
def cells (l : SourceLine) : List Cell := cellsFrom 0 0 l.shown

/-- The line with its tabs filled up. -/
def text (l : SourceLine) : String :=
  String.join
    (l.cells.map fun c => if c.char = '\t' then repeated c.width ' ' else String.singleton c.char)

/-- The column of a byte, as a reader counts. -/
def columnOf (l : SourceLine) (byte : Nat) : Nat :=
  ((cellsFrom l.start 0 l.chars).countP fun c => c.offset + c.char.utf8Size ≤ byte) + 1

/-- Carets below the bytes of a line from `start` up to `stop`, with blanks before them. There is
room for one caret behind the line. -/
def carets (l : SourceLine) (start stop : Nat) : String :=
  let size := byteCount l.shown
  let behind : Cell := ⟨'\x00', size, 1⟩
  String.join ((l.cells ++ [behind]).map fun c =>
    let next := c.offset + c.char.utf8Size
    if max start c.offset < min stop next then repeated c.width '^'
    else if c.offset < stop then repeated c.width ' '
    else "")

/-- A bar below the bytes of a line before `stop`. -/
def bar (l : SourceLine) (stop : Nat) : String :=
  String.join ((l.cells.takeWhile fun c => c.offset < stop).map fun c => repeated c.width '─')

end SourceLine

/-! ## Labels -/

/-- What a label adds behind its mark. -/
def Label.trailer (l : Label) : String := if l.message = "" then "" else " " ++ l.message

/-- The gutter next to a line without a number. -/
def emptyGutter (width : Nat) : String := repeated width ' ' ++ " "

/-- The gutter next to a line with a number. -/
def numberGutter (width : Nat) (l : SourceLine) : String :=
  let number := toString l.number
  repeated (width - number.length) ' ' ++ number ++ " "

/-- A marked line, and the carets below it. -/
def markedLine (width : Nat) (l : Label) (line : SourceLine) : List String :=
  let start := l.start - line.start
  let stop := l.stop - line.start
  let stop := if stop = start then start + 1 else stop
  [numberGutter width line ++ "│ " ++ line.text,
    emptyGutter width ++ "│ " ++ line.carets start stop ++ l.trailer]

/-- How many lines are shown behind the first one of a mark. -/
def linesBehindStart : Nat := 3

/-- How many lines are shown before the last one of a mark. -/
def linesBeforeStop : Nat := 1

/-- A line with a border to its left. -/
def borderedLine (width : Nat) (line : SourceLine) : String :=
  numberGutter width line ++ "│ │ " ++ line.text

/-- Lines with borders to their left, between the first and the last line of a mark. Lines that are
near neither are left out, unless there is only one of them. -/
def borderedLines (width : Nat) (first last : SourceLine) (middle : List SourceLine) :
    List String :=
  let nearStart (line : SourceLine) : Bool := line.index ≤ first.index + linesBehindStart
  let farFromStop (line : SourceLine) : Bool := line.index + linesBeforeStop < last.index
  let rest := middle.dropWhile nearStart
  let far := rest.takeWhile farFromStop
  (middle.takeWhile nearStart).map (borderedLine width) ++
    (if far.length ≤ 1 then far.map (borderedLine width) else [emptyGutter width ++ "· │"]) ++
    (rest.dropWhile farFromStop).map (borderedLine width)

/-- The lines of a mark across lines. -/
def markedLines (width : Nat) (l : Label) (first : SourceLine) (middle : List SourceLine)
    (last : SourceLine) : List String :=
  (numberGutter width first ++ "│ ╭ " ++ first.text) ::
    borderedLines width first last middle ++
    [borderedLine width last,
      emptyGutter width ++ "│ ╰" ++ last.bar (l.stop - last.start) ++ "^" ++ l.trailer]

namespace Diagnostic

/-- The notes, next to an empty gutter. -/
def noteLines (d : Diagnostic) (width : Nat) : List String :=
  d.notes.map fun note => emptyGutter width ++ "= " ++ note

/-- The lines of a diagnostic that marks a part of a text. -/
def labelLines (d : Diagnostic) (l : Label) (s : Source) : List String :=
  let first := s.lineAt l.start
  let last := s.lineAt l.stop
  let middle := s.lines.filter fun line => first.index < line.index && line.index < last.index
  let width := (toString last.number).length
  let inner := if first.index = last.index then "" else "  "
  [emptyGutter width ++ "┌─ " ++ s.name ++ ":" ++ toString first.number ++ ":" ++
      toString (first.columnOf l.start),
    emptyGutter width ++ "│" ++ inner] ++
    (if first.index = last.index then markedLine width l first
      else markedLines width l first middle last) ++
    (if d.notes.isEmpty then [] else [emptyGutter width ++ "│" ++ inner]) ++ d.noteLines width

/-- The text that shows a diagnostic about a text. An empty line ends it. -/
def render (d : Diagnostic) (s : Source) : String :=
  let body :=
    match d.label with
    | some l => d.labelLines l s
    | none => d.noteLines 0
  String.join ((("error: " ++ d.message) :: body ++ [""]).map fun line => line ++ "\n")

end Diagnostic

end Blockwork
