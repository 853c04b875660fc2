import Blockwork.Json.Basic
import Blockwork.Number.Style

/-!
# Writing JSON

A JSON value as text, either compact or with one item or member a line, indented by two spaces a
level. Numbers are written in `NumberStyle.json`; the characters escaped in a text are the quote,
the backslash and the control characters.
-/

namespace Blockwork

/-- The decimal text of a whole number. -/
def intText (n : Int) : String :=
  String.ofList ((if n < 0 then ['-'] else []) ++ decimalDigits n.natAbs)

/-- The text of a number. -/
def JsonNumber.write : JsonNumber → String
  | .integer n => intText n
  | .double x => NumberStyle.json.write .double (Binary.ofFloat x)
  | .single x => NumberStyle.json.write .single (Binary.ofFloat32 x)

namespace Json

/-- A character inside quotes. -/
def escapeChar (c : Char) : List Char :=
  match c with
  | '"' => ['\\', '"']
  | '\\' => ['\\', '\\']
  | '\x08' => ['\\', 'b']
  | '\x0c' => ['\\', 'f']
  | '\n' => ['\\', 'n']
  | '\r' => ['\\', 'r']
  | '\t' => ['\\', 't']
  | c =>
    if c.toNat < 0x20 then
      ['\\', 'u', '0', '0', Nat.digitChar (c.toNat / 16), Nat.digitChar (c.toNat % 16)]
    else [c]

/-- A text in quotes. -/
def quote (s : String) : String := "\"" ++ String.ofList (s.toList.flatMap escapeChar) ++ "\""

mutual

/-- A value without any space. -/
def compact : Json → String
  | .null => "null"
  | .boolean b => if b then "true" else "false"
  | .number n => n.write
  | .text s => quote s
  | .array items _ => "[" ++ compactItems "" items ++ "]"
  | .object members _ => "\x7b" ++ compactMembers "" members ++ "\x7d"
  | .tooDeep inner => compact inner
  | .broken _ => "null"
  | .meaningless => "null"

/-- Items, each after a separator that is empty before the first one. -/
def compactItems (separator : String) : List Json → String
  | [] => ""
  | item :: rest => separator ++ compact item ++ compactItems "," rest

/-- Members, each after a separator that is empty before the first one. -/
def compactMembers (separator : String) : List (String × Json) → String
  | [] => ""
  | (key, value) :: rest =>
    separator ++ quote key ++ ":" ++ compact value ++ compactMembers "," rest

end

/-- The indentation of a level. -/
def indent (level : Nat) : String := String.ofList (List.replicate (2 * level) ' ')

mutual

/-- A value with one item or member a line, at a level of indentation. -/
def pretty (level : Nat) : Json → String
  | .array (item :: rest) _ =>
    "[\n" ++ indent (level + 1) ++ pretty (level + 1) item ++ prettyItems (level + 1) rest ++
      "\n" ++ indent level ++ "]"
  | .object ((key, value) :: rest) _ =>
    "\x7b\n" ++ indent (level + 1) ++ quote key ++ ": " ++ pretty (level + 1) value ++
      prettyMembers (level + 1) rest ++ "\n" ++ indent level ++ "\x7d"
  | .tooDeep inner => pretty level inner
  | j => compact j

/-- The items after the first one. -/
def prettyItems (level : Nat) : List Json → String
  | [] => ""
  | item :: rest => ",\n" ++ indent level ++ pretty level item ++ prettyItems level rest

/-- The members after the first one. -/
def prettyMembers (level : Nat) : List (String × Json) → String
  | [] => ""
  | (key, value) :: rest =>
    ",\n" ++ indent level ++ quote key ++ ": " ++ pretty level value ++ prettyMembers level rest

end

end Json

end Blockwork
