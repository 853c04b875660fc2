import Blockwork.Number.Style

/-!
# TOML values

A TOML text is a table of values. A table remembers how it came about, because a text may extend
some tables later on and not others.
-/

namespace Blockwork

/-- How a table came about. -/
inductive TomlOrigin where
  /-- Written as a value, in braces. -/
  | inline
  /-- Has a header of its own. -/
  | header
  /-- Named only on the way to another table, in a header. -/
  | implied
  /-- Named only on the way to a value, in a dotted key. -/
  | dotted
deriving DecidableEq, Repr

/-- A TOML value. -/
inductive Toml where
  | text (s : String)
  | integer (n : Int)
  | float (x : Float)
  | boolean (b : Bool)
  /-- A date, a time or both, as it is shown. -/
  | moment (shown : String)
  /-- The items; `growing` tells an array of tables with headers of their own. -/
  | array (growing : Bool) (items : List Toml)
  | table (origin : TomlOrigin) (members : List (String × Toml))
deriving Inhabited

namespace Toml

/-! ## Showing values -/

/-- Whether a character can stand in a key without quotes. -/
def isBare (c : Char) : Bool := c.isAlphanum || c = '_' || c = '-'

/-- Whether a character has to be escaped in any text. -/
def isControl (c : Char) : Bool := (c.toNat < 0x20 && c ≠ '\t') || c.toNat = 0x7f

/-- A digit of a character's number. -/
def hexDigit (n : Nat) : Char := (Nat.digitChar n).toUpper

/-- A character in double quotes. -/
def escapeChar (lines : Bool) (c : Char) : List Char :=
  match c with
  | '"' => ['\\', '"']
  | '\\' => ['\\', '\\']
  | '\x08' => ['\\', 'b']
  | '\t' => ['\\', 't']
  | '\n' => if lines then ['\n'] else ['\\', 'n']
  | '\x0c' => ['\\', 'f']
  | '\r' => ['\\', 'r']
  | c =>
    if isControl c then ['\\', 'u', '0', '0', hexDigit (c.toNat / 16), hexDigit (c.toNat % 16)]
    else [c]

/-- The length of the longest run of a character. -/
def longestRun (c : Char) (current longest : Nat) : List Char → Nat
  | [] => max current longest
  | d :: rest =>
    if d = c then longestRun c (current + 1) longest rest
    else longestRun c 0 (max current longest) rest

/-- A text in quotes: in the plainest quotes that need no escapes, if there are such. -/
def quote (s : String) : String :=
  let cs := s.toList
  let controls := cs.any fun c => isControl c && c ≠ '\n'
  let escapes := cs.contains '\\'
  let lines := cs.contains '\n'
  let double := longestRun '"' 0 0 cs
  let single := longestRun '\'' 0 0 cs
  let lineEnd := if lines then "\n" else ""
  if !controls && !escapes && double = 0 && !lines then "\"" ++ s ++ "\""
  else if !controls && single = 0 && !lines then "'" ++ s ++ "'"
  else if !controls && !escapes && double ≤ 2 then "\"\"\"" ++ lineEnd ++ s ++ "\"\"\""
  else if !controls && single ≤ 2 then "'''" ++ lineEnd ++ s ++ "'''"
  else if lines then
    "\"\"\"\n" ++ String.ofList (cs.flatMap (escapeChar true)) ++ "\"\"\""
  else "\"" ++ String.ofList (cs.flatMap (escapeChar false)) ++ "\""

/-- A key, in quotes if it needs them. -/
def key (s : String) : String := if s ≠ "" && s.toList.all isBare then s else quote s

/-- A number with a point, and never with an exponent. -/
def floatText (x : Float) : String :=
  let b := Binary.ofFloat x
  plainText x ++ if b.natAbs?.isSome then ".0" else ""

/-- The members of a table in the order of their keys. -/
def sortMembers (members : List (String × String)) : List (String × String) :=
  members.mergeSort fun a b => a.1 ≤ b.1

mutual

/-- A value on one line, as an item or a member. -/
def inner : Toml → String
  | .text s => quote s
  | .integer n => toString n
  | .float x => floatText x
  | .boolean b => if b then "true" else "false"
  | .moment shown => shown
  | .array _ items => "[" ++ ", ".intercalate (innerItems items) ++ "]"
  | .table _ members =>
    match sortMembers (innerMembers members) with
    | [] => "\x7b\x7d"
    | members =>
      "\x7b " ++ ", ".intercalate (members.map fun m => key m.1 ++ " = " ++ m.2) ++ " \x7d"

/-- Items, each on one line. -/
def innerItems : List Toml → List String
  | [] => []
  | item :: rest => inner item :: innerItems rest

/-- Members, each value on one line. -/
def innerMembers : List (String × Toml) → List (String × String)
  | [] => []
  | (name, value) :: rest => (name, inner value) :: innerMembers rest

end

/-- The text that shows a value. A date or time that stands alone is shown as the table that stands
for it. -/
def display : Toml → String
  | .moment shown => inner (.table .inline [("$__toml_private_datetime", .text shown)])
  | value => inner value

end Toml

end Blockwork
