import Blockwork.Toml.Scalar

/-!
# Reading TOML

A text is a row of lines: values under keys, and headers that say which table the keys that follow
belong to. A key or a header may name tables on the way, which then come about by themselves; what
came about in one way cannot be extended in another.
-/

namespace Blockwork

namespace Toml

/-! ## Extending tables -/

/-- The members of a table. -/
abbrev Members : Type := List (String × Toml)

/-- The value of a key. -/
def member? (members : Members) (name : String) : Option Toml :=
  (members.find? fun m => m.1 = name).map Prod.snd

/-- The members with another value for a key that is there. -/
def replace (members : Members) (name : String) (value : Toml) : Members :=
  members.map fun m => if m.1 = name then (name, value) else m

/-- Changes the table that a row of names leads to. Tables on the way come about if they are
missing; of an array of tables the last one is meant. -/
def within (byKey : Bool) (change : TomlOrigin → Members → Option Members) :
    List String → TomlOrigin → Members → Option Members
  | [], origin, members => change origin members
  | name :: path, _, members =>
    match member? members name with
    | none =>
      let origin := if byKey then .dotted else .implied
      (within byKey change path origin []).map fun inner =>
        members ++ [(name, .table origin inner)]
    | some (.table origin inner) =>
      if origin = .inline || (byKey && origin = .header) then none
      else
        (within byKey change path origin inner).map fun inner =>
          replace members name (.table origin inner)
    | some (.array true items) =>
      match items.getLast? with
      | some (.table origin inner) =>
        (within byKey change path origin inner).map fun inner =>
          replace members name (.array true (items.dropLast ++ [.table origin inner]))
      | _ => none
    | some _ => none

/-- Puts a value under a dotted key. -/
def put (path : List String) (name : String) (value : Toml) :
    TomlOrigin → Members → Option Members :=
  within true
    (fun origin members =>
      let foreign := if path.isEmpty then origin = .dotted else origin ≠ .dotted
      if foreign || (member? members name).isSome then none else some (members ++ [(name, value)]))
    path

/-- Opens the table of a header. -/
def openTable (path : List String) (name : String) :
    TomlOrigin → Members → Option Members :=
  within false
    (fun _ members =>
      match member? members name with
      | none => some (members ++ [(name, .table .header [])])
      | some (.table .implied inner) => some (replace members name (.table .header inner))
      | some _ => none)
    path

/-- Adds a table to the array of a header. -/
def openItem (path : List String) (name : String) :
    TomlOrigin → Members → Option Members :=
  within false
    (fun _ members =>
      match member? members name with
      | none => some (members ++ [(name, .array true [.table .header []])])
      | some (.array true items) =>
        some (replace members name (.array true (items ++ [.table .header []])))
      | some _ => none)
    path

/-! ## Blanks and keys -/

/-- Whether a character is a blank. -/
def isBlankChar (c : Char) : Bool := c = ' ' || c = '\t'

/-- What follows blanks. -/
def skipBlanks (cs : List Char) : List Char := cs.dropWhile isBlankChar

/-- What follows blanks, line ends and comments. -/
def skipLines (comment : Bool) : List Char → Option (List Char)
  | [] => some []
  | '\r' :: rest => if rest.head? = some '\n' then skipLines comment rest else none
  | '\n' :: rest => skipLines false rest
  | c :: rest =>
    if comment then if isControl c then none else skipLines true rest
    else if isBlankChar c then skipLines false rest
    else if c = '#' then skipLines true rest
    else some (c :: rest)

/-- What follows the end of a line, with blanks and a comment before it. -/
def endLine (cs : List Char) : Option (List Char) :=
  match skipBlanks cs with
  | [] => some []
  | '\n' :: rest => some ('\n' :: rest)
  | '\r' :: '\n' :: rest => some ('\n' :: rest)
  | '#' :: rest => some ('#' :: rest)
  | _ => none

/-- A key without dots. -/
def readName (cs : List Char) : Option (String × List Char) :=
  match cs with
  | '"' :: '"' :: '"' :: _ => none
  | '\'' :: '\'' :: '\'' :: _ => none
  | '"' :: _ => readText cs
  | '\'' :: _ => readText cs
  | cs =>
    let name := cs.takeWhile isBare
    if name.isEmpty then none else some (String.ofList name, cs.dropWhile isBare)

/-- The number of names in a key, or of arrays and tables in braces inside one another, that is too
large. -/
def depthLimit : Nat := 80

/-- A key of at most so many names, with blanks around its dots. -/
def readNames : Nat → List Char → Option (List String × List Char)
  | 0, _ => none
  | count + 1, cs => do
    let (name, rest) ← readName (skipBlanks cs)
    match skipBlanks rest with
    | '.' :: rest => (readNames count rest).map fun (names, rest) => (name :: names, rest)
    | rest => some ([name], rest)

/-- A key. -/
def readKey (cs : List Char) : Option (List String × List Char) := readNames (depthLimit - 1) cs

/-- A key, and the names of the tables on the way to it. -/
def splitKey (names : List String) : List String × String := (names.dropLast, names.getLastD "")

/-! ## Values -/

mutual

/-- A value, with room for so many arrays and tables inside one another. -/
def readValue : Nat → Nat → List Char → Option (Toml × List Char)
  | 0, _, _ => none
  | fuel + 1, room, cs =>
    match cs, room with
    | '"' :: _, _ => (readText cs).map fun (s, rest) => (.text s, rest)
    | '\'' :: _, _ => (readText cs).map fun (s, rest) => (.text s, rest)
    | '[' :: rest, room + 1 =>
      (readItems fuel room [] rest).map fun (items, rest) => (.array false items, rest)
    | '\x7b' :: rest, room + 1 =>
      match skipBlanks rest with
      | '\x7d' :: rest => some (.table .inline [], rest)
      | rest => (readMembers fuel room [] rest).map fun (ms, rest) => (.table .inline ms, rest)
    | cs, _ => readWord cs

/-- The items of an array up to its end, after those read already (in reverse). -/
def readItems : Nat → Nat → List Toml → List Char → Option (List Toml × List Char)
  | 0, _, _, _ => none
  | fuel + 1, room, read, cs => do
    match ← skipLines false cs with
    | ']' :: rest => some (read.reverse, rest)
    | cs =>
      let (item, rest) ← readValue fuel room cs
      match ← skipLines false rest with
      | ',' :: rest => readItems fuel room (item :: read) rest
      | ']' :: rest => some ((item :: read).reverse, rest)
      | _ => none

/-- The members of a table in braces up to its end, after those read already. -/
def readMembers : Nat → Nat → Members → List Char → Option (Members × List Char)
  | 0, _, _, _ => none
  | fuel + 1, room, read, cs => do
    let (names, rest) ← readKey cs
    let (value, rest) ← readValue fuel room (skipBlanks (← expect '=' rest))
    let (path, name) := splitKey names
    let read ← put path name value .inline read
    match skipBlanks rest with
    | ',' :: rest => readMembers fuel room read rest
    | '\x7d' :: rest => some (read, rest)
    | _ => none

end

/-! ## Texts -/

/-- Reads lines. The keys belong to the table of the last header. -/
def readLines : Nat → List String → Members → List Char → Option Members
  | 0, _, _, _ => none
  | fuel + 1, header, members, cs => do
    match ← skipLines false cs with
    | [] => some members
    | '[' :: '[' :: rest =>
      let (names, rest) ← readKey rest
      let (path, name) := splitKey names
      let rest ← endLine (← expect ']' (← expect ']' rest))
      readLines fuel names (← openItem path name .header members) rest
    | '[' :: rest =>
      let (names, rest) ← readKey rest
      let (path, name) := splitKey names
      let rest ← endLine (← expect ']' rest)
      readLines fuel names (← openTable path name .header members) rest
    | cs =>
      let (names, rest) ← readKey cs
      let (value, rest) ← readValue fuel (depthLimit - 1) (skipBlanks (← expect '=' rest))
      let rest ← endLine rest
      let (path, name) := splitKey names
      let members ← within false (put path name value) header .header members
      readLines fuel header members rest

/-- The members of the table that a text spells. -/
def parse (text : String) : Option Members :=
  let cs :=
    match text.toList with
    | '\ufeff' :: rest => rest
    | cs => cs
  readLines (cs.length + 1) [] [] cs

end Toml

end Blockwork
