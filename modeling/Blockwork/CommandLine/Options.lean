import Blockwork.Text.Lines

/-!
# Options

Words on a command line are options, which have a long name and perhaps a letter, or they stand for
themselves. An option may want a value: behind an equals sign, right behind its letter, or as the
next word, which must not look like an option then. Letters may be put together.
-/

namespace Blockwork

/-- What may follow an option, and how often the option may be given. -/
inductive OptionKind where
  /-- No value, and once. -/
  | flag
  /-- A value, and once. -/
  | single
  /-- A value, and any number of times. -/
  | many
deriving DecidableEq, Repr

/-- An option of a command. -/
structure OptionRule where
  name : String
  letter : Option Char
  kind : OptionKind
deriving DecidableEq, Repr

/-- Words that have been read. -/
structure ReadWords where
  /-- The options and their values in order; a flag has an empty one. -/
  options : List (String × String)
  /-- The words that stand for themselves, in order. -/
  words : List String
deriving DecidableEq, Repr

namespace ReadWords

/-- No words. -/
def empty : ReadWords := ⟨[], []⟩

/-- The values of an option. -/
def values (r : ReadWords) (name : String) : List String :=
  r.options.filterMap fun o => if o.1 = name then some o.2 else none

/-- The value of an option that is given once. -/
def value? (r : ReadWords) (name : String) : Option String := (r.values name).head?

/-- Whether an option is given. -/
def has (r : ReadWords) (name : String) : Bool := (r.value? name).isSome

/-- Adds options. -/
def addOptions (r : ReadWords) (options : List (String × String)) : ReadWords :=
  { r with options := r.options ++ options }

/-- Adds words that stand for themselves. -/
def addWords (r : ReadWords) (words : List String) : ReadWords :=
  { r with words := r.words ++ words }

end ReadWords

namespace Options

/-- Whether a word looks like an option. A single hyphen does not. -/
def looksLikeOption (word : String) : Bool := startsWithText word "-" && word ≠ "-"

/-- What stands behind the equals sign of a word, if there is one, and what stands before it. -/
def splitEquals (cs : List Char) : String × Option String :=
  let name := String.ofList (cs.takeWhile fun c => c ≠ '=')
  match cs.dropWhile fun c => c ≠ '=' with
  | [] => (name, none)
  | _ :: value => (name, some (String.ofList value))

/-- Options in one word, the last of which may want the next word as its value. -/
structure WordOptions where
  options : List (String × String)
  pending : Option String

/-- The options of letters put together. -/
def ofLetters (rules : List OptionRule) : List Char → Option WordOptions
  | [] => some ⟨[], none⟩
  | c :: rest => do
    let rule ← rules.find? fun r => r.letter = some c
    match rule.kind, rest with
    | .flag, rest =>
      let more ← ofLetters rules rest
      some { more with options := (rule.name, "") :: more.options }
    | _, [] => some ⟨[], some rule.name⟩
    | _, '=' :: value => some ⟨[(rule.name, String.ofList value)], none⟩
    | _, value => some ⟨[(rule.name, String.ofList value)], none⟩

/-- The option of a long name. -/
def ofName (rules : List OptionRule) (cs : List Char) : Option WordOptions := do
  let (name, value) := splitEquals cs
  let rule ← rules.find? fun r => r.name = name
  match rule.kind, value with
  | .flag, none => some ⟨[(name, "")], none⟩
  | .flag, some _ => none
  | _, some value => some ⟨[(name, value)], none⟩
  | _, none => some ⟨[], some name⟩

/-- The options of a word that looks like one. -/
def ofWord (rules : List OptionRule) (word : String) : Option WordOptions :=
  match word.toList with
  | '-' :: '-' :: name => ofName rules name
  | _ :: letters => ofLetters rules letters
  | [] => none

/-- Reads words; `first` says to stop before the first one that stands for itself. -/
def readWords (rules : List OptionRule) (first : Bool) (read : ReadWords) :
    List String → Option (ReadWords × List String)
  | [] => some (read, [])
  | word :: rest =>
    if word = "--" then if first then none else some (read.addWords rest, [])
    else if looksLikeOption word then
      match ofWord rules word with
      | none => none
      | some ⟨options, none⟩ => readWords rules first (read.addOptions options) rest
      | some ⟨options, some name⟩ =>
        match rest with
        | [] => none
        | value :: rest =>
          if looksLikeOption value then none
          else readWords rules first (read.addOptions (options ++ [(name, value)])) rest
    else if first then some (read, word :: rest)
    else readWords rules first (read.addWords [word]) rest

/-- Whether no option is given more often than it may be. -/
def respects (rules : List OptionRule) (read : ReadWords) : Bool :=
  rules.all fun r => r.kind = .many || (read.values r.name).length ≤ 1

/-- Reads words, and checks that no option is given too often. -/
def read (rules : List OptionRule) (first : Bool) (words : List String) :
    Option (ReadWords × List String) :=
  (readWords rules first .empty words).filter fun (read, _) => respects rules read

end Options

end Blockwork
