import Blockwork.CommandLine.Options
import Blockwork.Number.Reading

/-!
# Arguments of the program

A command and what it is to work on. Some options may stand before the command as well as behind it;
what stands behind it counts more.
-/

namespace Blockwork

/-- A command. -/
inductive Command where
  /-- Runs a chain of a program; the time is in seconds. -/
  | run (path : String) (chain : Option Nat) (time : Option Float) (quiet : Bool)
  /-- Checks the integrity of a program. -/
  | check (path : String)
  /-- Shows the chains of a program. -/
  | list (path : String)
  /-- Runs test files. -/
  | test (path : String) (categories : List String)
  /-- Shows which test files there are. -/
  | categories (path : String)

/-- The path that a command works on. -/
def Command.path : Command → String
  | .run path .. | .check path | .list path | .test path _ | .categories path => path

/-- A command and the options that every command has. -/
structure Invocation where
  command : Command
  noColor : Bool
  config : Option String
  logLevel : Option String

namespace Arguments

/-- The options that every command has. -/
def commonRules : List OptionRule :=
  [⟨"no-color", none, .flag⟩, ⟨"config", none, .single⟩, ⟨"log-level", none, .single⟩]

/-- The options of a run. -/
def runRules : List OptionRule :=
  [⟨"chain", some 'c', .single⟩, ⟨"timeout", some 't', .single⟩, ⟨"quiet", some 'q', .flag⟩]

/-- The options of a test. -/
def testRules : List OptionRule :=
  [⟨"category", some 'c', .many⟩, ⟨"list-categories", none, .flag⟩]

/-- The number of a chain. -/
def readChain? (text : String) : Option Nat :=
  match splitSign text.toList with
  | (_, []) => none
  | (negative, digits) =>
    let n := digitsValue digits
    if digits.all Char.isDigit && n < UInt32.size && (!negative || n = 0) then some n else none

/-- The value of an option that need not be given, as something else. -/
def optional {α : Type} (r : ReadWords) (name : String) (read : String → Option α) :
    Option (Option α) :=
  match r.value? name with
  | none => some none
  | some text => (read text).map some

/-- A path is not empty. -/
def readPath (text : String) : Option String := if text = "" then none else some text

/-- The one word that a command works on. -/
def path? (r : ReadWords) : Option String :=
  match r.words with
  | [word] => readPath word
  | _ => none

/-- The options of the command of a name. -/
def rulesOf : String → Option (List OptionRule)
  | "run" => some runRules
  | "check" => some []
  | "list" => some []
  | "test" => some testRules
  | _ => none

/-- The command of a name, given what stands behind it. -/
def commandOf (name : String) (r : ReadWords) : Option Command := do
  let path ← path? r
  match name with
  | "run" =>
    let chain ← optional r "chain" readChain?
    let time ← optional r "timeout" readNumber?
    some (.run path chain time (r.has "quiet"))
  | "check" => some (.check path)
  | "list" => some (.list path)
  | "test" =>
    if r.has "list-categories" then some (.categories path)
    else some (.test path (r.values "category"))
  | _ => none

/-- What the arguments ask for, if they are right. -/
def parse (arguments : List String) : Option Invocation := do
  let (before, rest) ← Options.read commonRules true arguments
  match rest with
  | [] => none
  | name :: rest =>
    let rules ← rulesOf name
    let (behind, _) ← Options.read (rules ++ commonRules) false rest
    let command ← commandOf name behind
    let configBefore ← optional before "config" readPath
    let configBehind ← optional behind "config" readPath
    some {
      command := command
      noColor := before.has "no-color" || behind.has "no-color"
      config := configBehind.or configBefore
      logLevel := (behind.value? "log-level").or (before.value? "log-level") }

end Arguments

end Blockwork
