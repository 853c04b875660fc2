import Blockwork.Chain.Format
import Blockwork.Json.Reading
import Blockwork.Json.Writing
import Blockwork.Program

/-!
# Programs in JSON

A program is saved as JSON with its definitions and variables in order. A program that is loaded
gets the standard definitions it lacks, and its procedures are recorded anew.
-/

namespace Blockwork

/-- A registry in JSON. -/
def Registry.toJson (r : Registry) : Json := .list (r.items.map Definition.toJson)

/-- Reads a registry. Of several definitions of one id it keeps the last. -/
def Registry.ofJson (j : Json) : Except Fault Registry :=
  (j.asList Definition.ofJson).map Ordered.ofList

/-- Variables in JSON. -/
def variablesToJson (t : Table Value) : Json :=
  .record (t.items.map fun (name, value) => (name, value.toJson))

/-- Reads variables. Of several values of one name it keeps the last. -/
def variablesOfJson (j : Json) : Except Fault (Table Value) :=
  (j.asTable Value.ofJson).map Ordered.ofList

/-- Why a program cannot be loaded. -/
inductive LoadError where
  | malformed (fault : Fault)
  | registry (error : RegistryError)
deriving DecidableEq, Repr

/-- What an error says. -/
def LoadError.message : LoadError → String
  | .malformed .malformed => "malformed program: this is not JSON"
  | .malformed .truncated => "malformed program: the text ends too early"
  | .malformed .mismatch => "malformed program: the JSON is not a program"
  | .registry e => e.message

namespace Program

/-- A program in JSON. -/
def toJson (p : Program) : Json :=
  .record [("definitions", p.definitions.toJson), ("variables", variablesToJson p.globals),
    ("chains", .list (p.chains.map Chain.toJson))]

/-- Reads a program as it is written. -/
def ofJson : Json → Except Fault Program :=
  Json.readRecord ["definitions", "variables", "chains"] fun m =>
    Program.mk <$> m.field "definitions" .empty Registry.ofJson <*>
      m.field "variables" .empty variablesOfJson <*>
      m.field "chains" [] (Json.asList Chain.ofJson)

/-- The text a program is saved as. -/
def save (p : Program) : String := p.toJson.pretty 0

/-- What a program becomes when it is loaded. -/
def prepare (p : Program) : Except RegistryError Program :=
  let (result, p) := { p with definitions := p.definitions.installBuiltins }.recordProcedures
  result.map fun _ => p

/-- Loads a program from a text. -/
def load (text : String) : Except LoadError Program :=
  match (Json.parse text).read ofJson with
  | .error fault => .error (.malformed fault)
  | .ok p =>
    match p.prepare with
    | .error e => .error (.registry e)
    | .ok p => .ok p

end Program

end Blockwork
