import Blockwork.Json.Record
import Blockwork.Value

/-!
# Values in JSON

A value is written as the JSON number, text or truth value it is, and read back as the kind it is
written as. It is read as a whole before its kind is looked at.
-/

namespace Blockwork

namespace Value

/-- A value in JSON. -/
def toJson : Value → Json
  | .number x => .number (.double x)
  | .text s => .text s
  | .boolean b => .boolean b

/-- Reads a value. -/
def ofJson (j : Json) : Except Fault Value :=
  match j.settled, j with
  | some fault, _ => .error fault
  | none, .number n => (Json.asDouble (.number n)).map .number
  | none, .text s => .ok (.text s)
  | none, .boolean b => .ok (.boolean b)
  | none, _ => .error .mismatch

end Value

end Blockwork
