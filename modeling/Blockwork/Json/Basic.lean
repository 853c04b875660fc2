import Blockwork.Number.Binary

/-!
# JSON as it is read

A JSON text is read from front to back, and the first problem met decides how it is refused. The
tree of a text therefore also says where the text stops making sense: a container can be cut short,
and a value can be missing. A tree without such places is a plain JSON value, and this is what is
written.

## Two ways to pass over a value

A value that is kept must have a meaning: a number that is in range, a text without half a
surrogate pair, containers that are not nested too deep. A value that is ignored need only be well
formed. `Json.settled` and `Json.skipped` are the two checks.
-/

namespace Blockwork

/-- Why a JSON text is refused. -/
inductive Fault where
  /-- A token that cannot stand where it stands, or that has no meaning. -/
  | malformed
  /-- The text ends too early. -/
  | truncated
  /-- Well formed so far, but not the kind of value that is wanted. -/
  | mismatch
deriving DecidableEq, Repr

/-- A number in a JSON text. -/
inductive JsonNumber where
  /-- A whole number written without point or exponent, of at most 64 bits. -/
  | integer (n : Int)
  | double (x : Float)
  | single (x : Float32)

/-- A JSON value, or as much of it as a text holds. -/
inductive Json where
  | null
  | boolean (b : Bool)
  | number (n : JsonNumber)
  | text (s : String)
  /-- The items in order, and the fault met in place of the next item or of the end. -/
  | array (items : List Json) (cut : Option Fault)
  /-- The members in order, and the fault met in place of the next member or of the end. -/
  | object (members : List (String × Json)) (cut : Option Fault)
  /-- A fault in place of a value. -/
  | broken (fault : Fault)
  /-- A token that is well formed but has no meaning. -/
  | meaningless
  /-- A container that is nested too deep to be entered. -/
  | tooDeep (inner : Json)
deriving Inhabited

namespace Json

/-- A complete array. -/
@[match_pattern] def list (items : List Json) : Json := .array items none

/-- A complete object. -/
@[match_pattern] def record (members : List (String × Json)) : Json := .object members none

/-- A whole number. -/
def nat (n : Nat) : Json := .number (.integer n)

/-- The fault of a value that is not of the wanted kind. -/
def unwanted : Json → Fault
  | .broken fault => fault
  | .meaningless => .malformed
  | _ => .mismatch

mutual

/-- The first fault met when the value is kept. -/
def settled : Json → Option Fault
  | .array items cut => (settledItems items).or cut
  | .object members cut => (settledMembers members).or cut
  | .broken fault => some fault
  | .meaningless => some .malformed
  | .tooDeep _ => some .malformed
  | _ => none

/-- The first fault met in items that are kept. -/
def settledItems : List Json → Option Fault
  | [] => none
  | item :: rest => (settled item).or (settledItems rest)

/-- The first fault met in members that are kept. -/
def settledMembers : List (String × Json) → Option Fault
  | [] => none
  | (_, value) :: rest => (settled value).or (settledMembers rest)

end

mutual

/-- The first fault met when the value is ignored. -/
def skipped : Json → Option Fault
  | .array items cut => (skippedItems items).or cut
  | .object members cut => (skippedMembers members).or cut
  | .broken fault => some fault
  | .tooDeep inner => skipped inner
  | _ => none

/-- The first fault met in items that are ignored. -/
def skippedItems : List Json → Option Fault
  | [] => none
  | item :: rest => (skipped item).or (skippedItems rest)

/-- The first fault met in members that are ignored. -/
def skippedMembers : List (String × Json) → Option Fault
  | [] => none
  | (_, value) :: rest => (skipped value).or (skippedMembers rest)

end

end Json

end Blockwork
