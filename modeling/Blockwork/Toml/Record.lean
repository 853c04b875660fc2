import Blockwork.Toml.Reading

/-!
# Records in TOML

A record is read from the members of a table: members that must be of some kind if they are there,
and nothing else where that is asked for.
-/

namespace Blockwork

namespace Toml

/-- A text. -/
def asText : Toml → Option String
  | .text s => some s
  | _ => none

/-- A truth value. -/
def asBoolean : Toml → Option Bool
  | .boolean b => some b
  | _ => none

/-- A natural number below a bound. -/
def asNatural (bound : Nat) : Toml → Option Nat
  | .integer n => if 0 ≤ n && n < bound then some n.toNat else none
  | _ => none

/-- A member that need not be there. -/
def field {α : Type} (members : Members) (name : String) (default : α)
    (read : Toml → Option α) : Option α :=
  match member? members name with
  | none => some default
  | some value => read value

/-- A member that need not be there, and has nothing in its place. -/
def optionalField {α : Type} (members : Members) (name : String) (read : Toml → Option α) :
    Option (Option α) :=
  field members name none fun value => (read value).map some

/-- Whether all members have one of the names. -/
def knows (names : List String) (members : Members) : Bool :=
  members.all fun m => names.contains m.1

end Toml

end Blockwork
