import Blockwork.Ordered
import Blockwork.Outcome
import Blockwork.Value

/-!
# Variables of a run

A run has global variables, and a scope of local ones for each procedure call. Only the innermost
scope and the globals can be seen.
-/

namespace Blockwork

/-- The local variables of a procedure call. -/
abbrev Scope : Type := Table Value

/-- The scope of a call: each parameter with its argument. -/
def Scope.ofParameters (parameters : List String) (arguments : List Value) : Scope :=
  Ordered.ofList (parameters.zip arguments)

/-- The variables of a run. -/
structure Environment where
  globals : Table Value
  /-- The scopes, innermost first. -/
  scopes : List Scope

namespace Environment

/-- The variables at the start of a run. -/
def ofGlobals (globals : Table Value) : Environment := ⟨globals, []⟩

/-- Enters a scope. -/
def push (env : Environment) (scope : Scope) : Environment :=
  { env with scopes := scope :: env.scopes }

/-- Leaves the innermost scope. -/
def pop (env : Environment) : Environment := { env with scopes := env.scopes.tail }

/-- Leaves all scopes. -/
def clear (env : Environment) : Environment := { env with scopes := [] }

/-- The value of a variable, if it has one. -/
def lookup (env : Environment) (name : String) : Option Value :=
  (env.scopes.head?.bind fun scope => Table.get? scope name).or (env.globals.get? name)

/-- The value of a variable. -/
def get (env : Environment) (name : String) : Except RunError Value :=
  match env.lookup name with
  | some value => .ok value
  | none => .error (.unboundVariable name)

/-- Declares a variable in the innermost scope, or a global one if there is no scope. -/
def declare (env : Environment) (name : String) (value : Value) : Environment :=
  match env.scopes with
  | scope :: outer => { env with scopes := Table.set scope name value :: outer }
  | [] => { env with globals := env.globals.set name value }

/-- Changes a variable where it is found, or declares it. -/
def set (env : Environment) (name : String) (value : Value) : Environment :=
  let isLocal := env.scopes.head?.any fun scope => (Table.get? scope name).isSome
  if isLocal then env.declare name value
  else if (env.globals.get? name).isSome then { env with globals := env.globals.set name value }
  else env.declare name value

end Environment

end Blockwork
