import Blockwork.Builtins
import Blockwork.Ordered

/-!
# Registries

The definitions a program knows, one for each id, in the order of their ids. A definition may be
registered anew as long as its behavior stays of the same kind.
-/

namespace Blockwork

/-- Definitions by id. -/
abbrev Registry : Type := Ordered Definition Definition.id

/-- Why a registry refuses a request. -/
inductive RegistryError where
  | unknownDefinition (id : String)
  /-- The id belongs to a definition of another kind. -/
  | duplicateDefinition (id : String) (existing : BehaviorKind)
deriving DecidableEq, Repr

/-- What a refusal says. -/
def RegistryError.message : RegistryError → String
  | .unknownDefinition id => "unknown definition: " ++ id
  | .duplicateDefinition id existing =>
    "definition '" ++ id ++ "' is already registered as a " ++ existing.name ++ " block"

namespace Registry

/-- Puts in the standard definitions whose ids are free. -/
def installBuiltins (r : Registry) : Registry :=
  Builtins.all.foldl (fun r d => if (r.find? d.id).isSome then r else r.insert d) r

/-- The registry of the standard definitions. -/
def builtins : Registry := installBuiltins Ordered.empty

/-- Registers a definition: the definition it replaces, and the registry with it. -/
def register (r : Registry) (d : Definition) :
    Except RegistryError (Option Definition × Registry) :=
  match r.find? d.id with
  | none => .ok (none, r.insert d)
  | some old =>
    if old.behavior.kind = d.behavior.kind then .ok (some old, r.insert d)
    else .error (.duplicateDefinition d.id old.behavior.kind)

/-- The definition with an id. -/
def resolve (r : Registry) (id : String) : Except RegistryError Definition :=
  match r.find? id with
  | some d => .ok d
  | none => .error (.unknownDefinition id)

end Registry

end Blockwork
