import Blockwork.Json.Basic

/-!
# Reading records

A record is written as an object of its fields, in any order, or as an array of its fields in their
own order. Fields that are not known are passed over, a field written twice is refused, and of
several faults the one that stands first in the text decides. So a field that is read is a `Part`:
a value, or a fault together with the number of members that stand before it; parts are combined by
keeping the fault that stands first.

## Records of several kinds

Where a record is of one of several kinds, one of its members tells which. That member may stand
anywhere, so all others are kept until it is known (`Json.readTagged`).
-/

namespace Blockwork

namespace Json

/-! ## Values without parts -/

/-- A text. -/
def asText : Json → Except Fault String
  | .text s => .ok s
  | j => .error j.unwanted

/-- A whole number below a limit. -/
def asNat (limit : Nat) : Json → Except Fault Nat
  | .number (.integer n) => if 0 ≤ n ∧ n < limit then .ok n.toNat else .error .mismatch
  | j => .error j.unwanted

/-- A whole number as a value to be rounded. -/
def wholeBinary (n : Int) : Binary := .finite (n < 0) n.natAbs 0

/-- A number of 64 bits. -/
def asDouble : Json → Except Fault Float
  | .number (.integer n) => .ok (wholeBinary n).toFloat
  | .number (.double x) => .ok x
  | .number (.single x) => .ok (Binary.ofFloat32 x).toFloat
  | j => .error j.unwanted

/-- A number of 32 bits. -/
def asSingle : Json → Except Fault Float32
  | .number (.integer n) => .ok (wholeBinary n).toFloat32
  | .number (.double x) => .ok (Binary.ofFloat x).toFloat32
  | .number (.single x) => .ok x
  | j => .error j.unwanted

/-- A value or null. -/
def asOption {α : Type} (read : Json → Except Fault α) : Json → Except Fault (Option α)
  | .null => .ok none
  | j => (read j).map some

/-- The answer `a`, unless there is a fault. -/
def unlessFault {α : Type} (fault : Option Fault) (a : α) : Except Fault α :=
  match fault with
  | none => .ok a
  | some fault => .error fault

/-- An array, its items read in order. -/
def asList {α : Type} (read : Json → Except Fault α) : Json → Except Fault (List α)
  | .array items cut => do unlessFault cut (← items.mapM read)
  | .tooDeep (.array ..) => .error .malformed
  | j => .error j.unwanted

/-- An object that lists its members under names of their own. -/
def asTable {α : Type} (read : Json → Except Fault α) : Json → Except Fault (List (String × α))
  | .object members cut => do
    unlessFault cut (← members.mapM fun m => do return (m.1, ← read m.2))
  | .tooDeep (.object ..) => .error .malformed
  | j => .error j.unwanted

end Json

/-! ## Parts -/

/-- A part of a record, or a fault and how many members stand before it. -/
def Part (α : Type) : Type := Except (Nat × Fault) α

namespace Part

/-- Both parts, or the fault that stands first. -/
def apply {α β : Type} : Part (α → β) → Part α → Part β
  | .ok f, .ok a => .ok (f a)
  | .error a, .ok _ => .error a
  | .ok _, .error b => .error b
  | .error a, .error b => .error (if b.1 < a.1 then b else a)

instance : Applicative Part where
  pure := Except.ok
  seq f a := apply f (a ())

end Part

/-- The members of a record in order, and the fault met in place of the next one or of the end. -/
structure Members where
  entries : List (String × Json)
  cut : Option Fault

namespace Members

/-- The members under a name, each with the number of members before it. -/
def named (m : Members) (name : String) : List (Json × Nat) :=
  m.entries.zipIdx.filterMap fun (e, i) => if e.1 = name then some (e.2, i) else none

/-- A field that may be missing. -/
def field? {α : Type} (m : Members) (name : String) (read : Json → Except Fault α) :
    Part (Option α) :=
  match m.named name with
  | [] => .ok none
  | (value, i) :: again =>
    match read value, again with
    | .error fault, _ => .error (i, fault)
    | .ok a, [] => .ok (some a)
    | .ok _, (_, j) :: _ => .error (j, .mismatch)

/-- A field with a default. -/
def field {α : Type} (m : Members) (name : String) (default : α)
    (read : Json → Except Fault α) : Part α :=
  (fun a => a.getD default) <$> m.field? name read

/-- A field that must be there. That it is missing is known at the end. -/
def required {α : Type} (m : Members) (name : String) (read : Json → Except Fault α) : Part α :=
  match m.field? name read with
  | .ok (some a) => .ok a
  | .ok none => .error (m.entries.length + 1, .mismatch)
  | .error e => .error e

/-- The first fault of a check of all members but the named ones, the end of the record included. -/
def others (m : Members) (names : List String) (check : Json → Option Fault) : Part Unit :=
  let faults := m.entries.zipIdx.filterMap fun (e, i) =>
    if names.contains e.1 then none else (check e.2).map fun fault => (i, fault)
  match faults, m.cut with
  | e :: _, _ => .error e
  | [], some fault => .error (m.entries.length, fault)
  | [], none => .ok ()

/-- All parts of a record with the given fields. -/
def read {α : Type} (m : Members) (names : List String) (parts : Members → Part α) :
    Except Fault α :=
  match parts m <* m.others names Json.skipped with
  | .ok a => .ok a
  | .error (_, fault) => .error fault

end Members

namespace Json

/-- The members of a record with the given fields. -/
def members (names : List String) : Json → Except Fault Members
  | .object entries cut => .ok ⟨entries, cut⟩
  | .array items cut =>
    .ok ⟨names.zip items, if names.length < items.length then some .malformed else cut⟩
  | .tooDeep _ => .error .malformed
  | j => .error j.unwanted

/-- Reads a record with the given fields. -/
def readRecord {α : Type} (names : List String) (parts : Members → Part α) (j : Json) :
    Except Fault α := do
  (← j.members names).read names parts

/-! ## Records of several kinds -/

/-- One of several kinds of a record. -/
structure Kind (α : Type) where
  name : String
  fields : List String
  parts : Members → Part α

/-- The kind a value names. -/
def asKind {α : Type} (kinds : List (Kind α)) (j : Json) : Except Fault (Kind α) := do
  let name ← j.asText
  match kinds.find? fun k => k.name = name with
  | some k => .ok k
  | none => .error .mismatch

/-- Reads a record whose kind is told by the member `tag`; in an array it is the first item. -/
def readTagged {α : Type} (tag : String) (kinds : List (Kind α)) : Json → Except Fault α
  | .object entries cut => do
    let m : Members := ⟨entries, cut⟩
    match m.required tag (asKind kinds) <* m.others [tag] settled with
    | .error (_, fault) => .error fault
    | .ok kind =>
      (⟨entries.filter fun e => e.1 ≠ tag, none⟩ : Members).read kind.fields kind.parts
  | .array [] cut => .error (cut.getD .mismatch)
  | .array (first :: items) cut => do
    let kind ← asKind kinds first
    unlessFault ((settledItems items).or cut) ()
    let extra := if kind.fields.length < items.length then some Fault.mismatch else none
    (⟨kind.fields.zip items, extra⟩ : Members).read kind.fields kind.parts
  | .tooDeep _ => .error .malformed
  | j => .error j.unwanted

end Json

end Blockwork
