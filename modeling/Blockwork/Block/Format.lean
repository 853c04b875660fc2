import Blockwork.Block
import Blockwork.Definition.Format
import Blockwork.Value.Format

/-!
# Blocks in JSON

An argument is an object with one member, whose name is the kind of the argument. Blocks and
arguments contain each other, so they are written and read together.
-/

namespace Blockwork

/-! ## Writing -/

mutual

/-- An argument in JSON. -/
def Argument.toJson : Argument → Json
  | .literal value => .record [("literal", value.toJson)]
  | .choice name => .record [("choice", .text name)]
  | .block id arguments =>
    .record [("block", .record [("definition", .text id),
      ("arguments", .list (Argument.listToJson arguments))])]
  | .definition d => .record [("definition", d.toJson)]

/-- The arguments of a block in JSON. -/
def Argument.listToJson : List Argument → List Json
  | [] => []
  | a :: rest => a.toJson :: listToJson rest

end

/-- A block in JSON. -/
def Block.toJson (b : Block) : Json :=
  .record
    [("definition", .text b.definition), ("arguments", .list (Argument.listToJson b.arguments))]

/-! ## Reading -/

/-- Reads the content of an argument of the named kind, which does not hold a block. -/
def Argument.ofMember (kind : String) (value : Json) : Except Fault Argument :=
  if kind = "literal" then (Value.ofJson value).map .literal
  else if kind = "choice" then value.asText.map .choice
  else if kind = "definition" then (Definition.ofJson value).map .definition
  else .error .mismatch

namespace Block

/-- The fields of a block that have been read. -/
structure Draft where
  definition : Option String
  arguments : Option (List Argument)

namespace Draft

/-- The block, when the record ends. -/
def finish (d : Draft) (cut : Option Fault) : Except Fault Block :=
  match cut, d.definition with
  | some fault, _ => .error fault
  | none, none => .error .mismatch
  | none, some definition => .ok ⟨definition, d.arguments.getD []⟩

end Draft

end Block

mutual

/-- Reads a block. -/
def Block.ofJson : Json → Except Fault Block
  | .object members cut => do (← Block.readMembers ⟨none, none⟩ members).finish cut
  | .array [] cut => .error (cut.getD .mismatch)
  | .array [definition] cut => do
    let definition ← definition.asText
    Block.Draft.finish ⟨some definition, none⟩ cut
  | .array (definition :: arguments :: rest) cut => do
    let definition ← definition.asText
    let arguments ← Argument.listOfJson arguments
    Block.Draft.finish ⟨some definition, some arguments⟩
      (if rest.isEmpty then cut else some .malformed)
  | .tooDeep _ => .error .malformed
  | j => .error j.unwanted

/-- Reads the members of a block, after those read already. -/
def Block.readMembers (d : Block.Draft) : List (String × Json) → Except Fault Block.Draft
  | [] => .ok d
  | (name, value) :: rest =>
    if name = "definition" then do
      if d.definition.isSome then .error .mismatch
      let definition ← value.asText
      Block.readMembers { d with definition := some definition } rest
    else if name = "arguments" then do
      if d.arguments.isSome then .error .mismatch
      let arguments ← Argument.listOfJson value
      Block.readMembers { d with arguments := some arguments } rest
    else do
      Json.unlessFault value.skipped ()
      Block.readMembers d rest

/-- Reads the arguments of a block. -/
def Argument.listOfJson : Json → Except Fault (List Argument)
  | .array items cut => do
    let arguments ← Argument.readItems items
    Json.unlessFault cut arguments
  | .tooDeep (.array ..) => .error .malformed
  | j => .error j.unwanted

/-- Reads arguments in order. -/
def Argument.readItems : List Json → Except Fault (List Argument)
  | [] => .ok []
  | item :: rest => do
    let a ← Argument.ofJson item
    return a :: (← Argument.readItems rest)

/-- Reads an argument. -/
def Argument.ofJson : Json → Except Fault Argument
  | .object [] cut => .error (cut.getD .malformed)
  | .object ((kind, value) :: rest) cut => do
    let a ←
      if kind = "block" then (Block.ofJson value).map Block.nested
      else Argument.ofMember kind value
    Json.unlessFault (if rest.isEmpty then cut else some .malformed) a
  | .text _ => .error .mismatch
  | .broken fault => .error fault
  | _ => .error .malformed

end

end Blockwork
