import Blockwork.Definition
import Blockwork.Value

/-!
# Blocks

A block names its definition and holds an argument for each value slot. An argument may be a block
itself, so blocks are trees; a row of argument slots leads from a block to one nested in it, and
together with the place of the outermost block in its chain it is a path.

## Edits

An edit of one argument is refused, and changes nothing, when the slot does not hold what the edit
is about.
-/

namespace Blockwork

/-- What a value slot of a block holds. -/
inductive Argument where
  | literal (value : Value)
  /-- One of the choices of a dropdown. -/
  | choice (name : String)
  /-- A nested block: its definition and its arguments. -/
  | block (definition : String) (arguments : List Argument)
  /-- The definition of a procedure. -/
  | definition (content : Definition)

/-- A block. -/
structure Block where
  definition : String
  arguments : List Argument

/-- The kinds of arguments. -/
inductive ArgumentKind where
  | literal
  | choice
  | block
  | definition
deriving DecidableEq, Repr

/-- The name of a kind. -/
def ArgumentKind.name : ArgumentKind → String
  | .literal => "literal"
  | .choice => "choice"
  | .block => "block"
  | .definition => "definition"

/-- The kind of an argument. -/
def Argument.kind : Argument → ArgumentKind
  | .literal _ => .literal
  | .choice _ => .choice
  | .block .. => .block
  | .definition _ => .definition

/-! ## Paths -/

/-- The place of a block in a chain. -/
structure BlockPath where
  /-- The place of the outermost block. -/
  index : Nat
  /-- The argument slots that lead from it. -/
  slots : List Nat
deriving DecidableEq, Repr

namespace BlockPath

/-- The path of a block that is not nested. -/
def topLevel (index : Nat) : BlockPath := ⟨index, []⟩

/-- The path of the block in an argument slot. -/
def child (p : BlockPath) (slot : Nat) : BlockPath := ⟨p.index, p.slots ++ [slot]⟩

/-- The text that shows a path. -/
def display (p : BlockPath) : String :=
  "block " ++ toString p.index ++
    String.join (p.slots.map fun slot => " > argument " ++ toString slot)

end BlockPath

namespace Block

/-- A block as an argument. -/
def nested (b : Block) : Argument := .block b.definition b.arguments

/-- The block with another argument in a slot. -/
def setArgument (b : Block) (slot : Nat) (a : Argument) : Block :=
  ⟨b.definition, b.arguments.set slot a⟩

/-- The block in an argument slot. -/
def child? (b : Block) (slot : Nat) : Option Block :=
  match b.arguments[slot]? with
  | some (.block definition arguments) => some ⟨definition, arguments⟩
  | _ => none

/-- The block that a row of argument slots leads to. -/
def descend : List Nat → Block → Option Block
  | [], b => some b
  | slot :: slots, b => (b.child? slot).bind (descend slots)

/-- Changes the block that a row of argument slots leads to. -/
def edit {α : Type} (change : Block → α × Block) : List Nat → Block → Option (α × Block)
  | [], b => some (change b)
  | slot :: slots, b => do
    let (a, inner) ← edit change slots (← b.child? slot)
    return (a, b.setArgument slot inner.nested)

/-! ## Edits of one argument -/

/-- Puts a block into an argument slot: the argument it replaces, and the block with it.
There is no answer if there is no such slot. -/
def attach (b : Block) (slot : Nat) (inner : Block) : Option (Argument × Block) :=
  (b.arguments[slot]?).map fun old => (old, b.setArgument slot inner.nested)

/-- Takes the block out of an argument slot and leaves an empty text. -/
def detach (b : Block) (slot : Nat) : Option (Block × Block) :=
  (b.child? slot).map fun inner => (inner, b.setArgument slot (.literal (.text "")))

/-- Changes a literal. -/
def setLiteral (b : Block) (slot : Nat) (value : Value) : Option Block :=
  match b.arguments[slot]? with
  | some (.literal _) => some (b.setArgument slot (.literal value))
  | _ => none

/-- Changes a choice. -/
def setChoice (b : Block) (slot : Nat) (name : String) : Option Block :=
  match b.arguments[slot]? with
  | some (.choice _) => some (b.setArgument slot (.choice name))
  | _ => none

/-- The nested blocks with their slots. -/
def children (b : Block) : List (Nat × Block) :=
  b.arguments.zipIdx.filterMap fun (a, slot) =>
    match a with
    | .block definition arguments => some (slot, ⟨definition, arguments⟩)
    | _ => none

end Block

end Blockwork
