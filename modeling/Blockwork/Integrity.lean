import Blockwork.Chain.Structure
import Blockwork.Diagnostic
import Blockwork.Listing
import Blockwork.Program

/-!
# The integrity of a program

A program is sound when every block has the arguments that its definition asks for, blocks that
direct a run stand only where they can, and bodies are closed. Everything that is wrong is
reported, in the order of the blocks; the structure of a chain comes last.
-/

namespace Blockwork

/-- What is wrong with a block. -/
inductive ViolationKind where
  | unknownDefinition (definition : String)
  | arityMismatch (definition : String) (expected found : Nat)
  /-- The argument at an index does not fit its slot. -/
  | slotMismatch (definition : String) (index : Nat) (slot : Slot) (found : ArgumentKind)
  | choiceNotOffered (definition : String) (index : Nat) (choice : String)
  | controlInArgument (definition : String)
  | hatNotFirst (definition : String)
  | bodies (error : StructureError)
deriving DecidableEq, Repr

/-- What may be put into a slot. -/
def Slot.demand : Slot → String
  | .argument _ => "literal or block"
  | .dropdown .. => "choice"
  | .definitionEditor => "definition"
  | .text _ | .image _ => "label"

/-- What a violation says. -/
def ViolationKind.message : ViolationKind → String
  | .unknownDefinition d => "unknown definition '" ++ d ++ "'"
  | .arityMismatch d expected found =>
    "'" ++ d ++ "' takes " ++ toString expected ++ " argument(s), found " ++ toString found
  | .slotMismatch d index slot found =>
    "argument " ++ toString index ++ " of '" ++ d ++ "' must be a " ++ slot.demand ++
      ", found a " ++ found.name
  | .choiceNotOffered d index choice =>
    "'" ++ choice ++ "' is not one of the choices of argument " ++ toString index ++ " of '" ++ d ++
      "'"
  | .controlInArgument d => "control block '" ++ d ++ "' cannot be used as an argument"
  | .hatNotFirst d => "'" ++ d ++ "' must be the first block of its chain"
  | .bodies e => e.message

/-- Something wrong, and where. -/
structure Violation where
  chain : ChainId
  path : BlockPath
  kind : ViolationKind
deriving DecidableEq, Repr

/-- The text that shows a violation. -/
def Violation.message (v : Violation) : String :=
  v.chain.display ++ ", " ++ v.path.display ++ ": " ++ v.kind.message

/-! ## Blocks -/

/-- Something wrong in a chain. -/
abbrev Finding : Type := BlockPath × ViolationKind

namespace Integrity

/-- What is wrong with an argument in a slot that does not hold a block where one may be. -/
def checkFit (path : BlockPath) (definition : String) (index : Nat) (slot : Slot)
    (a : Argument) : List Finding :=
  let mismatch := [(path, ViolationKind.slotMismatch definition index slot a.kind)]
  match slot, a with
  | .argument _, .literal _ => []
  | .argument _, _ => mismatch
  | .dropdown _ choices, .choice choice =>
    if choices.contains choice then [] else [(path, .choiceNotOffered definition index choice)]
  | .dropdown .., _ => mismatch
  | .definitionEditor, .definition _ => []
  | .definitionEditor, _ => mismatch
  | .text _, _ => []
  | .image _, _ => []

/-- What is wrong with a block that has `found` arguments, given what is wrong with them in the
value slots of its definition. -/
def checkDefined (r : Registry) (path : BlockPath) (definition : String) (found : Nat)
    (inSlots : List Slot → List Finding) : List Finding :=
  match r.find? definition with
  | none => [(path, .unknownDefinition definition)]
  | some d =>
    (if d.arity = found then [] else [(path, .arityMismatch definition d.arity found)]) ++
      inSlots d.valueSlots

mutual

/-- What is wrong with an argument in its slot. -/
def checkArgument (r : Registry) (path : BlockPath) (definition : String) (index : Nat)
    (slot : Slot) : Argument → List Finding
  | .block inner arguments =>
    match slot with
    | .argument _ =>
      let path := path.child index
      (if (r.flow? inner).isSome then [(path, .controlInArgument inner)] else []) ++
        checkDefined r path inner arguments.length fun slots =>
          checkArguments r path inner 0 slots arguments
    | slot => checkFit path definition index slot (.block inner arguments)
  | a => checkFit path definition index slot a

/-- What is wrong with arguments in their slots, from an index on. -/
def checkArguments (r : Registry) (path : BlockPath) (definition : String) (index : Nat)
    (slots : List Slot) : List Argument → List Finding
  | [] => []
  | a :: rest =>
    match slots with
    | [] => []
    | slot :: slots =>
      checkArgument r path definition index slot a ++
        checkArguments r path definition (index + 1) slots rest

end

/-- What is wrong with a block. -/
def checkBlock (r : Registry) (path : BlockPath) (b : Block) : List Finding :=
  checkDefined r path b.definition b.arguments.length fun slots =>
    checkArguments r path b.definition 0 slots b.arguments

/-- What is wrong with the block at an index of a chain. -/
def checkTopLevel (r : Registry) (index : Nat) (b : Block) : List Finding :=
  let path := BlockPath.topLevel index
  (if 0 < index && (r.flow? b.definition).any Flow.isHat then [(path, .hatNotFirst b.definition)]
    else []) ++ checkBlock r path b

/-- What is wrong with the structure of a chain. -/
def checkShapes (r : Registry) (c : Chain) : List Finding :=
  match c.shapes r with
  | .ok _ => []
  | .error e => [(.topLevel e.index, .bodies e)]

end Integrity

/-! ## Chains and programs -/

/-- What is wrong with a chain. -/
def Chain.violations (c : Chain) (r : Registry) : List Violation :=
  ((c.blocks.zipIdx.flatMap fun (b, index) => Integrity.checkTopLevel r index b) ++
    Integrity.checkShapes r c).map fun (path, kind) => ⟨c.id, path, kind⟩

/-- What is wrong with a program. -/
def Program.violations (p : Program) : List Violation :=
  p.chains.flatMap fun c => c.violations p.definitions

/-! ## Diagnostics -/

/-- The message about a violation, which marks a block of a listing. -/
def Violation.diagnostic (v : Violation) (l : Listing) : Diagnostic where
  message := v.kind.message
  label := (l.span? v.path.index).map fun (start, stop) => ⟨start, stop, ""⟩
  notes := ["at " ++ v.path.display]

end Blockwork
