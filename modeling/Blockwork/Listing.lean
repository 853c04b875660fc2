import Blockwork.Chain
import Blockwork.Registry

/-!
# Listings

A listing shows a chain as text: each block as its definition looks, with its arguments in their
slots, indented by the bodies around it. Every block has a span, the bytes where it stands.
-/

namespace Blockwork

/-- The width of a step of indentation. -/
def Listing.step : String := "    "

/-! ## Blocks -/

/-- The parts of a block whose arguments are shown already, slot by slot. -/
def Slot.fill : List Slot → List String → List String
  | [], _ => []
  | .text label :: slots, shown => label :: fill slots shown
  | .image asset :: slots, shown => ("<" ++ asset ++ ">") :: fill slots shown
  | _ :: slots, a :: shown => a :: fill slots shown
  | _ :: slots, [] => "()" :: fill slots []

namespace Definition

/-- What a slot adds to the heading of a procedure. -/
def heading (id : String) : Slot → String
  | .text label => if label = id then "" else " " ++ label
  | .argument name | .dropdown name _ => " (" ++ name ++ ")"
  | _ => ""

/-- A definition as it is shown where it is defined. -/
def signature (d : Definition) : String := d.id ++ String.join (d.slots.map (heading d.id))

end Definition

namespace Registry

/-- A block whose arguments are shown already. -/
def renderWith (r : Registry) (definition : String) (shown : List String) : String :=
  match r.find? definition with
  | some d => " ".intercalate (Slot.fill d.slots shown)
  | none => " ".intercalate (("<" ++ definition ++ ">") :: shown)

mutual

/-- An argument as text. -/
def renderArgument (r : Registry) : Argument → String
  | .literal (.text s) => "(\"" ++ s ++ "\")"
  | .literal value => "(" ++ value.display ++ ")"
  | .choice name => "[" ++ name ++ "]"
  | .block definition arguments =>
    "(" ++ renderWith r definition (renderArguments r arguments) ++ ")"
  | .definition d => d.signature

/-- Arguments as texts. -/
def renderArguments (r : Registry) : List Argument → List String
  | [] => []
  | a :: rest => renderArgument r a :: renderArguments r rest

end

/-- A block as text. -/
def render (r : Registry) (b : Block) : String :=
  renderWith r b.definition (renderArguments r b.arguments)

end Registry

/-! ## Chains -/

/-- A block in a listing. -/
structure ListedBlock where
  depth : Nat
  text : String
deriving DecidableEq, Repr

/-- What stands in front of a block. -/
def ListedBlock.indentation (b : ListedBlock) : String :=
  String.join (List.replicate b.depth Listing.step)

/-- A chain as text. -/
structure Listing where
  blocks : List ListedBlock
deriving DecidableEq, Repr

namespace Listing

/-- The depth of a block that plays the given part, when `depth` bodies are open. -/
def depthAt (depth : Nat) : Option Flow → Nat
  | some .otherwise | some .endBody => depth - 1
  | _ => depth

/-- The depth after a block that plays the given part and stands at `depth`. -/
def depthAfter (depth : Nat) : Option Flow → Nat
  | some .otherwise => depth + 1
  | some flow => if flow.opensBody then depth + 1 else depth
  | none => depth

/-- Blocks in a listing, when `depth` bodies are open. -/
def ofBlocks (r : Registry) (depth : Nat) : List Block → List ListedBlock
  | [] => []
  | b :: rest =>
    let flow := (r.find? b.definition).bind fun d => d.behavior.flow?
    let here := depthAt depth flow
    ⟨here, r.render b⟩ :: ofBlocks r (depthAfter here flow) rest

/-- The listing of a chain. -/
def ofChain (r : Registry) (c : Chain) : Listing := ⟨ofBlocks r 0 c.blocks⟩

/-- The text of a listing. -/
def text (l : Listing) : String :=
  String.join (l.blocks.map fun b => b.indentation ++ b.text ++ "\n")

/-- The bytes of blocks, the first of which begins its line at `offset`. -/
def spansFrom (offset : Nat) : List ListedBlock → List (Nat × Nat)
  | [] => []
  | b :: rest =>
    let start := offset + b.indentation.utf8ByteSize
    let stop := start + b.text.utf8ByteSize
    (start, stop) :: spansFrom (stop + 1) rest

/-- The bytes of a block. -/
def span? (l : Listing) (index : Nat) : Option (Nat × Nat) := (spansFrom 0 l.blocks)[index]?

end Listing

end Blockwork
