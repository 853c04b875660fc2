import Blockwork.Chain
import Blockwork.Registry

/-!
# The bodies of a chain

Some control blocks open a body, which an end closes; the body of an if may be split by an else.
Bodies are nested like brackets. Only the parts that the blocks play matter here, and a block whose
definition is not known plays none.
-/

namespace Blockwork

/-- What a block is in the structure of its chain. -/
inductive Shape where
  | plain
  /-- Opens a body that is closed at `close`, and split at `otherwise` if it has an else. -/
  | opener (flow : Flow) (otherwise : Option Nat) (close : Nat)
  | otherwise (opener close : Nat)
  | close (opener : Nat)
deriving DecidableEq, Repr

/-- Why the blocks of a chain do not form bodies. -/
inductive StructureError where
  | unmatchedEnd (index : Nat)
  | strayElse (index : Nat)
  | duplicateElse (opener index : Nat)
  | unterminated (opener : Nat)
deriving DecidableEq, Repr

namespace StructureError

/-- The block at fault. -/
def index : StructureError → Nat
  | .unmatchedEnd i | .strayElse i | .duplicateElse _ i => i
  | .unterminated opener => opener

/-- What the error says. -/
def message : StructureError → String
  | .unmatchedEnd i => "`end` at block " ++ toString i ++ " closes no body"
  | .strayElse i => "`else` at block " ++ toString i ++ " is not directly inside an `if` body"
  | .duplicateElse opener i =>
    "`if` opened at block " ++ toString opener ++ " already has an `else` before block " ++
      toString i
  | .unterminated opener =>
    "body opened at block " ++ toString opener ++ " is never closed by `end`"

end StructureError

/-- A body that is not closed yet. -/
structure OpenBody where
  opener : Nat
  flow : Flow
  otherwise : Option Nat
deriving DecidableEq, Repr

/-- A body. -/
structure Body extends OpenBody where
  close : Nat
deriving DecidableEq, Repr

namespace Body

/-- What one block does to the open bodies, innermost first: those left, and the body it
closes. -/
def meet (index : Nat) (flow : Option Flow) (stack : List OpenBody) :
    Except StructureError (List OpenBody × Option Body) :=
  match flow with
  | some .otherwise =>
    match stack with
    | ⟨opener, .ifThen, none⟩ :: outer => .ok (⟨opener, .ifThen, some index⟩ :: outer, none)
    | ⟨opener, .ifThen, some _⟩ :: _ => .error (.duplicateElse opener index)
    | _ => .error (.strayElse index)
  | some .endBody =>
    match stack with
    | b :: outer => .ok (outer, some ⟨b, index⟩)
    | [] => .error (.unmatchedEnd index)
  | some flow => .ok (if flow.opensBody then ⟨index, flow, none⟩ :: stack else stack, none)
  | none => .ok (stack, none)

/-- The bodies of the rest of a chain, in the order in which they are closed. -/
def scan (index : Nat) (stack : List OpenBody) :
    List (Option Flow) → Except StructureError (List Body)
  | [] =>
    match stack.getLast? with
    | some b => .error (.unterminated b.opener)
    | none => .ok []
  | flow :: rest => do
    let (stack, closed) ← meet index flow stack
    return closed.toList ++ (← scan (index + 1) stack rest)

/-- The shape that a body gives to a block. -/
def shape? (b : Body) (index : Nat) : Option Shape :=
  if index = b.opener then some (.opener b.flow b.otherwise b.close)
  else if b.otherwise = some index then some (.otherwise b.opener b.close)
  else if index = b.close then some (.close b.opener)
  else none

end Body

/-- The shapes of blocks that play the given parts. -/
def shapesOfFlows (flows : List (Option Flow)) : Except StructureError (List Shape) := do
  let bodies ← Body.scan 0 [] flows
  return (List.range flows.length).map fun i => (bodies.findSome? (·.shape? i)).getD .plain

/-- The part that a block of the given definition plays. -/
def Registry.flow? (r : Registry) (definition : String) : Option Flow :=
  (r.find? definition).bind fun d => d.behavior.flow?

/-- The shapes of the blocks of a chain. -/
def Chain.shapes (c : Chain) (r : Registry) : Except StructureError (List Shape) :=
  shapesOfFlows (c.blocks.map fun b => r.flow? b.definition)

end Blockwork
