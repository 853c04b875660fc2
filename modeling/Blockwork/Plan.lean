import Blockwork.Chain.Structure
import Blockwork.Native

/-!
# Plans

The plan of a chain is what the chain does when it is run: every definition, native function and
procedure is looked up, and every body knows where it ends. A chain that has no plan fails before
any of it is run.
-/

namespace Blockwork

/-- An argument, or a block that does something, ready to be evaluated. -/
inductive Expr where
  | literal (value : Value)
  /-- A native function, for a block of the given definition. -/
  | native (definition : String) (function : Native) (arguments : List Expr)
  /-- A procedure, its body and the names of its parameters. -/
  | call (definition : String) (body : ChainId) (parameters : List String)
    (arguments : List Expr)

/-- What a block does when its chain is run. A body ends before `close`. -/
inductive Op where
  /-- Nothing. -/
  | marker
  | statement (e : Expr)
  | repeatTimes (times : Expr) (close : Nat)
  | repeatUntil (condition : Expr) (close : Nat)
  | forever (close : Nat)
  /-- The else is at `otherwise`, if there is one. -/
  | ifThen (condition : Expr) (otherwise : Option Nat) (close : Nat)
  | giveBack (e : Expr)

/-- What a chain does when it is run. -/
structure Plan where
  chain : ChainId
  ops : Array Op

namespace Plan

/-- What plans are made from. -/
structure Library where
  definitions : Registry
  natives : NativeTable

/-! ## Expressions -/

/-- A block of a definition, given its first arguments up to any number. -/
def resolveWith (l : Library) (definition : String)
    (arguments : Nat → Except RunError (List Expr)) : Except RunError Expr :=
  match l.definitions.find? definition with
  | none => .error (.unknownDefinition definition)
  | some d => do
    let arguments ← arguments d.arity
    match d.behavior with
    | .control _ =>
      .error (.malformedChain ("control block '" ++ definition ++ "' used as a value"))
    | .native name =>
      match l.natives.get? name with
      | none => .error (.unknownNative name)
      | some function => .ok (.native definition function arguments)
    | .procedure none =>
      .error (.malformedChain ("procedure '" ++ definition ++ "' has no recorded body"))
    | .procedure (some body) => .ok (.call definition body d.parameterNames arguments)

mutual

/-- An argument as an expression. -/
def resolveArgument (l : Library) : Argument → Except RunError Expr
  | .literal value => .ok (.literal value)
  | .choice name => .ok (.literal (.text name))
  | .block definition arguments =>
    resolveWith l definition fun count => resolveFirst l count 0 arguments
  | .definition d => .error (.malformedChain ("definition '" ++ d.id ++ "' used as a value"))

/-- The first of some arguments as expressions. The first argument given has the given index. -/
def resolveFirst (l : Library) (count index : Nat) : List Argument → Except RunError (List Expr)
  | [] => if count = 0 then .ok [] else .error (.missingArgument index)
  | a :: rest =>
    if count = 0 then .ok []
    else do
      let e ← resolveArgument l a
      return e :: (← resolveFirst l (count - 1) (index + 1) rest)

end

/-- A block as an expression. -/
def resolveBlock (l : Library) (b : Block) : Except RunError Expr :=
  resolveWith l b.definition fun count => resolveFirst l count 0 b.arguments

/-- An argument of a block as an expression. -/
def resolveAt (l : Library) (b : Block) (index : Nat) : Except RunError Expr :=
  match b.arguments[index]? with
  | some a => resolveArgument l a
  | none => .error (.missingArgument index)

/-! ## Blocks and chains -/

/-- What a block does, given its shape in its chain. -/
def resolveOp (l : Library) (b : Block) (shape : Shape) : Except RunError Op :=
  match l.definitions.find? b.definition with
  | none => .error (.unknownDefinition b.definition)
  | some d =>
    match d.behavior.flow?, shape with
    | none, _ => (resolveBlock l b).map .statement
    | some .onStart, _ | some .defineProcedure, _ | some .otherwise, _ | some .endBody, _ =>
      .ok .marker
    | some .giveBack, _ => (resolveAt l b 0).map .giveBack
    | some .repeatTimes, .opener _ _ close => (resolveAt l b 0).map (.repeatTimes · close)
    | some .repeatUntil, .opener _ _ close => (resolveAt l b 0).map (.repeatUntil · close)
    | some .forever, .opener _ _ close => .ok (.forever close)
    | some .ifThen, .opener _ otherwise close => (resolveAt l b 0).map (.ifThen · otherwise close)
    | some flow, _ =>
      .error (.malformedChain ("`" ++ flow.name ++ "` block has no matching end"))

/-- What the blocks from an index on do. -/
def resolveOps (l : Library) (chain : ChainId) (index : Nat) :
    List (Block × Shape) → Except Failure (List Op)
  | [] => .ok []
  | (b, shape) :: rest =>
    match resolveOp l b shape with
    | .error e => .error ⟨e, some ⟨chain, index⟩⟩
    | .ok op => do return op :: (← resolveOps l chain (index + 1) rest)

/-- The plan of a chain. -/
def ofChain (l : Library) (c : Chain) : Except Failure Plan :=
  match c.shapes l.definitions with
  | .error e => .error ⟨.malformedChain e.message, some ⟨c.id, e.index⟩⟩
  | .ok shapes => do
    let ops ← resolveOps l c.id 0 (c.blocks.zip shapes)
    return ⟨c.id, ops.toArray⟩

end Plan

end Blockwork
