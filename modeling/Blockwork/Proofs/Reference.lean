import Blockwork.Machine
import Blockwork.Proofs.Trees

/-!
# Programs by plain recursion

What a program does can be said without frames, jumps or floors, by recursion over the trees of its
chains: a loop does its body again, a call does the body of its procedure, and a return is passed on
outwards until a call takes it.

* The arguments of a block are evaluated from left to right before the block is done.
* The count of a repeat is evaluated once; the condition of a repeat until before every pass.
* One branch of an if is done.
* A call gives its arguments a new scope and does the body of its procedure. A return ends the
  innermost call, or the run if there is none. A call for a value whose body comes to its end
  without a return fails at the block of the call.

## Termination

A program may run for ever, so each function is given fuel. Only the depth of the recursion and the
passes of the loops that test or never end use it up.
-/

namespace Blockwork

/-- What a run can change. -/
structure World where
  env : Environment
  output : Output

/-- Why a run is broken off. -/
inductive Halt where
  | failed (failure : Failure)
  | panicked (message : String)
  /-- There is no fuel left. -/
  | exhausted

/-- How a row of blocks ends. -/
inductive Exit where
  | finished
  | returned (value : Value)

/-- Something that is done in a world. -/
abbrev Deed (α : Type) : Type := EStateM Halt World α

namespace Reference

/-- What a run is given. -/
structure Setting where
  program : Program
  natives : NativeTable
  /-- How many procedure calls may be nested. -/
  limit : Nat

/-- A chain: what its blocks do, and how they are nested. -/
structure Script where
  plan : Plan
  trees : List Tree

/-- The script of a chain, for a block that calls it. -/
def Setting.script (σ : Setting) (caller : Option BlockLocation) (id : ChainId) :
    Except Failure Script :=
  match σ.program.chain? id with
  | none => .error ⟨.unknownChain id, caller⟩
  | some c => do
    let plan ← Plan.ofChain ⟨σ.program.definitions, σ.natives⟩ c
    return ⟨plan, c.trees σ.program.definitions⟩

/-- Where a run is: in a block of a chain, inside so many calls. -/
structure Place where
  plan : Plan
  block : Nat
  depth : Nat

/-- The place as an observer sees it. -/
def Place.location (p : Place) : BlockLocation := ⟨p.plan.chain, p.block⟩

/-! ## Deeds -/

/-- Fails at a place. -/
def fail {α : Type} (p : Place) (e : RunError) : Deed α := throw (.failed ⟨e, some p.location⟩)

/-- The answer of a native function. Waiting takes time, but changes nothing. -/
def callNative (p : Place) (function : Native) (arguments : List Value) : Deed (Option Value) :=
  fun w =>
    let (reaction, s) := function ⟨w.env, w.output, false⟩ arguments
    let w : World := ⟨s.env, s.output⟩
    match reaction with
    | .returned value | .waiting _ value => .ok value w
    | .failed e => .error (.failed ⟨e, some p.location⟩) w
    | .panicked message => .error (.panicked message) w

/-- A value as a number. -/
def number (p : Place) (v : Value) : Deed Float :=
  match v.expectNumber with
  | .ok x => pure x
  | .error e => fail p e

/-- Does a row one by one, up to a return. -/
def doAll (f : Tree → Deed Exit) : List Tree → Deed Exit
  | [] => pure .finished
  | t :: rest => do
    match ← f t with
    | .finished => doAll f rest
    | .returned value => return .returned value

/-- Does a body so many times, or up to a return. -/
def doTimes (body : Deed Exit) : Nat → Deed Exit
  | 0 => pure .finished
  | count + 1 => do
    match ← body with
    | .finished => doTimes body count
    | .returned value => return .returned value

/-- Does a body until a test holds, or up to a return. The test comes before every pass. -/
def doUntil (test : Deed Value) (body : Deed Exit) : Nat → Deed Exit
  | 0 => throw .exhausted
  | fuel + 1 => do
    if (← test).isTruthy then return .finished
    else
      match ← body with
      | .finished => doUntil test body fuel
      | .returned value => return .returned value

/-- Does a body for ever, or up to a return. -/
def doForever (body : Deed Exit) : Nat → Deed Exit
  | 0 => throw .exhausted
  | fuel + 1 => do
    match ← body with
    | .finished => doForever body fuel
    | .returned value => return .returned value

/-! ## Programs -/

mutual

/-- The value of an expression. -/
def evaluate (σ : Setting) : Nat → Place → Expr → Deed Value
  | 0, _, _ => throw .exhausted
  | _ + 1, _, .literal value => pure value
  | fuel + 1, p, .native definition function arguments => do
    let values ← arguments.mapM (evaluate σ fuel p)
    match ← callNative p function values with
    | some value => return value
    | none => fail p (.noValue definition)
  | fuel + 1, p, .call definition body parameters arguments => do
    let values ← arguments.mapM (evaluate σ fuel p)
    match ← call σ fuel p body parameters values with
    | .returned value => return value
    | .finished => fail p (.missingReturn definition)

/-- Does the body of a procedure, in a scope of its own. -/
def call (σ : Setting) : Nat → Place → ChainId → List String → List Value → Deed Exit
  | 0, _, _, _, _ => throw .exhausted
  | fuel + 1, p, body, parameters, arguments =>
    if σ.limit ≤ p.depth then fail p (.stackOverflow σ.limit)
    else
      match σ.script (some p.location) body with
      | .error failure => throw (.failed failure)
      | .ok script => do
        modify fun w => { w with env := w.env.push (.ofParameters parameters arguments) }
        let exit ← doAll (perform σ fuel script.plan (p.depth + 1)) script.trees
        modify fun w => { w with env := w.env.pop }
        return exit

/-- Does what is a block of its own. A value that it has is of no use. -/
def execute (σ : Setting) : Nat → Place → Expr → Deed Unit
  | 0, _, _ => throw .exhausted
  | _ + 1, _, .literal _ => return
  | fuel + 1, p, .native _ function arguments => do
    let values ← arguments.mapM (evaluate σ fuel p)
    let _ ← callNative p function values
    return
  | fuel + 1, p, .call _ body parameters arguments => do
    let values ← arguments.mapM (evaluate σ fuel p)
    let _ ← call σ fuel p body parameters values
    return

/-- Does a block of a chain with its bodies, inside so many calls. -/
def perform (σ : Setting) : Nat → Plan → Nat → Tree → Deed Exit
  | 0, _, _, _ => throw .exhausted
  | fuel + 1, plan, depth, t =>
    let p : Place := ⟨plan, t.index, depth⟩
    let row := doAll (perform σ fuel plan depth)
    match plan.ops[t.index]?, t with
    | some (.statement e), .plain _ => do
      execute σ fuel p e
      return .finished
    | some (.giveBack e), .plain _ => return .returned (← evaluate σ fuel p e)
    | some (.repeatTimes times _), .body _ inner _ => do
      let count := Machine.repeatCount (← number p (← evaluate σ fuel p times))
      doTimes (row inner) count
    | some (.repeatUntil condition _), .body _ inner _ =>
      doUntil (evaluate σ fuel p condition) (row inner) fuel
    | some (.forever _), .body _ inner _ => doForever (row inner) fuel
    | some (.ifThen condition _ _), .body _ inner _ => do
      if (← evaluate σ fuel p condition).isTruthy then row inner else return .finished
    | some (.ifThen condition _ _), .split _ first _ second _ => do
      if (← evaluate σ fuel p condition).isTruthy then row first else row second
    | _, _ => return .finished

end

/-- How a run has ended: its outcome, what it has printed and its global variables. -/
structure Report where
  outcome : Outcome
  output : Output
  globals : Table Value

/-- Runs a chain with some fuel. There is no report if the run is not over then, or breaks off. -/
def run (σ : Setting) (output : Output) (chain : ChainId) (fuel : Nat) : Option Report :=
  match σ.script none chain with
  | .error failure => some ⟨.failed failure, output, σ.program.globals⟩
  | .ok script =>
    match
      doAll (perform σ fuel script.plan 0) script.trees ⟨.ofGlobals σ.program.globals, output⟩ with
    | .ok .finished w => some ⟨.completed none, w.output, w.env.globals⟩
    | .ok (.returned value) w => some ⟨.completed (some value), w.output, w.env.globals⟩
    | .error (.failed failure) w => some ⟨.failed failure, w.output, w.env.globals⟩
    | .error (.panicked _) _ | .error .exhausted _ => none

end Reference

/-- The report of a run that has ended. -/
def Machine.report? (m : Machine) : Option Reference.Report :=
  m.outcome?.map fun outcome => ⟨outcome, m.output, m.env.globals⟩

end Blockwork
