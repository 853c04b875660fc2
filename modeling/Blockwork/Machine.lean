import Blockwork.Machine.Frame
import Blockwork.Native.Standard
import Blockwork.Program

/-!
# The machine

A machine runs a chain of a program step by step. All of its state is in view: the frames, the
variables, the output, the evaluations that are suspended, and whether a stop has been requested.

## Stops

A request to stop is looked at in one place only: before the innermost frame is gone on with. What
has been begun is finished first, so a stop never leaves a block half done.

## Snapshots

A snapshot is published when a block is begun, and whenever a frame is entered, or left for another
one. The machine keeps what it has published until an observer takes it.
-/

namespace Blockwork

/-- A machine. -/
structure Machine where
  /-- The plans of all chains, or why a chain has none. -/
  plans : List (ChainId × Except Failure Plan)
  /-- How many procedure calls may be nested. -/
  depthLimit : Nat
  env : Environment
  output : Output
  /-- Whether a stop has been requested. -/
  stop : Bool
  /-- The frames, innermost first. -/
  frames : List Frame
  /-- How many procedure calls are nested. -/
  depth : Nat
  /-- The suspended evaluations, innermost first. -/
  suspended : List Suspension
  activity : Activity
  /-- The snapshots that have not been taken, the newest first. -/
  snapshots : List Snapshot
  gauge : Gauge

/-- The plans of all chains of a program. -/
def Program.plans (p : Program) (natives : NativeTable) : List (ChainId × Except Failure Plan) :=
  p.chains.map fun c => (c.id, Plan.ofChain ⟨p.definitions, natives⟩ c)

namespace Machine

/-- A machine for a program. -/
def ofProgram (p : Program) (natives : NativeTable) (depthLimit : Nat) (output : Output) :
    Machine where
  plans := p.plans natives
  depthLimit := depthLimit
  env := .ofGlobals p.globals
  output := output
  stop := false
  frames := []
  depth := 0
  suspended := []
  activity := .idle
  snapshots := []
  gauge := ⟨0, 0⟩

/-! ## What can be seen -/

/-- The block that is being run. -/
def location (m : Machine) : Option BlockLocation :=
  m.frames.head?.map fun f => ⟨f.plan.chain, f.current⟩

/-- The number of frames below which the current evaluation, or the run, comes to its end. -/
def floor (m : Machine) : Nat := (m.suspended.head?.map Suspension.floor).getD 0

/-- The outcome of a run that has ended. -/
def outcome? (m : Machine) : Option Outcome :=
  match m.activity with
  | .ended outcome => some outcome
  | _ => none

/-- Publishes a snapshot. -/
def publish (m : Machine) : Machine :=
  match m.frames with
  | [] => m
  | f :: _ =>
    { m with snapshots := ⟨f.plan.chain, f.current, m.frames.length⟩ :: m.snapshots }

/-- Takes the published snapshots, the oldest first. -/
def takeSnapshots (m : Machine) : List Snapshot × Machine :=
  (m.snapshots.reverse, { m with snapshots := [] })

/-- Takes what has been printed. -/
def takePrinted (m : Machine) : String × Machine :=
  (m.output.text, { m with output := { m.output with text := "" } })

/-- Records what the run holds. -/
def record (m : Machine) : Machine := { m with gauge := ⟨m.frames.length, m.env.scopes.length⟩ }

/-! ## Frames -/

/-- Goes on with the innermost frame. -/
def schedule (m : Machine) : Machine := { m with activity := .scheduling }

/-- Enters a frame. -/
def push (m : Machine) (f : Frame) : Machine := { m with frames := f :: m.frames }.record.publish

/-- Leaves the innermost frame, and the scope of the procedure if it is the body of one. -/
def pop (m : Machine) : Machine :=
  match m.frames with
  | [] => m
  | f :: rest =>
    let m :=
      if f.kind = .procedure then
        { m with frames := rest, env := m.env.pop, depth := m.depth - 1 }
      else { m with frames := rest }
    m.record.publish

/-- Leaves the given frames, which are the innermost ones, up to the first boundary. -/
def leave (m : Machine) : List Frame → Machine
  | [] => m
  | f :: rest => if f.kind.isBoundary then m.pop else leave m.pop rest

/-- Changes the innermost frame. -/
def updateTop (m : Machine) (change : Frame → Frame) : Machine :=
  match m.frames with
  | [] => m
  | f :: rest => { m with frames := change f :: rest }

/-- Lets the innermost frame go on behind the end of a body. -/
def jumpPast (m : Machine) (close : Nat) : Machine :=
  m.updateTop fun f => { f with next := close + 1 }

/-- Enters a body in the chain of the innermost frame. -/
def pushBody (m : Machine) (first stop : Nat) (kind : FrameKind) : Machine :=
  match m.frames with
  | [] => m
  | f :: _ => m.push (.enter f.plan first stop kind)

/-! ## Ends of a run -/

/-- Ends the run. All frames and scopes are released. -/
def finish (m : Machine) (outcome : Outcome) : Machine :=
  { m with
    frames := []
    suspended := []
    depth := 0
    env := m.env.clear
    activity := .ended outcome }.record

/-- Ends the run with an error of the block that is being run. -/
def fail (m : Machine) (error : RunError) : Machine :=
  m.finish (.failed ⟨error, m.location⟩)

/-! ## Chains and procedures -/

/-- The plan of a chain. -/
def plan (m : Machine) (id : ChainId) : Except Failure Plan :=
  match m.plans.find? fun e => e.1 = id with
  | some (_, plan) => plan
  | none => .error ⟨.unknownChain id, m.location⟩

/-- Begins to run a chain. -/
def start (m : Machine) (chain : ChainId) : Machine :=
  match m.plan chain with
  | .error failure => m.finish (.failed failure)
  | .ok plan => (m.push (.enter plan 0 plan.ops.size .root)).schedule

/-- Enters a procedure. If its value is wanted, the evaluation around it is suspended. -/
def enterProcedure (m : Machine) (definition : String) (body : ChainId)
    (parameters : List String) (arguments : List Value) (around : Option Evaluation) : Machine :=
  if m.depthLimit ≤ m.depth then m.fail (.stackOverflow m.depthLimit)
  else
    match m.plan body with
    | .error failure => m.finish (.failed failure)
    | .ok plan =>
      let suspension := around.map fun around => ⟨definition, m.frames.length, around⟩
      let m :=
        { m with
          env := m.env.push (.ofParameters parameters arguments)
          depth := m.depth + 1
          suspended := suspension.toList ++ m.suspended }
      (m.push (.enter plan 0 plan.ops.size .procedure)).schedule

/-! ## Values -/

/-- How often a body is repeated: the nearest whole number, and never less than zero. -/
def repeatCount (x : Float) : Nat :=
  if 0 < x then
    match (Binary.ofFloat x).round with
    | .infinite _ => UInt64.size - 1
    | b => min (b.natAbs?.getD 0) (UInt64.size - 1)
  else 0

/-- The body that an if runs: where it begins and where it ends. -/
def chosenBranch (holds : Bool) (opener : Nat) (otherwise : Option Nat) (close : Nat) :
    Option (Nat × Nat) :=
  match holds, otherwise with
  | true, some split => some (opener + 1, split)
  | true, none => some (opener + 1, close)
  | false, some split => some (split + 1, close)
  | false, none => none

/-- Returns a value from the innermost procedure, or from the run. -/
def giveBack (m : Machine) (value : Value) : Machine :=
  let m := m.leave m.frames
  if m.floor < m.frames.length then m.schedule
  else
    match m.suspended with
    | [] => m.finish (.completed (some value))
    | s :: outer => { m with suspended := outer, activity := .delivering value s.evaluation }

/-- Uses the value of a whole expression. -/
def conclude (m : Machine) (value : Value) : Purpose → Machine
  | .statement => m.schedule
  | .times opener close =>
    match value.expectNumber with
    | .error e => m.fail e
    | .ok x =>
      let m := m.jumpPast close
      match repeatCount x with
      | 0 => m.schedule
      | count => (m.pushBody (opener + 1) close (.repeated count)).schedule
  | .firstTest opener close =>
    let m := m.jumpPast close
    if value.isTruthy then m.schedule
    else (m.pushBody (opener + 1) close (.untilHolds opener)).schedule
  | .retest =>
    if value.isTruthy then m.pop.schedule
    else (m.updateTop fun f => { f with next := f.first }).schedule
  | .branch opener otherwise close =>
    let m := m.jumpPast close
    match chosenBranch value.isTruthy opener otherwise close with
    | some (first, stop) => (m.pushBody first stop .branch).schedule
    | none => m.schedule
  | .giveBack => m.giveBack value

/-- Goes on after a native function. -/
def returned (m : Machine) (definition : String) (value : Option Value) (around : Evaluation) :
    Machine :=
  match value, around with
  | some value, around => { m with activity := .delivering value around }
  | none, ⟨.statement, []⟩ => m.schedule
  | none, _ => m.fail (.noValue definition)

/-! ## Steps -/

/-- Evaluates an expression for a purpose. -/
def evaluate (m : Machine) (e : Expr) (purpose : Purpose) : Machine :=
  { m with activity := .evaluating e ⟨purpose, []⟩ }

/-- Runs a block that stands at an index of the chain of the innermost frame. -/
def perform (m : Machine) (index : Nat) : Op → Machine
  | .marker => m.schedule
  | .statement e => m.evaluate e .statement
  | .repeatTimes times close => m.evaluate times (.times index close)
  | .repeatUntil condition close => m.evaluate condition (.firstTest index close)
  | .forever close => ((m.jumpPast close).pushBody (index + 1) close .forever).schedule
  | .ifThen condition otherwise close => m.evaluate condition (.branch index otherwise close)
  | .giveBack e => m.evaluate e .giveBack

/-- Begins the next block of the innermost frame. -/
def performNext (m : Machine) (f : Frame) : Machine :=
  let m := (m.updateTop fun f => { f with next := f.next + 1, current := f.next }).publish
  match f.plan.ops[f.next]? with
  | some op => m.perform f.next op
  | none => m.schedule

/-- Runs the row of blocks of the innermost frame once more. -/
def again (m : Machine) : Machine :=
  (m.updateTop fun f => { f with next := f.first }).schedule

/-- Goes on after the last block of the innermost frame. -/
def endOfFrame (m : Machine) (f : Frame) : Machine :=
  match f.kind with
  | .root | .procedure | .branch => m.pop.schedule
  | .forever => m.again
  | .repeated remaining =>
    if 1 < remaining then
      (m.updateTop fun f => { f with kind := .repeated (remaining - 1) }).again
    else m.pop.schedule
  | .untilHolds opener =>
    let m := m.updateTop fun f => { f with current := opener }
    match f.plan.ops[opener]? with
    | some (.repeatUntil condition _) => m.evaluate condition .retest
    | _ => m.pop.schedule

/-- Goes on with the innermost frame, if there is one above the floor. Here, and only here, a
request to stop is heeded. -/
def dispatch (m : Machine) : Machine :=
  if m.frames.length ≤ m.floor then
    match m.suspended with
    | [] => m.finish (.completed none)
    | s :: _ => m.fail (.missingReturn s.procedure)
  else if m.stop then m.finish .cancelled
  else
    match m.frames with
    | [] => m.finish (.completed none)
    | f :: _ => if f.stop ≤ f.next then m.endOfFrame f else m.performNext f

/-- Calls what an evaluation has gathered the arguments for. -/
def call (m : Machine) (arguments : List Value) (around : Evaluation) : Callee → Machine
  | .native definition function =>
    let (reaction, s) := function ⟨m.env, m.output, m.stop⟩ arguments
    let m := { m with env := s.env, output := s.output, stop := s.stop }
    match reaction with
    | .returned value => m.returned definition value around
    | .failed error => m.fail error
    | .panicked message => { m with activity := .panicked message }
    | .waiting wait value => { m with activity := .waiting wait definition value around }
  | .procedure definition body parameters =>
    match around with
    | ⟨.statement, []⟩ => m.enterProcedure definition body parameters arguments none
    | around => m.enterProcedure definition body parameters arguments (some around)

/-- Evaluates the arguments of a call, or calls when there are none left. -/
def gather (m : Machine) (callee : Callee) (values : List Value) (purpose : Purpose)
    (outer : List PendingCall) : List Expr → Machine
  | [] => { m with activity := .calling callee values.reverse ⟨purpose, outer⟩ }
  | e :: rest =>
    { m with activity := .evaluating e ⟨purpose, ⟨callee, values, rest⟩ :: outer⟩ }

/-- One step. A machine that rests does nothing. -/
def step (m : Machine) : Machine :=
  match m.activity with
  | .scheduling => m.dispatch
  | .evaluating (.literal value) around => { m with activity := .delivering value around }
  | .evaluating (.native definition function arguments) around =>
    m.gather (.native definition function) [] around.purpose around.calls arguments
  | .evaluating (.call definition body parameters arguments) around =>
    m.gather (.procedure definition body parameters) [] around.purpose around.calls arguments
  | .delivering value ⟨purpose, []⟩ => m.conclude value purpose
  | .delivering value ⟨purpose, c :: outer⟩ =>
    m.gather c.callee (value :: c.values) purpose outer c.rest
  | .calling callee arguments around => m.call arguments around callee
  | .idle | .waiting .. | .ended _ | .panicked _ => m

/-- Goes on after a wait that is over. -/
def resume (m : Machine) : Machine :=
  match m.activity with
  | .waiting _ definition value around => m.returned definition value around
  | _ => m

/-- Requests a stop. It cuts a sleep short, but not another wait. -/
def requestStop (m : Machine) : Machine := { m with stop := true }

/-- Steps until the machine rests, or the fuel is used up. -/
def advance : Nat → Machine → Machine
  | 0, m => m
  | fuel + 1, m => if m.activity.rests then m else advance fuel m.step

end Machine

end Blockwork
