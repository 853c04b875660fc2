import Blockwork.Integrity
import Blockwork.Machine
import Blockwork.Settings

/-!
# Controllers

A controller owns at most one run. Its worker goes on by itself, on its own thread; all that is seen
of it is the latest snapshot, the gauge, the outcome once it has been sent, and whether the thread
has ended. The controller looks at these from outside, and records how the run has ended once it
sees that it has. From then on the answer does not change, whatever the worker still does, until the
run is freed.

A caller that blocks is one that asks again and again while the worker goes on, so blocking needs
nothing of its own here. A caller that stops waiting calls `Controller.abandon`.
-/

namespace Blockwork

/-- Names a run of a controller. -/
structure RunHandle where
  /-- Runs are counted without bound: this stands for a counter of 64 bits, and nothing is said of
  what comes after its last number. -/
  number : Nat
deriving DecidableEq, Repr

/-- The text that shows a handle. -/
def RunHandle.display (h : RunHandle) : String := "run #" ++ toString h.number

/-! ## Workers -/

/-- The thread of a worker. -/
inductive Thread where
  | running
  | exited
  /-- It has broken off. -/
  | panicked (message : String)
deriving DecidableEq, Repr

/-- A machine that runs on a thread of its own, and what is seen of it from outside. -/
structure Worker where
  machine : Machine
  /-- The snapshot that was published last. -/
  latest : Option Snapshot
  /-- What the run was said to hold last. -/
  gauge : Gauge
  /-- The outcome, once it has been sent. -/
  sent : Option Outcome
  thread : Thread

namespace Worker

/-- A worker of which nothing has been seen. -/
def new (m : Machine) : Worker := ⟨m, none, ⟨0, 0⟩, none, .running⟩

/-- Shows all that the machine has done. -/
def catchUp (w : Worker) : Worker :=
  let (snapshots, m) := w.machine.takeSnapshots
  { w with machine := m, latest := snapshots.getLast?.or w.latest, gauge := m.gauge }

/-- Ends the thread if the machine has come to its end. The outcome is sent before. -/
def close (w : Worker) : Worker :=
  match w.machine.activity with
  | .ended outcome => { w with sent := some outcome, thread := .exited }
  | .panicked message => { w with thread := .panicked message }
  | _ => w

/-- The worker goes on with its machine in the next state, and shows it. -/
def follow (w : Worker) (m : Machine) : Worker := ({ w with machine := m }).catchUp.close

/-- One step of a worker. -/
def step (w : Worker) : Worker := w.follow w.machine.step

/-- Ends the wait of a worker. -/
def resume (w : Worker) : Worker := w.follow w.machine.resume

/-- Requests a stop. -/
def requestStop (w : Worker) : Worker := { w with machine := w.machine.requestStop }

/-- Steps until the worker rests, or the fuel is used up. -/
def advance : Nat → Worker → Worker
  | 0, w => w
  | fuel + 1, w => if w.machine.activity.rests then w else advance fuel w.step

/-- A failure at the block that was shown last. -/
def failure (w : Worker) (error : RunError) : Outcome :=
  .failed ⟨error, w.latest.map fun s => ⟨s.chain, s.block⟩⟩

/-- How the run has ended, once it has: with the outcome that was sent, or else because the thread
has ended without one. -/
def verdict? (w : Worker) : Option Outcome :=
  match w.sent, w.thread with
  | some outcome, _ => some outcome
  | none, .running => none
  | none, .panicked message => some (w.failure (.panicked message))
  | none, .exited => some (w.failure (.panicked "worker exited without an outcome"))

end Worker

/-! ## Controllers -/

/-- The run of a controller. -/
structure ActiveRun where
  handle : RunHandle
  worker : Worker
  /-- How the run has ended, once the controller has seen it. -/
  outcome : Option Outcome

/-- A controller. -/
structure Controller where
  settings : Settings
  natives : NativeTable
  /-- The number of the next run, counted without bound (`RunHandle.number`). -/
  next : Nat
  run : Option ActiveRun

/-- Why a controller refuses a request. -/
inductive ControllerError where
  | alreadyRunning
  | stillRunning (handle : RunHandle)
  | unknownRun (handle : RunHandle)
  /-- The program is not sound. -/
  | integrity (violations : List Violation)
deriving DecidableEq, Repr

/-- What a refusal says. -/
def ControllerError.message : ControllerError → String
  | .alreadyRunning => "a run is already active; join and free it before starting another"
  | .stillRunning h => h.display ++ " has not finished yet"
  | .unknownRun h => h.display ++ " is not owned by this controller"
  | .integrity violations =>
    "program failed its integrity check with " ++ toString violations.length ++ " violation(s)"

namespace Controller

/-- A controller without a run. -/
def new (settings : Settings) (natives : NativeTable) : Controller := ⟨settings, natives, 0, none⟩

/-- The run of a handle. -/
def owned (c : Controller) (h : RunHandle) : Except ControllerError ActiveRun :=
  match c.run with
  | some run => if run.handle = h then .ok run else .error (.unknownRun h)
  | none => .error (.unknownRun h)

/-- Lets the worker go on in some way. -/
def work (c : Controller) (change : Worker → Worker) : Controller :=
  { c with run := c.run.map fun run => { run with worker := change run.worker } }

/-- The controller with a worker that is to run a chain of a program. -/
def launched (c : Controller) (p : Program) (chain : ChainId) (output : Output) : Controller :=
  let machine := Machine.ofProgram p c.natives c.settings.maxCallDepth output
  let run : ActiveRun := ⟨⟨c.next⟩, .new (machine.start chain), none⟩
  { c with next := c.next + 1, run := some run }

/-- Starts a worker that is to run a chain of a program. -/
def launch (c : Controller) (p : Program) (chain : ChainId) (output : Output) :
    Except ControllerError (RunHandle × Controller) :=
  if c.run.isSome then .error .alreadyRunning
  else
    match p.violations with
    | [] => .ok (⟨c.next⟩, c.launched p chain output)
    | violations => .error (.integrity violations)

/-- Starts to run a chain of a program. The worker shows at once that it has begun. -/
def start (c : Controller) (p : Program) (chain : ChainId) (output : Output) :
    Except ControllerError (RunHandle × Controller) := do
  let (handle, c) ← c.launch p chain output
  return (handle, c.work fun w => w.catchUp.close)

/-- Records how the owned run has ended. -/
def settle (c : Controller) (run : ActiveRun) (outcome : Outcome) : Controller :=
  { c with run := some { run with outcome := some outcome } }

/-- How a run has ended, if it has. -/
def tryJoin (c : Controller) (h : RunHandle) :
    Except ControllerError (Option Outcome × Controller) := do
  let run ← c.owned h
  match run.outcome, run.worker.verdict? with
  | some outcome, _ => return (some outcome, c)
  | none, some outcome => return (some outcome, c.settle run outcome)
  | none, none => return (none, c)

/-- Asks a run to stop. -/
def requestStop (c : Controller) (h : RunHandle) : Except ControllerError Controller := do
  let _ ← c.owned h
  return c.work Worker.requestStop

/-- Stops waiting for a run. If it has not ended, its worker is left to itself, and the run counts
as terminated by force. -/
def abandon (c : Controller) (h : RunHandle) : Except ControllerError (Outcome × Controller) := do
  let run ← c.owned h
  match run.outcome, run.worker.verdict? with
  | some outcome, _ => return (outcome, c)
  | none, some outcome => return (outcome, c.settle run outcome)
  | none, none =>
    let outcome := run.worker.failure .forcedTermination
    return (outcome, c.settle run outcome)

/-- Gives up a run whose end has been seen. -/
def free (c : Controller) (h : RunHandle) : Except ControllerError Controller := do
  let run ← c.owned h
  if run.outcome.isNone then .error (.stillRunning h) else return { c with run := none }

/-- The latest snapshot of a run. -/
def snapshot (c : Controller) (h : RunHandle) : Except ControllerError (Option Snapshot) := do
  return (← c.owned h).worker.latest

/-- What a run holds. -/
def resources (c : Controller) (h : RunHandle) : Except ControllerError Gauge := do
  return (← c.owned h).worker.gauge

/-- Whether there is a run whose end has not been seen. -/
def isRunning (c : Controller) : Bool := c.run.any fun run => run.outcome.isNone

end Controller

end Blockwork
