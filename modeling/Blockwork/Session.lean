import Blockwork.Controller

/-!
# Sessions

A session is a run under a clock, with someone who looks at it at regular intervals, asks it to stop
when its time is over, and leaves it to itself if it does not stop soon enough. The clock counts
millionths of a second; a step of the worker takes one, and a sleep takes as long as it lasts.

## Progress

Whatever a worker does takes time, so a worker that is let go on up to a point in time gets there in
as many moves as there is time left. A session that has a limit therefore ends after a known number
of looks.
-/

namespace Blockwork

/-- Millionths of a second in a thousandth. -/
def Session.millisecond : Nat := 1000

/-- The whole millionths of a second in some seconds; without bound it is a very long time. -/
def Session.ofSeconds (x : Float) : Nat :=
  if 0 < x then ((Binary.ofFloat (x * 1000000)).floor.natAbs?).getD UInt64.size else 0

/-- A run under a clock. -/
structure Session where
  controller : Controller
  handle : RunHandle
  /-- The time since the run was started. -/
  clock : Nat
  /-- When the sleep of the worker is over, if it sleeps. -/
  wake : Option Nat
  /-- When the run is asked to stop. -/
  limit : Option Nat

namespace Session

/-- Starts to run a chain of a program. -/
def start (settings : Settings) (p : Program) (chain : ChainId) (limit : Option Nat) :
    Except ControllerError Session := do
  let controller := Controller.new settings Native.standard
  let (handle, controller) ← controller.start p chain .unlimited
  return ⟨controller, handle, 0, none, limit⟩

/-- The worker of the run. -/
def worker? (s : Session) : Option Worker := s.controller.run.map ActiveRun.worker

/-- What has been printed. -/
def printed (s : Session) : String := (s.worker?.map fun w => w.machine.output.text).getD ""

/-- Takes what has been printed. -/
def takePrinted (s : Session) : String × Session :=
  let take (w : Worker) : Worker := { w with machine := w.machine.takePrinted.2 }
  (s.printed, { s with controller := s.controller.work take })

/-- The time between two looks. -/
def interval (s : Session) : Nat := max 1 (s.controller.settings.pollInterval * millisecond)

/-! ## The worker -/

/-- The worker changes in some way, which takes a moment. -/
def change (s : Session) (f : Worker → Worker) : Session :=
  { s with controller := s.controller.work f, clock := s.clock + 1, wake := none }

/-- The next move of the worker, which ends at `deadline` if it would last longer. -/
def move (deadline : Nat) (s : Session) : Session :=
  match s.worker? with
  | none => { s with clock := deadline }
  | some w =>
    match w.machine.activity with
    | .waiting (.sleep seconds) .. =>
      match s.wake with
      | none => { s with clock := s.clock + 1, wake := some (s.clock + ofSeconds seconds) }
      | some wake =>
        if w.machine.stop || wake ≤ s.clock then s.change Worker.resume
        else { s with clock := min wake deadline }
    | activity => if activity.rests then { s with clock := deadline } else s.change Worker.step

/-- Lets the worker go on up to `deadline`, with at most so many moves. -/
def workUntil (deadline : Nat) : Nat → Session → Session
  | 0, s => s
  | moves + 1, s =>
    if deadline ≤ s.clock then s else workUntil deadline moves (s.move deadline)

/-- Lets the worker go on for some time. -/
def work (s : Session) (time : Nat) : Session := s.workUntil (s.clock + time) time

/-! ## Looking at the run -/

/-- Asks the run to stop, waits as long as the settings say, and takes the outcome. -/
def stop (s : Session) : Except ControllerError (Outcome × Session) := do
  let asked := { s with controller := ← s.controller.requestStop s.handle }
  let waited := asked.work (s.controller.settings.stopGrace * millisecond)
  let (outcome, controller) ← waited.controller.abandon s.handle
  return (outcome, { waited with controller := controller })

/-- Looks at the run. If it has neither ended nor used up its time, it goes on until the next
look. -/
def look (s : Session) : Except ControllerError (Option Outcome × Session) := do
  match ← s.controller.tryJoin s.handle with
  | (some outcome, controller) => return (some outcome, { s with controller := controller })
  | (none, _) =>
    if s.limit.any fun limit => limit ≤ s.clock then
      let (outcome, s) ← s.stop
      return (some outcome, s)
    else return (none, s.work s.interval)

/-- Looks at the run until it has ended, but at most so many times. -/
def drive : Nat → Session → Except ControllerError (Option Outcome × Session)
  | 0, s => return (none, s)
  | looks + 1, s => do
    match ← s.look with
    | (some outcome, s) => return (some outcome, s)
    | (none, s) => drive looks s

/-- How many looks are enough for a limit. -/
def looksFor (s : Session) (limit : Nat) : Nat := limit / s.interval + 2

end Session

end Blockwork
