import Blockwork.Json.Record

/-!
# Settings of an engine

The numbers that limit a run and the one who waits for it.
-/

namespace Blockwork

/-- Limits of a run. Times are in thousandths of a second. -/
structure Settings where
  /-- How many procedure calls may be nested. -/
  maxCallDepth : Nat
  /-- How long a run is waited for that has been asked to stop. -/
  stopGrace : Nat
  /-- The size of the stack of a worker, in bytes. -/
  workerStackSize : Nat
  /-- How long to wait before a run is looked at again. -/
  pollInterval : Nat
deriving DecidableEq, Repr

namespace Settings

/-- The settings of an engine that is not told otherwise. -/
def standard : Settings := ⟨256, 1000, 16 * 1024 * 1024, 16⟩

/-- The names of the settings. -/
def names : List String :=
  ["max_call_depth", "stop_grace_ms", "worker_stack_size", "poll_interval_ms"]

/-- Settings in JSON. -/
def toJson (s : Settings) : Json :=
  .record [("max_call_depth", .nat s.maxCallDepth), ("stop_grace_ms", .nat s.stopGrace),
    ("worker_stack_size", .nat s.workerStackSize), ("poll_interval_ms", .nat s.pollInterval)]

/-- Reads settings; any that is missing is a standard one. -/
def ofJson : Json → Except Fault Settings :=
  let number := Json.asNat UInt64.size
  Json.readRecord names fun m =>
    Settings.mk <$> m.field "max_call_depth" standard.maxCallDepth number <*>
      m.field "stop_grace_ms" standard.stopGrace number <*>
      m.field "worker_stack_size" standard.workerStackSize number <*>
      m.field "poll_interval_ms" standard.pollInterval number

end Settings

end Blockwork
