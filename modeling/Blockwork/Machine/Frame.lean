import Blockwork.Plan

/-!
# The parts of a running machine

A frame is a row of blocks that is being run: a chain, the body of a procedure, a pass of a loop or
a branch. While an argument is evaluated the calls around it are pending; when one of them calls a
procedure for its value, the whole evaluation is suspended until the procedure is left.
-/

namespace Blockwork

/-- Why a row of blocks is run. -/
inductive FrameKind where
  /-- It is the chain that was asked for. -/
  | root
  /-- It is the body of a procedure. -/
  | procedure
  /-- It is repeated, `remaining` times with the current one. -/
  | repeated (remaining : Nat)
  /-- It is repeated until the condition of the block at `opener` holds. -/
  | untilHolds (opener : Nat)
  | forever
  | branch
deriving DecidableEq, Repr

/-- Whether a return leaves the frame and stops there. -/
def FrameKind.isBoundary : FrameKind → Bool
  | .root | .procedure => true
  | _ => false

/-- A row of blocks that is being run. -/
structure Frame where
  plan : Plan
  /-- The block to be run next. -/
  next : Nat
  /-- The block that is being run. -/
  current : Nat
  first : Nat
  /-- Where the row ends. -/
  stop : Nat
  kind : FrameKind

/-- A row of blocks before its first block. -/
def Frame.enter (plan : Plan) (first stop : Nat) (kind : FrameKind) : Frame :=
  ⟨plan, first, first, first, stop, kind⟩

/-- What an observer sees of a run: the block that is being run, and the number of frames. -/
structure Snapshot where
  chain : ChainId
  block : Nat
  depth : Nat
deriving DecidableEq, Repr

/-- What a run holds, as it was last recorded. -/
structure Gauge where
  frames : Nat
  scopes : Nat
deriving DecidableEq, Repr

/-! ## Evaluation -/

/-- What the value of an expression is wanted for. -/
inductive Purpose where
  /-- For nothing; there may even be none. -/
  | statement
  /-- It says how often a body is repeated. -/
  | times (opener close : Nat)
  /-- It says whether a body is skipped. -/
  | firstTest (opener close : Nat)
  /-- It says whether a body is left after a pass. -/
  | retest
  /-- It chooses a branch. -/
  | branch (opener : Nat) (otherwise : Option Nat) (close : Nat)
  /-- It is returned. -/
  | giveBack
deriving DecidableEq, Repr

/-- What is called. -/
inductive Callee where
  | native (definition : String) (function : Native)
  | procedure (definition : String) (body : ChainId) (parameters : List String)

/-- A call whose arguments are being evaluated. -/
structure PendingCall where
  callee : Callee
  /-- The values of the first arguments, the last of them first. -/
  values : List Value
  /-- The arguments that follow the one being evaluated. -/
  rest : List Expr

/-- What surrounds an expression that is being evaluated. -/
structure Evaluation where
  purpose : Purpose
  /-- The calls around it, innermost first. -/
  calls : List PendingCall

/-- An evaluation that waits for a procedure to return. -/
structure Suspension where
  procedure : String
  /-- The number of frames below the procedure. -/
  floor : Nat
  evaluation : Evaluation

/-- What a machine does next. -/
inductive Activity where
  /-- Nothing; no run has been begun. -/
  | idle
  /-- Goes on with the innermost frame. -/
  | scheduling
  | evaluating (e : Expr) (around : Evaluation)
  /-- Hands a value to what surrounds it. -/
  | delivering (value : Value) (around : Evaluation)
  | calling (callee : Callee) (arguments : List Value) (around : Evaluation)
  /-- Waits, inside a native function, with the value it will give. -/
  | waiting (wait : Wait) (definition : String) (value : Option Value) (around : Evaluation)
  | ended (outcome : Outcome)
  /-- The run has broken off. -/
  | panicked (message : String)

/-- Whether a machine does nothing by itself. -/
def Activity.rests : Activity → Bool
  | .idle | .waiting .. | .ended _ | .panicked _ => true
  | _ => false

end Blockwork
