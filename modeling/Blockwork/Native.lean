import Blockwork.Environment

/-!
# Native functions

A native function is given the values of its arguments, and sees the variables, the output and
whether a stop has been requested. It answers at once, or it waits for something to happen outside
the run and answers then.
-/

namespace Blockwork

/-- Where a run prints to. An output is taken to be no more than a counter of lines: it takes
everything until so many lines have been ended, and refuses what comes then, always with the same
error. Other ways in which an output may fail are left out. -/
structure Output where
  /-- What has been printed. -/
  text : String
  /-- How many lines have been ended. -/
  lines : Nat
  /-- After how many lines nothing more is taken. -/
  limit : Option Nat
deriving DecidableEq, Repr

namespace Output

/-- An output that takes everything. -/
def unlimited : Output := ⟨"", 0, none⟩

/-- Whether nothing more is taken. -/
def isClosed (o : Output) : Bool := o.limit.any fun limit => limit ≤ o.lines

/-- Prints a piece of text, or says why it is not taken. An empty piece is never refused. -/
def write (o : Output) (piece : String) : Option RunError × Output :=
  if piece.isEmpty then (none, o)
  else if o.isClosed then (some (.output "output closed"), o)
  else (none, { o with text := o.text ++ piece, lines := o.lines + (piece.toList.count '\n') })

end Output

/-- What a native function sees and may change. -/
structure Surroundings where
  env : Environment
  output : Output
  /-- Whether a stop has been requested. -/
  stop : Bool

/-- What a native function may wait for. -/
inductive Wait where
  /-- That so many seconds pass, or a stop is requested. -/
  | sleep (seconds : Float)
  /-- That it is told to go on. -/
  | signal

/-- The answer of a native function. -/
inductive Reaction where
  | returned (value : Option Value)
  | failed (error : RunError)
  /-- The run breaks off at once. -/
  | panicked (message : String)
  /-- The value is returned once the wait is over. -/
  | waiting (wait : Wait) (value : Option Value)

/-- A native function. It is taken to keep nothing to itself from one call to the next: what it
answers, and what it changes, depends on its arguments and on what it sees. -/
abbrev Native : Type := Surroundings → List Value → Reaction × Surroundings

/-- Native functions by name. -/
abbrev NativeTable : Type := Table Native

end Blockwork
