import Blockwork.Chain
import Blockwork.Value

/-!
# How a run ends

A run is completed, perhaps with the value that it returned, or stopped on request, or it fails. A
failure knows the block that was being run.
-/

namespace Blockwork

/-- Why a run fails. -/
inductive RunError where
  | unknownDefinition (id : String)
  | typeMismatch (expected found : String)
  | unboundVariable (name : String)
  | arithmetic (reason : String)
  | missingReturn (procedure : String)
  | stackOverflow (limit : Nat)
  | unknownChain (chain : ChainId)
  | unknownNative (name : String)
  | malformedChain (reason : String)
  | missingArgument (index : Nat)
  /-- A block in the place of a value gave none. -/
  | noValue (definition : String)
  | output (reason : String)
  | panicked (message : String)
  /-- The run did not heed a request to stop. -/
  | forcedTermination
deriving DecidableEq, Repr

/-- What an error says. -/
def RunError.message : RunError → String
  | .unknownDefinition id => "unknown definition: " ++ id
  | .typeMismatch expected found => "type mismatch: expected " ++ expected ++ ", got " ++ found
  | .unboundVariable name => "unbound variable: " ++ name
  | .arithmetic reason => "arithmetic error: " ++ reason
  | .missingReturn procedure =>
    "procedure '" ++ procedure ++ "' finished without returning a value"
  | .stackOverflow limit =>
    "stack overflow: more than " ++ toString limit ++ " nested procedure calls"
  | .unknownChain chain => "unknown chain: " ++ chain.display
  | .unknownNative name => "no native behavior named '" ++ name ++ "'"
  | .malformedChain reason => "malformed chain: " ++ reason
  | .missingArgument index => "missing argument " ++ toString index
  | .noValue definition => "'" ++ definition ++ "' does not produce a value"
  | .output reason => "I/O error: " ++ reason
  | .panicked message => "worker panicked: " ++ message
  | .forcedTermination => "worker ignored the stop request and was abandoned"

/-- A block of a chain. -/
structure BlockLocation where
  chain : ChainId
  block : Nat
deriving DecidableEq, Repr

/-- The text that shows a location. -/
def BlockLocation.display (l : BlockLocation) : String :=
  l.chain.display ++ ", block " ++ toString l.block

/-- An error, and the block it belongs to. -/
structure Failure where
  error : RunError
  location : Option BlockLocation
deriving DecidableEq, Repr

/-- What a failure says. -/
def Failure.message (f : Failure) : String :=
  match f.location with
  | some l => f.error.message ++ " (at " ++ l.display ++ ")"
  | none => f.error.message

/-- How a run ends. -/
inductive Outcome where
  | completed (value : Option Value)
  | cancelled
  | failed (failure : Failure)

/-- The status of a run that has ended so. -/
def Outcome.message : Outcome → String
  | .completed _ => "Execution completed successfully"
  | .cancelled => "Execution stopped"
  | .failed failure => "Execution failed: " ++ failure.error.message

end Blockwork
