import Blockwork.CommandLine.Files
import Blockwork.Program.Format
import Blockwork.Session
import Blockwork.Text.Lines
import Blockwork.Toml.Record

/-!
# Test files

A test file says between two rows of hyphens what is expected of a run, and holds the program behind
them. A test passes when the run ends as expected, and everything else that is expected holds too.

## What decides

How the run ends is looked at first, then the output, then the value. A failure that is expected is
not a failure of the test, but an expected error rules out every other end.
-/

namespace Blockwork

/-- What a test expects. -/
structure Expectations where
  description : Option String
  /-- The chain to run, if it is not the one that starts a run. -/
  chain : Option ChainId
  output : Option String
  /-- A part of the message of the error that the run fails with. -/
  error : Option String
  value : Option Value
  cancelled : Bool
  /-- When the run is asked to stop, in thousandths of a second. -/
  stopAfter : Option Nat
  /-- A part of the message of a violation. -/
  violation : Option String

/-- The value that a TOML value stands for. -/
def Value.ofToml : Toml → Value
  | .integer n =>
    let x := (Binary.ofNat n.natAbs).toFloat
    .number (if n < 0 then -x else x)
  | .float x => .number x
  | .boolean b => .boolean b
  | .text s => .text s
  | other => .text other.display

namespace Expectations

/-- The names of what a test may expect. -/
def names : List String :=
  ["description", "chain", "expect_output", "expect_error", "expect_value", "expect_cancelled",
    "stop_after_ms", "expect_integrity_error"]

/-- Reads what a test expects. -/
def parse (text : String) : Option Expectations := do
  let members ← Toml.parse text
  if Toml.knows names members then
    let optional {α : Type} (name : String) (read : Toml → Option α) : Option (Option α) :=
      Toml.optionalField members name read
    Expectations.mk <$> optional "description" Toml.asText <*>
      optional "chain" (fun v => (Toml.asNatural UInt32.size v).map UInt32.ofNat) <*>
      optional "expect_output" Toml.asText <*> optional "expect_error" Toml.asText <*>
      optional "expect_value" (fun v => some (Value.ofToml v)) <*>
      Toml.field members "expect_cancelled" false Toml.asBoolean <*>
      optional "stop_after_ms" (Toml.asNatural UInt64.size) <*>
      optional "expect_integrity_error" Toml.asText
  else none

end Expectations

/-! ## Reading test files -/

/-- Why a file is not a test file. -/
inductive TestFileError where
  | noOpening
  | noClosing
  | malformed
deriving DecidableEq, Repr

/-- What an error says. -/
def TestFileError.message : TestFileError → String
  | .noOpening => "missing opening --- frontmatter delimiter"
  | .noClosing => "missing closing --- frontmatter delimiter"
  | .malformed => "TOML parse error: not the TOML that is expected"

/-- A test. -/
structure TestFile where
  expectations : Expectations
  program : String

namespace TestFile

/-- What follows a line end, if there is one. -/
def dropLineEnd : List Char → List Char
  | '\n' :: rest => rest
  | '\r' :: '\n' :: rest => rest
  | cs => cs

/-- What stands before the closing hyphens, in reverse, and what stands behind them. -/
def splitAtClosing (before : List Char) : List Char → Option (List Char × List Char)
  | [] => none
  | '\n' :: '-' :: '-' :: '-' :: rest => some (before, rest)
  | c :: rest => splitAtClosing (c :: before) rest

/-- The two parts of a test file. -/
def split (text : String) : Except TestFileError (String × String) :=
  match text.toList.dropWhile fun c => c = '\ufeff' with
  | '-' :: '-' :: '-' :: rest =>
    match splitAtClosing [] (dropLineEnd rest) with
    | some (before, behind) =>
      .ok (String.ofList (before.dropWhile fun c => c = '\r').reverse,
        String.ofList (dropLineEnd behind))
    | none => .error .noClosing
  | _ => .error .noOpening

/-- Reads a test file. -/
def parse (text : String) : Except TestFileError TestFile := do
  let (front, program) ← split text
  match Expectations.parse front with
  | some expectations => return ⟨expectations, program⟩
  | none => throw .malformed

end TestFile

/-! ## Failures of tests -/

/-- Why a test fails. -/
inductive TestFailure where
  | unreadable (error : FileError)
  | notATest (error : TestFileError)
  | invalidProgram (error : LoadError)
  | noChain
  | otherViolations (expected : String) (violations : List Violation)
  | accepted (expected : String)
  | rejected (violations : List Violation)
  | notStarted (error : ControllerError)
  | lost (error : ControllerError)
  | otherError (expected : String) (error : RunError)
  | noError (expected : String) (outcome : Outcome)
  | failed (failure : Failure)
  | stopped
  | timedOut
  | notStopped
  | otherOutput (expected actual : String)
  | otherValue (expected actual : Value)
  | noValue (expected : Value)

/-- How long a run may take if the test does not say, in thousandths of a second. -/
def Expectations.defaultTime : Nat := 10000

/-- What a failure says. -/
def TestFailure.message : TestFailure → String
  | .unreadable e => "cannot read file: " ++ e.message
  | .notATest e => "frontmatter error: " ++ e.message
  | .invalidProgram e => "invalid program: " ++ e.message
  | .noChain => "no chain to run: set `chain` or add a \"when run\" chain"
  | .otherViolations expected violations =>
    "expected integrity violation containing \"" ++ expected ++ "\", got: " ++
      "; ".intercalate (violations.map Violation.message)
  | .accepted expected =>
    "expected integrity violation containing \"" ++ expected ++ "\", but the program was accepted"
  | .rejected violations =>
    "program rejected:\n  " ++ "\n  ".intercalate (violations.map Violation.message)
  | .notStarted e => "cannot start run: " ++ e.message
  | .lost e => "controller error: " ++ e.message
  | .otherError expected error =>
    "expected error containing \"" ++ expected ++ "\", got: " ++ error.message
  | .noError expected outcome =>
    "expected error containing \"" ++ expected ++ "\", but the run ended with: " ++ outcome.message
  | .failed failure => "unexpected failure: " ++ failure.message
  | .stopped => "run was stopped before it completed"
  | .timedOut =>
    "run did not finish within " ++ toString (Expectations.defaultTime / 1000) ++ "s"
  | .notStopped => "expected the run to be stopped, but it completed"
  | .otherOutput expected actual =>
    "output mismatch\n  expected: " ++ expected ++ "\n  actual:   " ++ actual
  | .otherValue expected actual =>
    "value mismatch\n  expected: " ++ expected.display ++ "\n  actual:   " ++ actual.display
  | .noValue expected => "expected value " ++ expected.display ++ ", but no value was returned"

/-! ## Running tests -/

namespace Expectations

/-- Whether a run ends as expected. -/
def checkEnd (e : Expectations) : Outcome → Except TestFailure Unit
  | .failed failure =>
    match e.error with
    | some expected =>
      if containsText failure.error.message expected then .ok ()
      else .error (.otherError expected failure.error)
    | none => .error (.failed failure)
  | outcome =>
    match e.error, outcome with
    | some expected, outcome => .error (.noError expected outcome)
    | none, .cancelled =>
      if e.cancelled then .ok () else .error (if e.stopAfter.isSome then .stopped else .timedOut)
    | none, _ => if e.cancelled then .error .notStopped else .ok ()

/-- Whether the output is as expected. White space at its ends does not count. -/
def checkOutput (e : Expectations) (output : String) : Except TestFailure Unit :=
  match e.output with
  | some expected =>
    if trimBlank output = trimBlank expected then .ok ()
    else .error (.otherOutput (trimBlank expected) (trimBlank output))
  | none => .ok ()

/-- Whether the value is as expected. -/
def checkValue (e : Expectations) (outcome : Outcome) : Except TestFailure Unit :=
  match e.value, outcome with
  | none, _ => .ok ()
  | some expected, .completed (some actual) =>
    if actual == expected then .ok () else .error (.otherValue expected actual)
  | some expected, _ => .error (.noValue expected)

/-- Whether a run and its output are as expected. -/
def compare (e : Expectations) (outcome : Outcome) (output : String) : Except TestFailure Unit := do
  e.checkEnd outcome
  e.checkOutput output
  e.checkValue outcome

/-- How long the run may take. -/
def time (e : Expectations) : Nat := e.stopAfter.getD defaultTime * Session.millisecond

/-- Whether a program that is refused, or not refused, is as expected. -/
def checkStart (e : Expectations) :
    Except ControllerError Session → Except TestFailure (Option Session)
  | .error (.integrity violations) =>
    match e.violation with
    | some expected =>
      if violations.any fun v => containsText v.message expected then .ok none
      else .error (.otherViolations expected violations)
    | none => .error (.rejected violations)
  | .ok session =>
    match e.violation with
    | some expected => .error (.accepted expected)
    | none => .ok (some session)
  | .error e => .error (.notStarted e)

end Expectations

namespace TestFile

/-- The chain to run. -/
def chain? (t : TestFile) (p : Program) : Option ChainId :=
  t.expectations.chain.or (p.entryChain?.map Chain.id)

/-- Drives a run to its end, and compares. -/
def finish (t : TestFile) (session : Session) : Except TestFailure Unit :=
  match session.drive (session.looksFor t.expectations.time) with
  | .error e => .error (.lost e)
  | .ok (none, _) => .error (.lost (.stillRunning session.handle))
  | .ok (some outcome, session) =>
    match session.controller.free session.handle with
    | .error e => .error (.lost e)
    | .ok _ => t.expectations.compare outcome session.printed

/-- Runs a test. -/
def run (t : TestFile) (settings : Settings) : Except TestFailure Unit :=
  match Program.load t.program with
  | .error e => .error (.invalidProgram e)
  | .ok p =>
    match t.chain? p with
    | none => .error .noChain
    | some chain => do
      let time := some t.expectations.time
      match ← t.expectations.checkStart (Session.start settings p chain time) with
      | none => return
      | some session => t.finish session

end TestFile

end Blockwork
