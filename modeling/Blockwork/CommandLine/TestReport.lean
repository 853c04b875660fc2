import Blockwork.CommandLine.TestFile
import Blockwork.CommandLine.TestSelection

/-!
# Reports of tests

Every test is reported below its category; what is wrong with those that fail comes after all of
them, and the number of both at the end.
-/

namespace Blockwork

/-- A colour or a weight of text. -/
inductive TextStyle where
  | good
  | bad
  | heading
deriving DecidableEq, Repr

/-- A text in a style, or plain. -/
def TextStyle.apply (style : TextStyle) (plain : Bool) (text : String) : String :=
  let code :=
    match style with
    | .good => "32"
    | .bad => "31"
    | .heading => "1"
  if plain then text else "\x1b[" ++ code ++ "m" ++ text ++ "\x1b[0m"

/-- A test that has been run. -/
structure TestResult where
  path : String
  label : String
  failure : Option TestFailure

namespace TestResult

/-- Whether a test has passed. -/
def passed (r : TestResult) : Bool := r.failure.isNone

/-- Runs a test. -/
def ofTest (settings : Settings) (t : FoundTest) : TestResult :=
  match t.content with
  | .error e => ⟨t.path, t.label, some (.unreadable e)⟩
  | .ok text =>
    match TestFile.parse text with
    | .error e => ⟨t.path, t.label, some (.notATest e)⟩
    | .ok file =>
      let failure :=
        match file.run settings with
        | .ok () => none
        | .error e => some e
      ⟨t.path, file.expectations.description.getD t.label, failure⟩

/-- The line of a test. -/
def line (plain : Bool) (r : TestResult) : String :=
  let mark :=
    if r.passed then TextStyle.good.apply plain "PASS" else TextStyle.bad.apply plain "FAIL"
  "  " ++ mark ++ "  " ++ r.label

/-- What is wrong with a test. -/
def details (r : TestResult) : List String :=
  match r.failure with
  | none => []
  | some failure =>
    ["", "  --- " ++ r.path ++ " ---"] ++ (textLines failure.message).map fun line => "  " ++ line

end TestResult

/-- The tests of a category that have been run. -/
structure GroupResult where
  label : String
  results : List TestResult

/-- Runs the tests of a category. -/
def GroupResult.ofGroup (settings : Settings) (g : TestGroup) : GroupResult :=
  ⟨g.label, g.tests.map (TestResult.ofTest settings)⟩

/-- The lines of a category. -/
def GroupResult.lines (plain : Bool) (g : GroupResult) : List String :=
  ["", TextStyle.heading.apply plain g.label] ++ g.results.map (TestResult.line plain)

/-- All tests that have been run. -/
structure TestReport where
  groups : List GroupResult

namespace TestReport

/-- The tests of all categories. -/
def results (r : TestReport) : List TestResult := r.groups.flatMap GroupResult.results

/-- How many tests have passed. -/
def passed (r : TestReport) : Nat := r.results.countP TestResult.passed

/-- How many tests have failed. -/
def failed (r : TestReport) : Nat := r.results.countP fun t => !t.passed

/-- The last line. -/
def summary (plain : Bool) (r : TestReport) : String :=
  if r.failed = 0 then
    "test result: " ++ TextStyle.good.apply plain "ok" ++ ". " ++ toString r.passed ++
      " passed, 0 failed"
  else
    "test result: " ++ TextStyle.bad.apply plain "FAILED" ++ ". " ++ toString r.passed ++
      " passed, " ++ toString r.failed ++ " failed (of " ++ toString (r.passed + r.failed) ++ ")"

/-- The lines of a report. -/
def lines (plain : Bool) (r : TestReport) : List String :=
  r.groups.flatMap (GroupResult.lines plain) ++
    (if r.failed = 0 then [] else ["", "failures:"] ++ r.results.flatMap TestResult.details) ++
    ["", r.summary plain]

end TestReport

end Blockwork
