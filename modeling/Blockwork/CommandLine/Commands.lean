import Blockwork.CommandLine.Arguments
import Blockwork.CommandLine.Configuration
import Blockwork.CommandLine.TestReport
import Blockwork.Diagnostic.Rendering

/-!
# Commands

What the program does with its arguments. All commands but one come to a report by themselves. To
run a program is a task: a session that has to be driven to its end before there is a report.
-/

namespace Blockwork

/-! ## Reports -/

/-- How a command ends. -/
inductive ExitStatus where
  | done
  | failed
  /-- The arguments are not right. -/
  | misused
  /-- The run was stopped. -/
  | stopped
deriving DecidableEq, Repr

/-- The number that stands for it. -/
def ExitStatus.code : ExitStatus → Nat
  | .done => 0
  | .failed => 1
  | .misused => 2
  | .stopped => 130

/-- What a command leaves behind. -/
structure Report where
  status : ExitStatus
  output : String
  messages : String
deriving DecidableEq, Repr

/-- Lines as text. -/
def joinLines (lines : List String) : String := String.join (lines.map fun line => line ++ "\n")

/-- A report with messages only. -/
def Report.ofMessages (status : ExitStatus) (messages : String) : Report := ⟨status, "", messages⟩

/-- The report of an error. -/
def Report.ofError (message : String) : Report := .ofMessages .failed ("error: " ++ message ++ "\n")

/-! ## Programs in files -/

/-- A program, and the name of its file. -/
structure ProgramFile where
  path : String
  program : Program

namespace ProgramFile

/-- Loads a program. -/
def load (disk : Disk) (path : String) : Except Report ProgramFile :=
  let refused (message : String) : Except Report ProgramFile :=
    .error (.ofError ("cannot load '" ++ path ++ "': " ++ message))
  match disk.read path with
  | .error e => refused ("I/O error: " ++ e.message)
  | .ok text =>
    match Program.load text with
    | .error e => refused e.message
    | .ok p => .ok ⟨path, p⟩

/-- The listing of the first chain of a number. -/
def listing? (f : ProgramFile) (id : ChainId) : Option Listing :=
  (f.program.chain? id).map (Listing.ofChain f.program.definitions)

/-- A diagnostic about a chain. -/
def render (f : ProgramFile) (id : ChainId) (l : Listing) (d : Diagnostic) : String :=
  d.render ⟨f.path ++ " (" ++ id.display ++ ")", l.text⟩

/-- The message about a violation. -/
def violationText (f : ProgramFile) (v : Violation) : String :=
  match f.listing? v.chain with
  | some l => f.render v.chain l (v.diagnostic l)
  | none => (Diagnostic.mk v.message none []).render ⟨f.path, ""⟩

/-- The messages about violations. -/
def violationsText (f : ProgramFile) (vs : List Violation) : String :=
  String.join (vs.map f.violationText)

/-- The message about a failure, which marks the block that was run. -/
def failureText (f : ProgramFile) (failure : Failure) : String :=
  let unmarked : Diagnostic := ⟨failure.error.message, none, []⟩
  match failure.location.bind fun place => (f.listing? place.chain).map fun l => (place, l) with
  | some (place, l) =>
    let label := (l.span? place.block).map fun (start, stop) =>
      Label.mk start stop "while running this block"
    f.render place.chain l { unmarked with label := label }
  | none => unmarked.render ⟨f.path, ""⟩

end ProgramFile

/-! ## Running a program -/

/-- A run of a program that has to be driven to its end. -/
structure RunTask where
  file : ProgramFile
  quiet : Bool
  session : Session

namespace RunTask

/-- The limit of a time in seconds. It must be a number that is neither negative nor too large to be
counted in seconds. -/
def limit : Option Float → Except Report (Option Nat)
  | none => .ok none
  | some seconds =>
    if 0 ≤ seconds && seconds < 18446744073709551616 then .ok (some (Session.ofSeconds seconds))
    else
      .error (.ofError ("--timeout must be a finite, non-negative number of seconds, got " ++
        plainText seconds))

/-- Begins a run. -/
def begin (disk : Disk) (settings : Settings) (path : String) (chain : Option Nat)
    (time : Option Float) (quiet : Bool) : Except Report RunTask := do
  let limit ← limit time
  let file ← ProgramFile.load disk path
  match (chain.map UInt32.ofNat).or (file.program.entryChain?.map Chain.id) with
  | none =>
    .error (.ofError "no chain starts with a \"when run\" block; pick one with --chain")
  | some chain =>
    match Session.start settings file.program chain limit with
    | .ok session => .ok ⟨file, quiet, session⟩
    | .error (.integrity violations) =>
      .error (.ofMessages .failed (file.violationsText violations))
    | .error e => .error (.ofError e.message)

/-- What has been printed, as far as it is shown. -/
def printed (t : RunTask) : String := if t.quiet then "" else t.session.printed

/-- Takes what has been printed, as far as it is shown. -/
def takePrinted (t : RunTask) : String × RunTask :=
  (t.printed, { t with session := t.session.takePrinted.2 })

/-- The status of a run that has ended. -/
def status : Outcome → ExitStatus
  | .completed _ => .done
  | .cancelled => .stopped
  | .failed _ => .failed

/-- The messages about a run that has ended. -/
def messages (f : ProgramFile) (outcome : Outcome) : String :=
  outcome.message ++ "\n" ++
    match outcome with
    | .failed failure => f.failureText failure
    | _ => ""

/-- The report of a run that has ended. -/
def report (t : RunTask) (outcome : Outcome) : Report :=
  ⟨status outcome, t.printed, messages t.file outcome⟩

end RunTask

/-! ## Other commands -/

/-- Checks the integrity of a program. -/
def checkCommand (disk : Disk) (path : String) : Except Report Report := do
  let file ← ProgramFile.load disk path
  match file.program.violations with
  | [] =>
    return .ofMessages .done ("ok: " ++ toString file.program.chains.length ++ " chain(s) in " ++
      path ++ " passed\n")
  | violations => return .ofMessages .failed (file.violationsText violations)

/-- The lines that show a chain. -/
def chainLines (r : Registry) (c : Chain) : List String :=
  let place := "(" ++ plainText32 c.position.x ++ ", " ++ plainText32 c.position.y ++ ")"
  (c.id.display ++ " at " ++ place) ::
    ((textLines (Listing.ofChain r c).text).map fun line => Listing.step ++ line) ++ [""]

/-- Shows the chains of a program. -/
def listCommand (disk : Disk) (path : String) : Except Report Report := do
  let file ← ProgramFile.load disk path
  return ⟨.done, joinLines (file.program.chains.flatMap (chainLines file.program.definitions)), ""⟩

/-- The message that there are no tests. -/
def noTests (path : String) : String := "no " ++ testEnding ++ " files found in " ++ path ++ "\n"

/-- Shows which categories of tests there are. -/
def categoriesCommand (disk : Disk) (path : String) : Report :=
  if disk.isFile path then .ofMessages .done "(single file, no categories)\n"
  else
    match TestGroup.find disk path with
    | [] => .ofMessages .done (noTests path)
    | groups =>
      .ofMessages .done (joinLines ("available categories:" :: groups.map fun g =>
        "  " ++ g.label ++ " (" ++ toString g.tests.length ++ " tests)"))

/-- The warning about a category that is not there. -/
def missingCategory (groups : List TestGroup) (request : String) : String :=
  "warning: category '" ++ request ++ "' not found (available: " ++
    ", ".intercalate (groups.map TestGroup.label) ++ ")"

/-- Runs tests. A file that is named is run whatever categories are asked for. -/
def testCommand (disk : Disk) (settings : Settings) (plain : Bool) (path : String)
    (requests : List String) : Report :=
  match TestGroup.find disk path with
  | [] => .ofMessages .failed (noTests path)
  | groups =>
    let selection := TestSelection.of groups (if disk.isFile path then [] else requests)
    let warnings := selection.missing.map (missingCategory groups)
    match selection.groups with
    | [] => .ofMessages .failed (joinLines (warnings ++ ["no matching categories found"]))
    | chosen =>
      let report : TestReport := ⟨chosen.map (GroupResult.ofGroup settings)⟩
      .ofMessages (if report.failed = 0 then .done else .failed)
        (joinLines (warnings ++ report.lines plain))

/-! ## The program -/

/-- What the arguments lead to. -/
inductive Job where
  | report (r : Report)
  | run (t : RunTask)

namespace Job

/-- What a command leads to. -/
def ofCommand (disk : Disk) (settings : Settings) (plain : Bool) : Command → Except Report Job
  | .run path chain time quiet => .run <$> RunTask.begin disk settings path chain time quiet
  | .check path => .report <$> checkCommand disk path
  | .list path => .report <$> listCommand disk path
  | .test path requests => .ok (.report (testCommand disk settings plain path requests))
  | .categories path => .ok (.report (categoriesCommand disk path))

/-- What an invocation leads to. -/
def ofInvocation (disk : Disk) (i : Invocation) : Except Report Job :=
  match Configuration.load disk i.config with
  | .error problem => .error (.ofError problem.message)
  | .ok configuration => ofCommand disk configuration.engine i.noColor i.command

/-- The paths that an invocation looks at. -/
def pathsOf (i : Invocation) : List String :=
  [i.config.getD Configuration.standardPath, i.command.path]

/-- What arguments lead to. -/
def ofArguments (disk : Disk) (arguments : List String) : Job :=
  match Arguments.parse arguments with
  | none => .report (.ofMessages .misused "")
  | some i =>
    match ofInvocation disk i with
    | .ok job => job
    | .error r => .report r

/-- The report of a job, if a run ends within so many looks. -/
def finish (looks : Nat) : Job → Option Report
  | .report r => some r
  | .run t =>
    match t.session.drive looks with
    | .ok (some outcome, session) => some ({ t with session := session }.report outcome)
    | .ok (none, _) => none
    | .error e => some (.ofError e.message)

end Job

end Blockwork
