import Blockwork.CommandLine.Commands

/-!
# The program

Reads the files that the arguments name, does what they ask for, and writes the report. What a run
prints appears while it goes on, and a run that sleeps is waited for.
-/

namespace Blockwork

/-- Why a file cannot be read. -/
def FileError.ofIO : IO.Error → FileError
  | .noFileOrDirectory .. => .notFound
  | .inappropriateType .. => .notFolder
  | .permissionDenied .. => .notPermitted
  | e => .other (toString e)

/-- Reads a file. -/
def readContent (path : String) : IO (Except FileError String) := do
  try
    match String.fromUTF8? (← IO.FS.readBinFile path) with
    | some text => return .ok text
    | none => return .error .notText
  catch e => return .error (.ofIO e)

/-- The names in a folder, if there is a folder. -/
def namesIn (path : String) : IO (Option (List String)) := do
  try
    let folder ← IO.FS.realPath path
    let entries ← folder.readDir
    return some (entries.toList.map fun e => e.fileName)
  catch _ => return none

/-- Reads a file or a folder, with so many folders inside one another. -/
def readTree (path : String) : Nat → IO FileTree
  | 0 => return .folder []
  | depth + 1 => do
    match ← namesIn path with
    | none => return .file (← readContent path)
    | some names =>
      let entries ← names.mapM fun name => do
        return (name, ← readTree (joinPath path name) depth)
      return .folder entries

/-- How many folders may be inside one another. -/
def folderDepth : Nat := 64

/-- What a path leads to. -/
def readPath (path : String) : IO (Except FileError FileTree) := do
  match ← readTree path folderDepth with
  | .file (.error .notText) => return .ok (.file (.error .notText))
  | .file (.error e) => return .error e
  | t => return .ok t

/-- What the given paths lead to. -/
def readDisk (paths : List String) : IO Disk := do
  let found ← paths.mapM fun path => do return (path, ← readPath path)
  return fun path => ((found.find? fun e => e.1 = path).map Prod.snd).getD (.error .notFound)

/-- Waits until as much time has passed as a session that sleeps has counted. -/
def catchUp (s : Session) (began : Nat) : IO Unit := do
  if s.wake.isSome then
    let passed := (← IO.monoMsNow) - began
    IO.sleep (UInt32.ofNat (s.clock / Session.millisecond - passed))

/-- Drives a run to its end. -/
def driveTask (t : RunTask) : IO Report := do
  let began ← IO.monoMsNow
  let output ← IO.getStdout
  let mut t := t
  repeat
    match t.session.look with
    | .error e => return .ofError e.message
    | .ok (some outcome, s) => return { t with session := s }.report outcome
    | .ok (none, s) =>
      let (text, rest) := { t with session := s }.takePrinted
      output.putStr text
      output.flush
      catchUp s began
      t := rest
  return .ofError "the run was lost"

/-- Does what the arguments ask for. -/
def perform (arguments : List String) : IO Report := do
  let paths := ((Arguments.parse arguments).map Job.pathsOf).getD []
  match Job.ofArguments (← readDisk paths) arguments with
  | .report r => return r
  | .run t => driveTask t

end Blockwork

/-- The program. -/
def main (arguments : List String) : IO UInt32 := do
  let r ← Blockwork.perform arguments
  (← IO.getStdout).putStr r.output
  (← IO.getStderr).putStr r.messages
  return UInt32.ofNat r.status.code
