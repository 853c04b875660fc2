import Blockwork.CommandLine.Files
import Blockwork.Settings
import Blockwork.Toml.Record

/-!
# The configuration file

A file in TOML with the settings of the engine. A file that is named must be there; otherwise one of
a fixed name is taken if it is there.
-/

namespace Blockwork

namespace Settings

/-- A setting. -/
def tomlNumber : Toml → Option Nat := Toml.asNatural UInt64.size

/-- Reads settings from members; any that is missing is a standard one. -/
def ofMembers (members : Toml.Members) : Option Settings :=
  Settings.mk <$> Toml.field members "max_call_depth" standard.maxCallDepth tomlNumber <*>
    Toml.field members "stop_grace_ms" standard.stopGrace tomlNumber <*>
    Toml.field members "worker_stack_size" standard.workerStackSize tomlNumber <*>
    Toml.field members "poll_interval_ms" standard.pollInterval tomlNumber

/-- Reads settings: by name, or in their order. A date holds none of them. -/
def ofToml : Toml → Option Settings
  | .table _ members => ofMembers members
  | .array _ items => ofMembers (names.zip items)
  | .moment _ => some standard
  | _ => none

end Settings

/-- What a configuration file says. -/
structure Configuration where
  logLevel : Option String
  engine : Settings
deriving DecidableEq, Repr

namespace Configuration

/-- The configuration without a file. -/
def standard : Configuration := ⟨none, .standard⟩

/-- The file that is looked for when none is named. -/
def standardPath : String := "blocks.toml"

/-- Reads a configuration. -/
def parse (text : String) : Option Configuration := do
  let members ← Toml.parse text
  if Toml.knows ["log_level", "engine"] members then
    Configuration.mk <$> Toml.optionalField members "log_level" Toml.asText <*>
      Toml.field members "engine" Settings.standard Settings.ofToml
  else none

/-- Why there is no configuration. -/
inductive Problem where
  | unreadable (path : String) (error : FileError)
  | invalid (path : String)
deriving DecidableEq, Repr

/-- What a problem says. -/
def Problem.message : Problem → String
  | .unreadable path error => "cannot read '" ++ path ++ "': " ++ error.message
  | .invalid path => "invalid config '" ++ path ++ "': not the TOML that is expected"

/-- Reads the configuration in a file. -/
def readFile (disk : Disk) (path : String) : Except Problem Configuration :=
  match disk.read path with
  | .error e => .error (.unreadable path e)
  | .ok text =>
    match parse text with
    | none => .error (.invalid path)
    | some c => .ok c

/-- The configuration, from the named file if there is a name. -/
def load (disk : Disk) : Option String → Except Problem Configuration
  | some path => readFile disk path
  | none => if disk.isFile standardPath then readFile disk standardPath else .ok standard

end Configuration

end Blockwork
