import Blockwork.Text.Lines

/-!
# Files

The files that a command may look at are a tree of folders. A path is followed part by part from the
folder where the command is given.
-/

namespace Blockwork

/-- Why a file cannot be read. -/
inductive FileError where
  | notFound
  /-- Something on the way is not a folder. -/
  | notFolder
  /-- What is there is a folder. -/
  | isFolder
  | notPermitted
  | notText
  | other (reason : String)
deriving DecidableEq, Repr, Inhabited

/-- What an error says. -/
def FileError.message : FileError → String
  | .notFound => "No such file or directory (os error 2)"
  | .notFolder => "Not a directory (os error 20)"
  | .isFolder => "Is a directory (os error 21)"
  | .notPermitted => "Permission denied (os error 13)"
  | .notText => "stream did not contain valid UTF-8"
  | .other reason => reason

/-- A file or a folder. Every folder can be looked into and every name is a text: folders that may
not be read, and names that are not text, have no place in the tree. -/
inductive FileTree where
  /-- A text, or why there is none to be had. -/
  | file (content : Except FileError String)
  | folder (entries : List (String × FileTree))
deriving Inhabited

/-- The parts of a path. -/
def pathParts (path : String) : List String := splitText '/' path

/-- The name that a path ends with. -/
def fileName (path : String) : String := (pathParts path).getLastD ""

/-- The path of an entry of a folder. -/
def joinPath (folder name : String) : String :=
  if endsWithText folder "/" then folder ++ name else folder ++ "/" ++ name

namespace FileTree

/-- The entry of a folder. -/
def named? (entries : List (String × FileTree)) (name : String) : Option FileTree :=
  (entries.find? fun e => e.1 = name).map Prod.snd

/-- Follows the parts of a path; `above` are the folders around this one, innermost first. -/
def follow (here : FileTree) (above : List FileTree) : List String → Except FileError FileTree
  | [] => .ok here
  | part :: rest =>
    match here with
    | .file _ => .error .notFolder
    | .folder entries =>
      if part = "" || part = "." then follow here above rest
      else if part = ".." then
        match above with
        | [] => .error .notFound
        | up :: above => follow up above rest
      else
        match named? entries part with
        | some next => follow next (here :: above) rest
        | none => .error .notFound

/-- What a path leads to. A path from the root of all folders leads out of the tree. -/
def find (t : FileTree) (path : String) : Except FileError FileTree :=
  if startsWithText path "/" then .error .notFound else t.follow [] (pathParts path)

/-- Puts a file at the end of a path of names, with folders on the way. -/
def put (text : String) : List String → FileTree → FileTree
  | [], _ => .file (.ok text)
  | name :: path, .folder entries =>
    let inner := put text path ((named? entries name).getD (.folder []))
    .folder ((entries.filter fun e => e.1 ≠ name) ++ [(name, inner)])
  | name :: path, .file _ => .folder [(name, put text path (.folder []))]

end FileTree

/-- What the paths that a command names lead to. -/
abbrev Disk : Type := String → Except FileError FileTree

namespace Disk

/-- The text of a file. -/
def read (disk : Disk) (path : String) : Except FileError String :=
  match disk path with
  | .ok (.file content) => content
  | .ok (.folder _) => .error .isFolder
  | .error e => .error e

/-- Whether there is a file. -/
def isFile (disk : Disk) (path : String) : Bool :=
  match disk path with
  | .ok (.file _) => true
  | _ => false

end Disk

end Blockwork
