import Blockwork.CommandLine.Files

/-!
# Finding tests

The test files in a folder, and in all folders inside, are those of a certain ending. The folder of
a test file is its category.
-/

namespace Blockwork

/-- The ending of a test file. -/
def testEnding : String := ".test.blocks"

/-- A file with a test. -/
structure FoundTest where
  /-- The folders inside the one that was searched, and the name of the file. -/
  parts : List String
  path : String
  content : Except FileError String

namespace FoundTest

/-- The category of a test. -/
def category (t : FoundTest) : String :=
  String.ofList (("/".intercalate t.parts.dropLast).toList.map fun c => if c = '\\' then '/' else c)

/-- The name of a test that does not describe itself. -/
def label (t : FoundTest) : String :=
  let name := fileName t.path
  if endsWithText name testEnding then
    String.ofList (name.toList.take (name.length - testEnding.length))
  else "?"

end FoundTest

mutual

/-- The tests of a file or a folder. -/
def FileTree.tests (parts : List String) (path : String) : FileTree → List FoundTest
  | .file content =>
    if endsWithText (parts.getLastD "") testEnding then [⟨parts, path, content⟩] else []
  | .folder entries => testsOfEntries parts path entries

/-- The tests of the entries of a folder. -/
def FileTree.testsOfEntries (parts : List String) (path : String) :
    List (String × FileTree) → List FoundTest
  | [] => []
  | (name, t) :: rest =>
    t.tests (parts ++ [name]) (joinPath path name) ++ testsOfEntries parts path rest

end

/-- Tests by category. -/
structure TestGroup where
  category : String
  tests : List FoundTest

namespace TestGroup

/-- How a category is shown. -/
def label (g : TestGroup) : String := if g.category = "" then "(root)" else g.category

/-- Groups tests by category. The categories are in order, and the tests in each of them. -/
def ofTests (tests : List FoundTest) : List TestGroup :=
  let categories := ((tests.map FoundTest.category).eraseDups).mergeSort fun a b => a ≤ b
  categories.map fun category =>
    let those := tests.filter fun t => t.category = category
    ⟨category, those.mergeSort fun a b => List.le a.parts b.parts⟩

/-- The tests that a path leads to. A file is a test whatever its name is. -/
def find (disk : Disk) (path : String) : List TestGroup :=
  match disk path with
  | .ok (.file content) => [⟨"", [⟨[fileName path], path, content⟩]⟩]
  | .ok folder => ofTests (folder.tests [] path)
  | .error _ => []

/-- Whether a category is asked for: by its own name, or by that of a folder around it. -/
def isWithin (g : TestGroup) (request : String) : Bool :=
  g.category = request || startsWithText g.category (request ++ "/")

end TestGroup

/-- A category as it is asked for, without slashes at its ends. -/
def trimRequest (request : String) : String :=
  let isSlash (c : Char) : Bool := c = '/'
  String.ofList ((request.toList.dropWhile isSlash).reverse.dropWhile isSlash).reverse

/-- Which tests are to be run. -/
structure TestSelection where
  groups : List TestGroup
  /-- The categories that were asked for and are not there. -/
  missing : List String

/-- Selects the tests of some categories, or all tests if none are asked for. -/
def TestSelection.of (groups : List TestGroup) (requests : List String) : TestSelection :=
  if requests.isEmpty then ⟨groups, []⟩
  else
    let requests := requests.map trimRequest
    ⟨groups.filter fun g => requests.any g.isWithin,
      requests.filter fun request => !groups.any fun g => g.isWithin request⟩

end Blockwork
