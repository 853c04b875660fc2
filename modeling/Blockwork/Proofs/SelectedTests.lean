import Blockwork.CommandLine.Commands
import Blockwork.Proofs.Folders
import Blockwork.Proofs.Paths

/-!
# Which tests are run

The tests of a folder are grouped by category, and the groups that are asked for are run. So each
test in a folder that is asked for is run once, by category and in each category by path, however
often and in however many ways its folder is asked for. The command succeeds when there was a test
to run and all of them have passed.

## Main statements

* `TestGroup.ordered_ofTests`, `TestGroup.mem_ofTests`: what is in the groups, and in which order.
* `runsTests`: what a command to run tests reports.
* `testCommand_of_folder`: which tests of a folder are run.
-/

namespace Blockwork

/-! ## Lists in order -/

theorem nodup_eraseDups (texts : List String) : texts.eraseDups.Nodup := by
  match texts with
  | [] => exact List.nodup_nil
  | text :: texts =>
    rw [List.eraseDups_cons, List.nodup_cons, List.mem_eraseDups]
    exact ⟨by simp, nodup_eraseDups _⟩
termination_by texts.length
decreasing_by exact Nat.lt_succ_of_le (List.length_filter_le _ _)

/-- Where no two have the same key, none comes before one that is in front of it. -/
theorem pairwise_mergeSort_of_keys {α β : Type} (le : α → α → Prop) [DecidableRel le]
    {key : α → β} {items : List α} (trans : ∀ {a b c}, le a b → le b c → le a c)
    (total : ∀ a b, le a b ∨ le b a) (antisymm : ∀ {a b}, le a b → le b a → key a = key b)
    (distinct : (items.map key).Nodup) :
    (items.mergeSort fun a b => le a b).Pairwise fun a b => ¬le b a := by
  have sorted : (items.mergeSort fun a b => le a b).Pairwise fun a b => decide (le a b) = true := by
    refine List.pairwise_mergeSort (fun a b c ab bc => ?_) (fun a b => ?_) items
    · exact decide_eq_true (trans (of_decide_eq_true ab) (of_decide_eq_true bc))
    · simpa using total a b
  have apart : ((items.mergeSort fun a b => le a b).map key).Nodup :=
    ((List.mergeSort_perm items _).map key).nodup_iff.mpr distinct
  exact sorted.imp₂ (fun a b up apart down => apart (antisymm (of_decide_eq_true up) down))
    (List.pairwise_map.mp apart)

/-! ## Tests by category -/

/-- The order in which tests are run: by category, and in a category by the names on the way. -/
def FoundTest.Before (s t : FoundTest) : Prop :=
  s.category < t.category ∨ s.category = t.category ∧ List.lt s.parts t.parts

namespace TestGroup

/-- The categories of some tests, in order. -/
def categoriesOf (tests : List FoundTest) : List String :=
  ((tests.map FoundTest.category).eraseDups).mergeSort fun a b => a ≤ b

/-- The tests of a category, in order. -/
def groupOf (tests : List FoundTest) (category : String) : TestGroup :=
  ⟨category, (tests.filter fun t => t.category = category).mergeSort fun a b =>
    List.le a.parts b.parts⟩

theorem ofTests_eq (tests : List FoundTest) :
    ofTests tests = (categoriesOf tests).map (groupOf tests) :=
  rfl

variable {tests : List FoundTest} {category : String} {t : FoundTest} {g : TestGroup}

theorem mem_categoriesOf : category ∈ categoriesOf tests ↔ ∃ t ∈ tests, t.category = category := by
  rw [categoriesOf, List.mem_mergeSort, List.mem_eraseDups, List.mem_map]

theorem ordered_categoriesOf (tests : List FoundTest) :
    (categoriesOf tests).Pairwise fun a b => a < b := by
  have distinct : ((tests.map FoundTest.category).eraseDups.map id).Nodup := by
    rw [List.map_id]
    exact nodup_eraseDups _
  have sorted := pairwise_mergeSort_of_keys (fun a b : String => a ≤ b) String.le_trans
    String.le_total String.le_antisymm distinct
  exact sorted.imp String.not_le.mp

theorem mem_groupOf : t ∈ (groupOf tests category).tests ↔ t ∈ tests ∧ t.category = category := by
  rw [groupOf, List.mem_mergeSort, List.mem_filter, decide_eq_true_iff]

theorem ordered_groupOf (distinct : (tests.map FoundTest.parts).Nodup) (category : String) :
    (groupOf tests category).tests.Pairwise fun s t => List.lt s.parts t.parts := by
  have apart : ((tests.filter fun t => t.category = category).map FoundTest.parts).Nodup :=
    distinct.sublist (List.filter_sublist.map _)
  have sorted := pairwise_mergeSort_of_keys (fun s t : FoundTest => List.le s.parts t.parts)
    List.le_trans (fun s t => List.le_total s.parts t.parts) List.le_antisymm apart
  exact sorted.imp fun later => Classical.not_not.mp later

/-- What is in the groups. -/
theorem mem_ofTests (tests : List FoundTest) :
    t ∈ (ofTests tests).flatMap TestGroup.tests ↔ t ∈ tests := by
  rw [ofTests_eq, List.flatMap_map, List.mem_flatMap]
  constructor
  · rintro ⟨category, -, among⟩
    exact (mem_groupOf.mp among).1
  · intro among
    exact ⟨t.category, mem_categoriesOf.mpr ⟨t, among, rfl⟩, mem_groupOf.mpr ⟨among, rfl⟩⟩

theorem category_of_mem (h : g ∈ ofTests tests) (among : t ∈ g.tests) :
    t.category = g.category := by
  rw [ofTests_eq, List.mem_map] at h
  obtain ⟨category, -, rfl⟩ := h
  exact (mem_groupOf.mp among).2

/-- **The groups are in the order in which tests are run.** -/
theorem ordered_ofTests (distinct : (tests.map FoundTest.parts).Nodup) :
    ((ofTests tests).flatMap TestGroup.tests).Pairwise FoundTest.Before := by
  rw [ofTests_eq, List.flatMap_map, List.pairwise_flatMap]
  constructor
  · intro category _
    refine (ordered_groupOf distinct category).imp_of_mem fun hs ht less => .inr ⟨?_, less⟩
    rw [(mem_groupOf.mp hs).2, (mem_groupOf.mp ht).2]
  · refine (ordered_categoriesOf tests).imp fun less s hs t ht => .inl ?_
    rw [(mem_groupOf.mp hs).2, (mem_groupOf.mp ht).2]
    exact less

/-- No group that is found is empty. -/
theorem tests_ne_nil {disk : Disk} {path : String} (h : g ∈ find disk path) : g.tests ≠ [] := by
  unfold find at h
  split at h
  · obtain rfl := List.mem_singleton.mp h
    simp
  · rw [ofTests_eq, List.mem_map] at h
    obtain ⟨category, among, rfl⟩ := h
    obtain ⟨t, found, same⟩ := mem_categoriesOf.mp among
    exact List.ne_nil_of_mem (mem_groupOf.mpr ⟨found, same⟩)
  · cases h

end TestGroup

/-! ## The tests that are asked for -/

/-- What a command to run tests selects. -/
def TestSelection.ofCommand (disk : Disk) (path : String) (requests : List String) :
    TestSelection :=
  .of (TestGroup.find disk path) (if disk.isFile path then [] else requests)

/-- The tests that a command runs, in the order in which it runs them. -/
def testsRun (disk : Disk) (path : String) (requests : List String) : List FoundTest :=
  (TestSelection.ofCommand disk path requests).groups.flatMap TestGroup.tests

/-- Whether a group is asked for. All are if none is. -/
def TestGroup.isAsked (g : TestGroup) (requests : List String) : Bool :=
  requests.isEmpty || requests.any fun r => g.isWithin (trimRequest r)

theorem TestSelection.groups_of (groups : List TestGroup) (requests : List String) :
    (TestSelection.of groups requests).groups = groups.filter fun g => g.isAsked requests := by
  unfold of
  cases requests with
  | nil => simp [TestGroup.isAsked]
  | cons request requests =>
    rw [if_neg (by simp)]
    simp [TestGroup.isAsked, List.any_map, Function.comp_def]

section Folder

variable {disk : Disk} {path : String} {requests : List String} {t : FoundTest}
  {entries : List (String × FileTree)}

theorem testsRun_eq (leads : disk path = .ok (.folder entries)) :
    testsRun disk path requests =
      ((TestGroup.ofTests ((FileTree.folder entries).tests [] path)).filter
        fun g => g.isAsked requests).flatMap TestGroup.tests := by
  simp [testsRun, TestSelection.ofCommand, TestSelection.groups_of, TestGroup.find, Disk.isFile,
    leads]

/-- Which tests are run: those of the categories that are asked for. -/
theorem mem_testsRun (leads : disk path = .ok (.folder entries)) :
    t ∈ testsRun disk path requests ↔ t ∈ (FileTree.folder entries).tests [] path ∧
      (requests = [] ∨ ∃ r ∈ requests, pathParts (trimRequest r) <+: pathParts t.category) := by
  have asked {g : TestGroup} (category : t.category = g.category) : g.isAsked requests ↔
      (requests = [] ∨ ∃ r ∈ requests, pathParts (trimRequest r) <+: pathParts t.category) := by
    simp only [TestGroup.isAsked, Bool.or_eq_true, List.isEmpty_iff, List.any_eq_true,
      TestGroup.isWithin_iff, category]
  rw [testsRun_eq leads, ← TestGroup.mem_ofTests ((FileTree.folder entries).tests [] path),
    List.mem_flatMap, List.mem_flatMap]
  constructor
  · rintro ⟨g, chosen, among⟩
    obtain ⟨found, isAsked⟩ := List.mem_filter.mp chosen
    exact ⟨⟨g, found, among⟩, (asked (TestGroup.category_of_mem found among)).mp isAsked⟩
  · rintro ⟨⟨g, found, among⟩, requested⟩
    have isAsked := (asked (TestGroup.category_of_mem found among)).mpr requested
    exact ⟨g, List.mem_filter.mpr ⟨found, isAsked⟩, among⟩

theorem ordered_testsRun (leads : disk path = .ok (.folder entries))
    (proper : (FileTree.folder entries).Proper) (requests : List String) :
    (testsRun disk path requests).Pairwise FoundTest.Before := by
  have all := TestGroup.ordered_ofTests (FileTree.nodup_tests proper [] path)
  rw [List.pairwise_flatMap] at all
  rw [testsRun_eq leads, List.pairwise_flatMap]
  exact ⟨fun g chosen => all.1 g (List.mem_of_mem_filter chosen), all.2.sublist List.filter_sublist⟩

end Folder

/-! ## What is reported -/

namespace TestReport

theorem failed_eq_zero_iff {r : TestReport} : r.failed = 0 ↔ ∀ t ∈ r.results, t.passed := by
  simp [failed, List.countP_eq_zero]

theorem results_ofGroups (settings : Settings) (groups : List TestGroup) :
    (TestReport.mk (groups.map (GroupResult.ofGroup settings))).results =
      (groups.flatMap TestGroup.tests).map (TestResult.ofTest settings) := by
  simp [results, GroupResult.ofGroup, List.flatMap_map, List.map_flatMap]

end TestReport

section Report

variable (disk : Disk) (settings : Settings) (plain : Bool) (path : String) (requests : List String)

/-- The warnings about categories that are not there. -/
def TestSelection.warnings : List String :=
  (TestSelection.ofCommand disk path requests).missing.map
    (missingCategory (TestGroup.find disk path))

/-- The report of the tests that a command runs. -/
def TestReport.ofCommand : TestReport :=
  ⟨(TestSelection.ofCommand disk path requests).groups.map (GroupResult.ofGroup settings)⟩

/-- What is said if there is no test to run. -/
def SaysNoTests (messages : String) : Prop :=
  messages = noTests path ∨ messages =
    joinLines (TestSelection.warnings disk path requests ++ ["no matching categories found"])

/-- A command selects nothing and says so, or reports on what it selects. -/
theorem testCommand_cases :
    ((TestSelection.ofCommand disk path requests).groups = [] ∧ ∃ messages,
      testCommand disk settings plain path requests = .ofMessages .failed messages ∧
        SaysNoTests disk path requests messages) ∨
    ((TestSelection.ofCommand disk path requests).groups ≠ [] ∧
      testCommand disk settings plain path requests =
        .ofMessages (if (TestReport.ofCommand disk settings path requests).failed = 0 then .done
            else .failed)
          (joinLines (TestSelection.warnings disk path requests ++
            (TestReport.ofCommand disk settings path requests).lines plain))) := by
  unfold testCommand
  cases found : TestGroup.find disk path with
  | nil =>
    refine .inl ⟨?_, noTests path, rfl, .inl rfl⟩
    rw [TestSelection.ofCommand, TestSelection.groups_of, found, List.filter_nil]
  | cons g groups =>
    cases chosen : (TestSelection.ofCommand disk path requests).groups with
    | nil =>
      refine .inl ⟨rfl, _, ?_, .inr rfl⟩
      rw [TestSelection.ofCommand, found] at chosen
      simp only [chosen]
      rw [TestSelection.warnings, TestSelection.ofCommand, found]
    | cons first rest =>
      refine .inr ⟨List.cons_ne_nil _ _, ?_⟩
      have same := chosen
      rw [TestSelection.ofCommand, found] at same
      simp only [same]
      rw [TestSelection.warnings, TestReport.ofCommand, chosen, TestSelection.ofCommand, found]

variable {disk path requests} in
theorem testsRun_eq_nil_iff : testsRun disk path requests = [] ↔
    (TestSelection.ofCommand disk path requests).groups = [] := by
  rw [testsRun, List.flatMap_eq_nil_iff, List.eq_nil_iff_forall_not_mem]
  refine forall_congr' fun g => ⟨fun h chosen => ?_, fun h chosen => absurd chosen h⟩
  have found : g ∈ TestGroup.find disk path := by
    rw [TestSelection.ofCommand, TestSelection.groups_of] at chosen
    exact List.mem_of_mem_filter chosen
  exact TestGroup.tests_ne_nil found (h chosen)

theorem TestReport.results_ofCommand :
    (TestReport.ofCommand disk settings path requests).results =
      (testsRun disk path requests).map (TestResult.ofTest settings) :=
  TestReport.results_ofGroups settings _

/-- A command runs some tests, in their order, and nothing else. It succeeds just when there are
some and all of them have passed. -/
structure RunsTests (tests : List FoundTest) : Prop where
  status : (testCommand disk settings plain path requests).status.code = 0 ↔
    tests ≠ [] ∧ ∀ t ∈ tests, (TestResult.ofTest settings t).passed
  reports : tests ≠ [] → ∃ r : TestReport, r.results = tests.map (TestResult.ofTest settings) ∧
    (testCommand disk settings plain path requests).messages =
      joinLines (TestSelection.warnings disk path requests ++ r.lines plain)
  silent : tests = [] →
    SaysNoTests disk path requests (testCommand disk settings plain path requests).messages

/-- **A command runs the tests that it selects.** -/
theorem runsTests : RunsTests disk settings plain path requests (testsRun disk path requests) := by
  rcases testCommand_cases disk settings plain path requests with
    ⟨chosen, messages, is, reason⟩ | ⟨chosen, is⟩
  · have empty := testsRun_eq_nil_iff.mpr chosen
    refine ⟨?_, fun h => absurd empty h, fun _ => ?_⟩
    · rw [is, empty]
      simp [Report.ofMessages, ExitStatus.code]
    · rw [is]
      exact reason
  · have full := mt testsRun_eq_nil_iff.mp chosen
    refine ⟨?_, fun _ => ?_, fun h => absurd h full⟩
    · have passes : (TestReport.ofCommand disk settings path requests).failed = 0 ↔
          ∀ t ∈ testsRun disk path requests, (TestResult.ofTest settings t).passed := by
        rw [TestReport.failed_eq_zero_iff, TestReport.results_ofCommand, List.forall_mem_map]
      rw [is, and_iff_right full, ← passes]
      by_cases failed : (TestReport.ofCommand disk settings path requests).failed = 0
      · simp [failed, Report.ofMessages, ExitStatus.code]
      · simp [failed, Report.ofMessages, ExitStatus.code]
    · rw [is]
      exact ⟨_, TestReport.results_ofCommand disk settings path requests, rfl⟩

end Report

/-! ## The tests of a folder -/

/-- Tests are those of a folder that are in the folders that are asked for, each of them once, by
category and in each category by path. What the names on the way to a test are as a folder is up to
`reads`. -/
structure Selected (reads : List String → List String) (t : FileTree) (path : String)
    (requests : List String) (tests : List FoundTest) : Prop where
  once : (tests.map FoundTest.parts).Nodup
  ordered : tests.Pairwise FoundTest.Before
  mem_iff (x : FoundTest) : x ∈ tests ↔
    (t.at? x.parts = some (.file x.content) ∧ x.path = x.parts.foldl joinPath path ∧
      endsWithText (x.parts.getLastD "") testEnding) ∧
    (requests = [] ∨ ∃ r ∈ requests, pathParts (trimRequest r) <+: reads x.parts.dropLast)

section Folder

variable {disk : Disk} {path : String} {requests : List String} {x : FoundTest}
  {entries : List (String × FileTree)}

theorem FoundTest.Before.parts_ne {s t : FoundTest} (h : s.Before t) : s.parts ≠ t.parts := by
  intro same
  rcases h with less | ⟨-, less⟩
  · rw [FoundTest.category, FoundTest.category, same] at less
    exact String.lt_irrefl _ less
  · rw [same] at less
    exact List.lt_irrefl _ less

/-- A category that is asked for by more than slashes is asked for by the folders on the way. -/
theorem prefix_category_iff {t : FileTree} (proper : t.Proper)
    (leads : t.at? x.parts = some (.file x.content)) {request : String} (named : request ≠ "") :
    pathParts request <+: pathParts x.category ↔
      pathParts request <+: folderParts x.parts.dropLast := by
  rw [FoundTest.pathParts_category fun name among =>
    FileTree.plain_of_at? proper leads name (List.mem_of_mem_dropLast among)]
  split
  next root =>
    rw [root]
    constructor
    · exact fun h => absurd (pathParts_prefix_empty h) named
    · exact fun h => absurd (List.prefix_nil.mp h) (pathParts_ne_nil request)
  next => rfl

/-- **Which tests of a folder are run.** Nothing is said of a disk that has a folder which may not
be read, or a name which is not text, as `FileTree` has neither. -/
theorem testCommand_of_folder (leads : disk path = .ok (.folder entries))
    (proper : (FileTree.folder entries).Proper) (named : ∀ r ∈ requests, trimRequest r ≠ "")
    (settings : Settings) (plain : Bool) :
    RunsTests disk settings plain path requests (testsRun disk path requests) ∧
      Selected folderParts (.folder entries) path requests (testsRun disk path requests) := by
  have ordered := ordered_testsRun leads proper requests
  refine ⟨runsTests disk settings plain path requests,
    List.pairwise_map.mpr (ordered.imp FoundTest.Before.parts_ne), ordered, fun x => ?_⟩
  rw [mem_testsRun leads, FileTree.mem_tests_iff proper]
  constructor
  · rintro ⟨⟨parts, content, leads, ending, rfl⟩, requested⟩
    refine ⟨⟨leads, rfl, ending⟩, requested.imp_right ?_⟩
    rintro ⟨r, among, within⟩
    exact ⟨r, among, (prefix_category_iff proper leads (named r among)).mp within⟩
  · rintro ⟨⟨leads, place, ending⟩, requested⟩
    refine ⟨⟨x.parts, x.content, leads, ending, ?_⟩, requested.imp_right ?_⟩
    · rw [List.nil_append, ← place]
    · rintro ⟨r, among, within⟩
      exact ⟨r, among, (prefix_category_iff proper leads (named r among)).mpr within⟩

end Folder

/-! ## Names with a backslash -/

/-- A file with no expectations and no program. -/
def blankTest : FileTree := .file (.ok "---\n\n---\n")

/-- Folders whose names begin alike, one of them with a backslash. -/
def alikeFolders : List (String × FileTree) :=
  [("a", .folder [("x.test.blocks", blankTest)]), ("ab", .folder [("y.test.blocks", blankTest)]),
    ("a\\b", .folder [("z.test.blocks", blankTest)])]

theorem proper_alikeFolders : (FileTree.folder alikeFolders).Proper := by
  have single {name : String} (plain : '/' ∉ name.toList) :
      (FileTree.folder [(name, blankTest)]).Proper :=
    .folder (List.nodup_singleton name) (by simpa using plain) (by simpa using .file _)
  refine .folder (by decide) (by decide) ?_
  simp only [alikeFolders, List.forall_mem_cons]
  exact ⟨single (by decide), single (by decide), single (by decide), by simp⟩

/-- Of folders whose names begin alike, those that are asked for are run. -/
theorem testCommand_of_alikeFolders :
    (FileTree.folder alikeFolders).Proper ∧ (∀ r ∈ ["/a/", "b", "a"], trimRequest r ≠ "") ∧
      RunsTests (fun _ => .ok (.folder alikeFolders)) .standard true "t" ["/a/", "b", "a"]
        (testsRun (fun _ => .ok (.folder alikeFolders)) "t" ["/a/", "b", "a"]) ∧
      Selected folderParts (.folder alikeFolders) "t" ["/a/", "b", "a"]
        (testsRun (fun _ => .ok (.folder alikeFolders)) "t" ["/a/", "b", "a"]) :=
  ⟨proper_alikeFolders, by decide,
    testCommand_of_folder rfl proper_alikeFolders (by decide) .standard true⟩

/-- A backslash is not read as it stands: a test in a folder of the name `a\b` is run when the tests
in the folder `a` are asked for, which it is not in. -/
theorem not_selected_backslash :
    (FileTree.folder alikeFolders).Proper ∧ trimRequest "a" ≠ "" ∧
      RunsTests (fun _ => .ok (.folder alikeFolders)) .standard true "t" ["a"]
        (testsRun (fun _ => .ok (.folder alikeFolders)) "t" ["a"]) ∧
      ¬Selected (fun folder => folder) (.folder alikeFolders) "t" ["a"]
        (testsRun (fun _ => .ok (.folder alikeFolders)) "t" ["a"]) := by
  refine ⟨proper_alikeFolders, by decide, runsTests _ _ _ _ _, fun selected => ?_⟩
  let z : FoundTest := ⟨["a\\b", "z.test.blocks"], "t/a\\b/z.test.blocks", .ok "---\n\n---\n"⟩
  have found : z ∈ (FileTree.folder alikeFolders).tests [] "t" :=
    (FileTree.mem_tests_iff proper_alikeFolders).mpr ⟨z.parts, z.content, rfl, by decide, rfl⟩
  have run : z ∈ testsRun (fun _ => .ok (.folder alikeFolders)) "t" ["a"] :=
    (mem_testsRun rfl).mpr ⟨found, .inr ⟨"a", List.mem_singleton_self _, by decide⟩⟩
  obtain ⟨-, none | ⟨r, asked, within⟩⟩ := (selected.mem_iff z).mp run
  · cases none
  · obtain rfl := List.mem_singleton.mp asked
    exact absurd within (by decide)

end Blockwork
