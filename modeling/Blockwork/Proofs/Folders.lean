import Blockwork.CommandLine.TestSelection
import Mathlib.Data.List.Nodup
import Mathlib.Data.List.Flatten

/-!
# Walks over folders

The tests of a folder are the files inside, at any depth, that have the ending of a test. In a
folder as there is one on a disk, where the names are apart and have no slash, every such file is
found once, under the names that lead to it.

## Main statements

* `FileTree.Proper.put`: a file that is put at a path of names leaves the folders proper.
* `FileTree.mem_tests_iff`: which tests are found.
* `FileTree.nodup_tests`: every test is found once.
-/

namespace Blockwork

namespace FileTree

/-- What a path of names leads to. -/
def at? : FileTree → List String → Option FileTree
  | t, [] => some t
  | .file _, _ :: _ => none
  | .folder entries, name :: path => (named? entries name).bind fun t => t.at? path

/-- A file, or a folder whose entries have names of their own, none with a slash. -/
inductive Proper : FileTree → Prop where
  | file (content : Except FileError String) : Proper (.file content)
  | folder {entries : List (String × FileTree)} (distinct : (entries.map Prod.fst).Nodup)
      (plain : ∀ e ∈ entries, '/' ∉ e.1.toList) (inner : ∀ e ∈ entries, e.2.Proper) :
      Proper (.folder entries)

variable {entries : List (String × FileTree)} {t inner : FileTree} {name : String}
  {path : List String}

/-! ## Entries -/

/-- The entry of a name is the one that has it. -/
theorem named?_eq_some_iff (distinct : (entries.map Prod.fst).Nodup) :
    named? entries name = some t ↔ (name, t) ∈ entries := by
  induction entries with
  | nil => simp [named?]
  | cons e entries ih =>
    rw [List.map_cons, List.nodup_cons] at distinct
    obtain ⟨new, distinct⟩ := distinct
    by_cases same : e.1 = name
    · subst same
      have absent : (e.1, t) ∉ entries := fun h => new (List.mem_map.mpr ⟨_, h, rfl⟩)
      rw [List.mem_cons, or_iff_left absent, named?, List.find?_cons_of_pos (by simp)]
      simp [Prod.ext_iff, eq_comm]
    · have other : (name, t) ≠ e := fun h => same (congrArg Prod.fst h.symm)
      rw [List.mem_cons, or_iff_right other, ← ih distinct, named?,
        List.find?_cons_of_neg (by simpa using same), named?]

theorem mem_of_named? (h : named? entries name = some t) : (name, t) ∈ entries := by
  obtain ⟨e, found, rfl⟩ := Option.map_eq_some_iff.mp h
  obtain rfl : e.1 = name := by simpa using List.find?_some found
  exact List.mem_of_find?_eq_some found

/-- What a path leads to in a folder is in one of the entries. -/
theorem at?_folder (distinct : (entries.map Prod.fst).Nodup) {content : Except FileError String} :
    (FileTree.folder entries).at? path = some (.file content) ↔
      ∃ e ∈ entries, ∃ rest, path = e.1 :: rest ∧ e.2.at? rest = some (.file content) := by
  cases path with
  | nil => simp [at?]
  | cons name path =>
    rw [at?, Option.bind_eq_some_iff]
    constructor
    · rintro ⟨t, found, leads⟩
      exact ⟨_, (named?_eq_some_iff distinct).mp found, path, rfl, leads⟩
    · rintro ⟨e, among, rest, same, leads⟩
      cases same
      exact ⟨e.2, (named?_eq_some_iff distinct).mpr among, leads⟩

/-! ## Putting a file -/

/-- Where an entry of a name is replaced, the names stay apart. -/
theorem Proper.replace (h : (FileTree.folder entries).Proper) (plain : '/' ∉ name.toList)
    (proper : inner.Proper) :
    (FileTree.folder ((entries.filter fun e => e.1 ≠ name) ++ [(name, inner)])).Proper := by
  obtain _ | ⟨distinct, plains, inners⟩ := h
  refine .folder ?_ ?_ ?_
  · rw [List.map_append, List.nodup_append']
    refine ⟨distinct.sublist (List.filter_sublist.map _), by simp, ?_⟩
    rw [List.disjoint_left]
    intro n kept new
    obtain ⟨e, kept, rfl⟩ := List.mem_map.mp kept
    obtain rfl : e.1 = name := by simpa using new
    simp at kept
  · intro e among
    rcases List.mem_append.mp among with among | among
    · exact plains e (List.mem_of_mem_filter among)
    · obtain rfl := List.mem_singleton.mp among
      exact plain
  · intro e among
    rcases List.mem_append.mp among with among | among
    · exact inners e (List.mem_of_mem_filter among)
    · obtain rfl := List.mem_singleton.mp among
      exact proper

theorem Proper.empty : (FileTree.folder []).Proper :=
  .folder List.nodup_nil (by simp) (by simp)

/-- **A file that is put at a path of names leaves the folders proper.** -/
theorem Proper.put (h : t.Proper) (plain : ∀ name ∈ path, '/' ∉ name.toList) (text : String) :
    (FileTree.put text path t).Proper := by
  induction path generalizing t with
  | nil => exact .file _
  | cons name path ih =>
    have further {t : FileTree} (h : t.Proper) : (FileTree.put text path t).Proper :=
      ih h fun n hn => plain n (List.mem_cons_of_mem _ hn)
    have here := plain name List.mem_cons_self
    cases h with
    | file => exact Proper.empty.replace here (further .empty)
    | @folder entries distinct plains inners =>
      refine Proper.replace (.folder distinct plains inners) here (further ?_)
      cases found : named? entries name with
      | none => exact .empty
      | some t => exact inners _ (mem_of_named? found)

/-! ## The tests of a folder -/

variable {parts : List String} {place : String} {x : FoundTest}

theorem testsOfEntries_eq (parts : List String) (place : String)
    (entries : List (String × FileTree)) :
    testsOfEntries parts place entries =
      entries.flatMap fun e => e.2.tests (parts ++ [e.1]) (joinPath place e.1) := by
  induction entries with
  | nil => rfl
  | cons e entries ih => rw [testsOfEntries, ih, List.flatMap_cons]

/-- **Which tests are found**: the files of the ending, wherever they are, each of them with the
names that lead to it. -/
theorem mem_tests_iff (h : t.Proper) :
    x ∈ t.tests parts place ↔ ∃ path content, t.at? path = some (.file content) ∧
      endsWithText ((parts ++ path).getLastD "") testEnding ∧
        x = ⟨parts ++ path, path.foldl joinPath place, content⟩ := by
  induction h generalizing parts place with
  | file content =>
    rw [tests]
    constructor
    · intro among
      by_cases ending : endsWithText (parts.getLastD "") testEnding
      · rw [if_pos ending, List.mem_singleton] at among
        exact ⟨[], content, rfl, by rwa [List.append_nil], by rwa [List.append_nil]⟩
      · rw [if_neg ending] at among
        cases among
    · rintro ⟨_ | ⟨name, path⟩, content', leads, ending, rfl⟩
      · cases leads
        rw [List.append_nil] at ending ⊢
        rw [if_pos ending]
        exact List.mem_singleton_self _
      · cases leads
  | @folder entries distinct plain proper ih =>
    rw [tests, testsOfEntries_eq, List.mem_flatMap]
    constructor
    · rintro ⟨e, among, found⟩
      obtain ⟨path, content, leads, ending, rfl⟩ := (ih e among).mp found
      refine ⟨e.1 :: path, content, (at?_folder distinct).mpr ⟨e, among, path, rfl, leads⟩, ?_, ?_⟩
      · simpa using ending
      · simp
    · rintro ⟨path, content, leads, ending, rfl⟩
      obtain ⟨e, among, rest, rfl, further⟩ := (at?_folder distinct).mp leads
      refine ⟨e, among, (ih e among).mpr ⟨rest, content, further, ?_, ?_⟩⟩
      · simpa using ending
      · simp

theorem prefix_of_mem_tests (h : t.Proper) (found : x ∈ t.tests parts place) :
    parts <+: x.parts := by
  obtain ⟨path, content, -, -, rfl⟩ := (mem_tests_iff h).mp found
  exact List.prefix_append _ _

/-- **Every test is found once.** -/
theorem nodup_tests (h : t.Proper) (parts : List String) (place : String) :
    ((t.tests parts place).map FoundTest.parts).Nodup := by
  induction h generalizing parts place with
  | file content =>
    rw [tests]
    split <;> simp
  | @folder entries distinct plain proper ih =>
    rw [tests, testsOfEntries_eq, List.map_flatMap, List.nodup_flatMap]
    refine ⟨fun e among => ih e among _ _, (List.pairwise_map.mp distinct).imp_of_mem ?_⟩
    -- what is found in two entries differs in the name that comes next
    intro a b ha hb apart
    refine List.disjoint_left.mpr fun names inA inB => ?_
    obtain ⟨x, found, rfl⟩ := List.mem_map.mp inA
    obtain ⟨y, found', same⟩ := List.mem_map.mp inB
    have first := prefix_of_mem_tests (proper a ha) found
    have second := prefix_of_mem_tests (proper b hb) found'
    rw [same] at second
    have equal : parts ++ [a.1] = parts ++ [b.1] :=
      (List.prefix_of_prefix_length_le first second (by simp)).eq_of_length (by simp)
    exact apart (by simpa using equal)

/-- The names that lead to a test of a folder have no slash. -/
theorem plain_of_at? (h : t.Proper) (leads : t.at? path = some inner) :
    ∀ name ∈ path, '/' ∉ name.toList := by
  induction path generalizing t with
  | nil => simp
  | cons name path ih =>
    cases h with
    | file => cases leads
    | folder distinct plain proper =>
      rw [at?, Option.bind_eq_some_iff] at leads
      obtain ⟨next, found, leads⟩ := leads
      have among := mem_of_named? found
      rw [List.forall_mem_cons]
      exact ⟨plain _ among, ih (proper _ among) leads⟩

end FileTree

end Blockwork
