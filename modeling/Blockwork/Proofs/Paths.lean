import Blockwork.CommandLine.TestSelection
import Mathlib.Data.List.Infix

/-!
# Parts of paths

The category of a test is the text of the folders on the way to it, with slashes between them. A
category is within another just when the parts of the other come first in its own parts, so that
folders with names that begin alike are kept apart. A backslash in a name counts as a slash.

## Main statements

* `splitText_eq`: the pieces of a text are those of its characters.
* `TestGroup.isWithin_iff`: when a category is within another.
* `FoundTest.pathParts_category`: the parts of a category are those of the folders.
-/

namespace Blockwork

/-! ## Pieces of texts -/

theorem modifyHead_nil_append (rows : List (List Char)) :
    rows.modifyHead (([] : List Char).reverse ++ ·) = rows := by
  cases rows <;> rfl

theorem splitFrom_eq (separator : Char) (piece cs : List Char) :
    splitFrom separator piece cs =
      ((cs.splitOn separator).modifyHead (piece.reverse ++ ·)).map String.ofList := by
  induction cs generalizing piece with
  | nil => simp [splitFrom]
  | cons c cs ih =>
    rw [splitFrom, List.splitOn_eq_splitOnP, List.splitOnP_cons_eq_if_modifyHead,
      ← List.splitOn_eq_splitOnP]
    by_cases same : c = separator
    · rw [if_pos same, if_pos (beq_iff_eq.mpr same), ih, modifyHead_nil_append]
      simp
    · rw [if_neg same, if_neg fun h => same (beq_iff_eq.mp h), ih]
      simp [Function.comp_def]

/-- The pieces of a text are those of its characters. -/
theorem splitText_eq (separator : Char) (s : String) :
    splitText separator s = (s.toList.splitOn separator).map String.ofList := by
  rw [splitText, splitFrom_eq, modifyHead_nil_append]

section Lists

variable {α : Type} {a : α}

theorem intercalate_append {front back : List (List α)} (hf : front ≠ []) (hb : back ≠ []) :
    [a].intercalate (front ++ back) = [a].intercalate front ++ a :: [a].intercalate back := by
  induction front with
  | nil => exact absurd rfl hf
  | cons piece front ih =>
    cases front with
    | nil => simp [List.intercalate_cons_of_ne_nil hb]
    | cons next front =>
      rw [List.cons_append, List.intercalate_cons_of_ne_nil (by simp), ih (List.cons_ne_nil _ _),
        List.intercalate_cons_cons]
      simp

variable [BEq α] [LawfulBEq α] {l m : List α}

theorem splitOn_append_cons (a : α) (l m : List α) :
    (l ++ a :: m).splitOn a = l.splitOn a ++ m.splitOn a := by
  simp only [List.splitOn_eq_splitOnP]
  exact List.splitOnP_append_cons l m (beq_self_eq_true a)

/-- The pieces of a row come first in those of another just when the other is the row itself, or
goes on behind it with a separator. -/
theorem splitOn_prefix_iff : l.splitOn a <+: m.splitOn a ↔ m = l ∨ l ++ [a] <+: m := by
  constructor
  · rintro ⟨back, whole⟩
    have joined : [a].intercalate (l.splitOn a ++ back) = m := by
      rw [whole, List.intercalate_splitOn]
    by_cases none : back = []
    · rw [none, List.append_nil, List.intercalate_splitOn] at joined
      exact .inl joined.symm
    · rw [intercalate_append (List.splitOn_ne_nil a l) none, List.intercalate_splitOn] at joined
      exact .inr ⟨[a].intercalate back, by simpa using joined⟩
  · rintro (rfl | ⟨rest, rfl⟩)
    · exact List.prefix_refl _
    · rw [List.append_assoc, List.singleton_append, splitOn_append_cons]
      exact List.prefix_append _ _

end Lists

/-! ## Categories that are asked for -/

theorem pathParts_eq (path : String) :
    pathParts path = (path.toList.splitOn '/').map String.ofList :=
  splitText_eq '/' path

theorem pathParts_ne_nil (path : String) : pathParts path ≠ [] := by
  rw [pathParts_eq, ne_eq, List.map_eq_nil_iff]
  exact List.splitOn_ne_nil _ _

theorem map_ofList_prefix_iff {front whole : List (List Char)} :
    front.map String.ofList <+: whole.map String.ofList ↔ front <+: whole :=
  List.prefix_map_iff_of_injective fun _ _ => String.ofList_injective

/-- The parts of a path come first in those of another just when the other is the path itself, or
goes on behind it with a slash. -/
theorem pathParts_prefix_iff {front whole : String} :
    pathParts front <+: pathParts whole ↔
      whole = front ∨ front.toList ++ ['/'] <+: whole.toList := by
  rw [pathParts_eq, pathParts_eq, map_ofList_prefix_iff, splitOn_prefix_iff, String.toList_inj]

/-- Only the empty path comes first in the empty path. -/
theorem pathParts_prefix_empty {path : String} (h : pathParts path <+: [""]) : path = "" := by
  rcases pathParts_prefix_iff.mp (show pathParts path <+: pathParts "" from h) with same | longer
  · exact same.symm
  · exact absurd (List.prefix_nil.mp longer) (by simp)

/-- **When a category is within another**: the parts of the other come first. -/
theorem TestGroup.isWithin_iff {g : TestGroup} {request : String} :
    g.isWithin request ↔ pathParts request <+: pathParts g.category := by
  rw [pathParts_prefix_iff, isWithin, Bool.or_eq_true, decide_eq_true_iff, startsWithText,
    List.isPrefixOf_iff_prefix, String.toList_append]
  rfl

/-! ## The category of a folder -/

/-- The parts of a folder as a category: a backslash in a name divides it. -/
def folderParts (folder : List String) : List String := folder.flatMap (splitText '\\')

/-- What a character of a name is in a category. -/
def slashed (c : Char) : Char := if c = '\\' then '/' else c

theorem splitOn_map_slashed {cs : List Char} (h : '/' ∉ cs) :
    (cs.map slashed).splitOn '/' = cs.splitOn '\\' := by
  induction cs with
  | nil => simp
  | cons c cs ih =>
    rw [List.mem_cons, not_or] at h
    obtain ⟨hc, hcs⟩ := h
    simp only [List.splitOn_eq_splitOnP] at ih ⊢
    rw [List.map_cons, List.splitOnP_cons_eq_if_modifyHead, List.splitOnP_cons_eq_if_modifyHead,
      ih hcs]
    by_cases back : c = '\\'
    · simp [slashed, back]
    · simp [slashed, back, Ne.symm hc]

theorem splitOn_map_intercalate {name : List Char} {names : List (List Char)}
    (plain : ∀ n ∈ name :: names, '/' ∉ n) :
    ((['/'].intercalate (name :: names)).map slashed).splitOn '/' =
      (name :: names).flatMap (List.splitOn '\\') := by
  induction names generalizing name with
  | nil => simpa using splitOn_map_slashed (plain name List.mem_cons_self)
  | cons next names ih =>
    have later := ih fun n hn => plain n (List.mem_cons_of_mem _ hn)
    rw [List.intercalate_cons_cons, List.map_append, List.map_append, List.flatMap_cons, ← later,
      ← splitOn_map_slashed (plain name List.mem_cons_self), List.append_assoc]
    exact splitOn_append_cons '/' _ _

/-- **The parts of a category are those of the folders.** A test that is in no folder has the empty
category. -/
theorem FoundTest.pathParts_category {t : FoundTest}
    (plain : ∀ name ∈ t.parts.dropLast, '/' ∉ name.toList) :
    pathParts t.category =
      if t.parts.dropLast = [] then [""] else folderParts t.parts.dropLast := by
  unfold category
  generalize t.parts.dropLast = folder at plain ⊢
  cases folder with
  | nil => rfl
  | cons name names =>
    have plainRows : ∀ n ∈ (name :: names).map String.toList, '/' ∉ n := by
      simpa using plain
    rw [if_neg (List.cons_ne_nil _ _), pathParts_eq, String.toList_ofList,
      String.toList_intercalate]
    refine (congrArg (List.map String.ofList) (splitOn_map_intercalate plainRows)).trans ?_
    rw [← List.map_cons, List.flatMap_map, List.map_flatMap, folderParts,
      funext (splitText_eq '\\')]

end Blockwork
