import Blockwork.CommandLine.TestFile
import Blockwork.Proofs.TomlEnds
import Mathlib.Data.List.Infix

/-!
# Where a test file is divided

A test file begins with a row of hyphens, the lines that say what is expected, and another row of
hyphens; behind that is the program. Such a file is divided where these rows are, whatever the
program has in it, if there is at least one line between them. Without any line the second row is
not found: it is looked for behind the end of a line, and the only line end before it is the one
that was taken away with the first row.

## Main statements

* `TestFile.splitAtClosing_rows`: the second row of hyphens is found behind the lines.
* `TestFile.split_written`: a file is divided into the lines and the program.
* `TestFile.split_written_nil`: a file without lines between the rows is not divided.
* `TestFile.parse_written_iff`: which files are read as they were written.
-/

namespace Blockwork

/-- How lines end. -/
inductive LineEnd where
  | feed
  /-- With a carriage return before the line feed. -/
  | returnFeed
deriving DecidableEq, Repr

namespace LineEnd

/-- What stands at the end of a line before the line feed. -/
def lead : LineEnd → List Char
  | .feed => []
  | .returnFeed => ['\r']

/-- The end of a line. -/
def text (e : LineEnd) : String := String.ofList (e.lead ++ ['\n'])

end LineEnd

namespace TestFile

/-- The row of hyphens before the lines and behind them. -/
def hyphens : List Char := ['-', '-', '-']

/-- A file with some lines between two rows of hyphens, and a program behind them. In front of all
there may be a mark of the byte order. -/
def written (marked : Bool) (e : LineEnd) (lines : List String) (program : String) : String :=
  (if marked then "\ufeff" else "") ++ "---" ++ e.text ++
    String.join (lines.map fun line => line ++ e.text) ++ "---" ++ e.text ++ program

/-- The text that some lines are together. -/
def front (e : LineEnd) (lines : List String) : String := e.text.intercalate lines

variable {c : Char} {cs rest before : List Char} {row : List Char} {rows : List (List Char)}

/-! ## The search for the second row of hyphens -/

theorem splitAtClosing_cons (h : c = '\n' → ¬hyphens <+: rest) :
    splitAtClosing before (c :: rest) = splitAtClosing (c :: before) rest := by
  rw [splitAtClosing]
  rintro after rfl rfl
  exact h rfl ⟨after, rfl⟩

/-- Nothing is found before the end of a line. -/
theorem splitAtClosing_append (h : '\n' ∉ cs) :
    splitAtClosing before (cs ++ rest) = splitAtClosing (cs.reverse ++ before) rest := by
  induction cs generalizing before with
  | nil => rfl
  | cons c cs ih =>
    rw [List.mem_cons, not_or] at h
    obtain ⟨hc, hcs⟩ := h
    rw [List.cons_append, splitAtClosing_cons fun e => absurd e.symm hc, ih hcs, List.reverse_cons,
      List.append_assoc]
    rfl

/-- What begins with hyphens does so before any other character. -/
theorem hyphens_prefix_of_append (h : hyphens <+: row ++ c :: rest) (other : c ∉ hyphens) :
    hyphens <+: row := by
  by_cases long : hyphens.length ≤ row.length
  · exact List.prefix_of_prefix_length_le h (List.prefix_append row (c :: rest)) long
  · have upTo : row ++ [c] <+: row ++ c :: rest := ⟨rest, by simp⟩
    have within : row ++ [c] <+: hyphens :=
      List.prefix_of_prefix_length_le upTo h (by simp; omega)
    exact absurd (within.subset (by simp)) other

/-- **The second row of hyphens is found behind the lines**, if none of them begins so. The first
line may begin as it likes. -/
theorem splitAtClosing_rows (whole : ∀ r ∈ row :: rows, '\n' ∉ r)
    (plain : ∀ r ∈ rows, ¬hyphens <+: r) (before rest : List Char) :
    splitAtClosing before ((row :: rows).flatMap (· ++ ['\n']) ++ (hyphens ++ rest)) =
      some ((['\n'].intercalate (row :: rows)).reverse ++ before, rest) := by
  induction rows generalizing row before with
  | nil =>
    have once := whole row List.mem_cons_self
    rw [List.flatMap_singleton, List.append_assoc, splitAtClosing_append once]
    simp [splitAtClosing, hyphens]
  | cons next rows ih =>
    have once := whole row List.mem_cons_self
    have follows : ¬hyphens <+: (next :: rows).flatMap (· ++ ['\n']) ++ (hyphens ++ rest) := by
      have opened : (next :: rows).flatMap (· ++ ['\n']) ++ (hyphens ++ rest) =
          next ++ '\n' :: (rows.flatMap (· ++ ['\n']) ++ (hyphens ++ rest)) := by simp
      intro begins
      rw [opened] at begins
      exact plain next List.mem_cons_self (hyphens_prefix_of_append begins (by decide))
    rw [List.flatMap_cons, List.append_assoc, List.append_assoc, splitAtClosing_append once,
      List.singleton_append, splitAtClosing_cons fun _ => follows,
      ih (fun r hr => whole r (List.mem_cons_of_mem _ hr))
        (fun r hr => plain r (List.mem_cons_of_mem _ hr)),
      List.intercalate_cons_cons]
    simp

/-- Nothing is found just when no line but the first begins with hyphens. -/
theorem splitAtClosing_eq_none_iff :
    splitAtClosing before cs = none ↔ ¬('\n' :: hyphens) <:+: cs := by
  fun_induction splitAtClosing before cs with
  | case1 => simp
  | case2 before rest =>
    have here : ('\n' :: hyphens) <:+: '\n' :: '-' :: '-' :: '-' :: rest := ⟨[], rest, rfl⟩
    simp [here]
  | case3 before c rest other ih =>
    have later : ¬('\n' :: hyphens) <+: c :: rest := by
      rintro ⟨after, same⟩
      cases same
      exact other after rfl rfl
    rw [ih, List.infix_cons_iff, or_iff_right later]

/-! ## Dividing a file -/

/-- A file that begins with a row of hyphens is divided if a second one is found. -/
theorem split_of_opening {text : String}
    (h : text.toList.dropWhile (fun c => c = '\ufeff') = hyphens ++ rest) :
    (splitAtClosing [] (dropLineEnd rest) = none ∧ split text = .error .noClosing) ∨
      ∃ before behind, splitAtClosing [] (dropLineEnd rest) = some (before, behind) ∧
        split text = .ok (String.ofList (before.dropWhile fun c => c = '\r').reverse,
          String.ofList (dropLineEnd behind)) := by
  rw [split, h]
  simp only [hyphens, List.cons_append, List.nil_append]
  cases splitAtClosing [] (dropLineEnd rest) with
  | none => exact .inl ⟨rfl, rfl⟩
  | some parts => exact .inr ⟨parts.1, parts.2, rfl, rfl⟩

theorem dropLineEnd_chars (e : LineEnd) (rest : List Char) :
    dropLineEnd (e.lead ++ '\n' :: rest) = rest := by
  cases e <;> rfl

theorem toList_written (marked : Bool) (e : LineEnd) (lines : List String) (program : String) :
    (written marked e lines program).toList.dropWhile (fun c => c = '\ufeff') =
      hyphens ++ (e.lead ++ '\n' ::
        ((lines.map fun line => line.toList ++ e.lead).flatMap (· ++ ['\n']) ++
          (hyphens ++ (e.lead ++ '\n' :: program.toList)))) := by
  cases marked <;> simp [written, LineEnd.text, hyphens, List.flatMap_map]

/-- Lines that end with a carriage return too are divided by line feeds alone. -/
theorem intercalate_lead (e : LineEnd) (line : String) (lines : List String) :
    ['\n'].intercalate ((line :: lines).map fun line => line.toList ++ e.lead) =
      (front e (line :: lines)).toList ++ e.lead := by
  rw [front, String.toList_intercalate, LineEnd.text, String.toList_ofList]
  induction lines generalizing line with
  | nil => simp
  | cons next lines ih =>
    simp only [List.map_cons] at ih
    rw [List.map_cons, List.map_cons, List.intercalate_cons_cons, ih next]
    simp [List.intercalate_cons_cons]

/-- Carriage returns are taken away behind the lines, and nothing else. -/
theorem dropWhile_lead (e : LineEnd) {text : List Char} (last : text.getLast? ≠ some '\r') :
    ((text ++ e.lead).reverse.dropWhile fun c => c = '\r').reverse = text := by
  have stays : text.reverse.dropWhile (fun c => c = '\r') = text.reverse := by
    rw [← List.head?_reverse] at last
    cases backwards : text.reverse with
    | nil => rfl
    | cons c cs =>
      refine List.dropWhile_cons_of_neg fun same => last ?_
      rw [backwards, of_decide_eq_true same]
      rfl
  cases e with
  | feed => simp [LineEnd.lead, stays]
  | returnFeed => simp [LineEnd.lead, stays]

/-- **A file is divided into the lines and the program**, if there is a line, none behind the first
begins with hyphens, and the last one does not end with a carriage return of its own. -/
theorem split_written {line : String} {lines : List String}
    (whole : ∀ l ∈ line :: lines, '\n' ∉ l.toList) (plain : ∀ l ∈ lines, ¬hyphens <+: l.toList)
    (marked : Bool) (e : LineEnd) (program : String)
    (last : (front e (line :: lines)).toList.getLast? ≠ some '\r') :
    split (written marked e (line :: lines) program) = .ok (front e (line :: lines), program) := by
  have wholeRows : ∀ r ∈ (line :: lines).map fun l => l.toList ++ e.lead, '\n' ∉ r := by
    intro r among
    obtain ⟨l, hl, rfl⟩ := List.mem_map.mp among
    rw [List.mem_append, not_or]
    exact ⟨whole l hl, by cases e <;> decide⟩
  have plainRows : ∀ r ∈ lines.map fun l => l.toList ++ e.lead, ¬hyphens <+: r := by
    intro r among begins
    obtain ⟨l, hl, rfl⟩ := List.mem_map.mp among
    refine plain l hl ?_
    cases e with
    | feed => rwa [LineEnd.lead, List.append_nil] at begins
    | returnFeed => exact hyphens_prefix_of_append begins (by decide)
  have divided : splitAtClosing []
      (((line :: lines).map fun l => l.toList ++ e.lead).flatMap (· ++ ['\n']) ++
        (hyphens ++ (e.lead ++ '\n' :: program.toList))) =
      some (((front e (line :: lines)).toList ++ e.lead).reverse,
        e.lead ++ '\n' :: program.toList) := by
    rw [← intercalate_lead, ← List.append_nil (List.reverse _)]
    exact splitAtClosing_rows wholeRows plainRows [] _
  rcases split_of_opening (toList_written marked e (line :: lines) program) with
    ⟨missing, -⟩ | ⟨before, behind, found, done⟩
  · rw [dropLineEnd_chars, divided] at missing
    cases missing
  · rw [dropLineEnd_chars, divided] at found
    cases found
    rw [done, dropWhile_lead e last, dropLineEnd_chars, String.ofList_toList, String.ofList_toList]

/-! ## Files without lines -/

theorem length_of_splitAtClosing {front behind : List Char}
    (h : splitAtClosing before cs = some (front, behind)) : behind.length + 4 ≤ cs.length := by
  fun_induction splitAtClosing before cs with
  | case1 => cases h
  | case2 => cases h; simp
  | case3 before c rest other ih =>
    have within := ih h
    rw [List.length_cons]
    omega

theorem length_dropLineEnd_le (cs : List Char) : (dropLineEnd cs).length ≤ cs.length := by
  unfold dropLineEnd
  split
  · simp
  · simp only [List.length_cons]
    omega
  · exact Nat.le_refl _

/-- The line end behind the first row of hyphens is gone, so the second row is read like a line. -/
theorem splitAtClosing_written_nil (e : LineEnd) (program : String) :
    splitAtClosing [] (dropLineEnd (e.lead ++ '\n' ::
        (([].map fun line : String => line.toList ++ e.lead).flatMap (· ++ ['\n']) ++
          (hyphens ++ (e.lead ++ '\n' :: program.toList))))) =
      splitAtClosing (hyphens ++ e.lead).reverse ('\n' :: program.toList) := by
  rw [dropLineEnd_chars, List.map_nil, List.flatMap_nil, List.nil_append, ← List.append_assoc,
    splitAtClosing_append (by cases e <;> decide), List.append_nil]

/-- **A file without lines between the rows of hyphens is not divided**, unless a line of the
program begins with hyphens too. -/
theorem split_written_nil (marked : Bool) (e : LineEnd) {program : String}
    (none : ¬('\n' :: hyphens) <:+: '\n' :: program.toList) :
    split (written marked e [] program) = .error .noClosing := by
  rcases split_of_opening (toList_written marked e [] program) with
    ⟨-, done⟩ | ⟨before, behind, found, -⟩
  · exact done
  · rw [splitAtClosing_written_nil, splitAtClosing_eq_none_iff.mpr none] at found
    cases found

/-- A file without lines is never divided where its rows of hyphens are. -/
theorem split_written_nil_ne (marked : Bool) (e : LineEnd) (text program : String) :
    split (written marked e [] program) ≠ .ok (text, program) := by
  intro same
  rcases split_of_opening (toList_written marked e [] program) with
    ⟨-, done⟩ | ⟨before, behind, found, done⟩
  · rw [done] at same
    cases same
  · rw [splitAtClosing_written_nil] at found
    have shorter := length_of_splitAtClosing found
    have dropped := length_dropLineEnd_le behind
    have rest : String.ofList (dropLineEnd behind) = program :=
      congrArg Prod.snd (Except.ok.inj (done.symm.trans same))
    rw [← rest, String.toList_ofList, List.length_cons] at shorter
    omega

/-! ## Reading a file -/

/-- A file is read by dividing it and reading what stands in front of the program. -/
theorem parse_eq_ok_iff {text program : String} {x : Expectations} :
    parse text = .ok ⟨x, program⟩ ↔
      ∃ front, split text = .ok (front, program) ∧ Expectations.parse front = some x := by
  unfold parse
  cases divided : split text with
  | error problem => simp [bind, Except.bind]
  | ok parts =>
    obtain ⟨front, rest⟩ := parts
    cases found : Expectations.parse front with
    | none => simp [found, bind, Except.bind]
    | some y => simp [found, bind, Except.bind, pure, Except.pure, and_comm]

/-- **A file is read as it was written just when there is a line between the rows of hyphens.** -/
theorem parse_written_iff {lines : List String} {x : Expectations}
    (whole : ∀ l ∈ lines, '\n' ∉ l.toList) (plain : ∀ l ∈ lines, ¬hyphens <+: l.toList)
    (marked : Bool) (e : LineEnd) (read : Expectations.parse (front e lines) = some x)
    (program : String) :
    parse (written marked e lines program) = .ok ⟨x, program⟩ ↔ lines ≠ [] := by
  rw [parse_eq_ok_iff]
  cases lines with
  | nil =>
    refine iff_of_false ?_ fun h => h rfl
    rintro ⟨text, divided, -⟩
    exact split_written_nil_ne marked e text program divided
  | cons line lines =>
    refine iff_of_true ?_ (List.cons_ne_nil _ _)
    obtain ⟨members, reads, -⟩ := Option.bind_eq_some_iff.mp read
    exact ⟨_, split_written whole (fun l hl => plain l (List.mem_cons_of_mem _ hl)) marked e program
      (Toml.not_returns_of_parse reads), read⟩

/-- The rows of hyphens alone, with a program behind them. -/
example : split "---\n---\nnull" = .error .noClosing := by
  rfl

end TestFile

end Blockwork
