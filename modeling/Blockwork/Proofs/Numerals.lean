import Blockwork.Proofs.LowerCase
import Blockwork.Proofs.NumberTexts

/-!
# Texts that spell a finite number

A text spells a finite number, white space around it apart, only if all its characters are those of
numbers. Whether the mark of an exponent is an `e` or an `E` makes no difference. So a text that has
the lower case form of one that spells a finite number spells the same number.

## Main statements

* `SpellsFinite.inNumeral`: the characters of a text that spells a finite number.
* `SpellsFinite.of_lowerText_eq`: what has the same lower case form spells a finite number too.
-/

namespace Blockwork

/-! ## Ends -/

theorem mem_or_of_mem_dropWhile {p : Char → Bool} {cs : List Char} {c : Char} (h : c ∈ cs) :
    c ∈ cs.dropWhile p ∨ p c = true := by
  rw [← List.takeWhile_append_dropWhile (p := p) (l := cs)] at h
  rcases List.mem_append.mp h with took | left
  · exact .inr (List.mem_takeWhile_imp took)
  · exact .inl left

/-- What is stripped from the ends satisfies the condition. -/
theorem mem_or_of_mem_stripEnds {p : Char → Bool} {cs : List Char} {c : Char} (h : c ∈ cs) :
    c ∈ stripEnds p cs ∨ p c = true := by
  rcases mem_or_of_mem_dropWhile (p := p) h with left | blank
  · rcases mem_or_of_mem_dropWhile (p := p) (List.mem_reverse.mpr left) with left | blank
    · exact .inl (List.mem_reverse.mpr left)
    · exact .inr blank
  · exact .inr blank

theorem dropWhile_map {p : Char → Bool} {f : Char → Char} (same : ∀ c, p (f c) = p c)
    (cs : List Char) : (cs.map f).dropWhile p = (cs.dropWhile p).map f := by
  rw [List.dropWhile_map, show p ∘ f = p from funext same]

theorem stripEnds_map {p : Char → Bool} {f : Char → Char} (same : ∀ c, p (f c) = p c)
    (cs : List Char) : stripEnds p (cs.map f) = (stripEnds p cs).map f := by
  rw [stripEnds, dropWhile_map same, ← List.map_reverse, dropWhile_map same, ← List.map_reverse]
  rfl

theorem stripEnds_of_none {p : Char → Bool} {cs : List Char} (h : ∀ c ∈ cs, p c = false) :
    stripEnds p cs = cs := by
  have keeps {ds : List Char} (h : ∀ c ∈ ds, p c = false) : ds.dropWhile p = ds := by
    cases ds with
    | nil => rfl
    | cons c rest => rw [List.dropWhile_cons_of_neg (by simp [h c])]
  rw [stripEnds, keeps h, keeps fun c among => h c (List.mem_reverse.mp among),
    List.reverse_reverse]

/-! ## Characters -/

theorem inNumber_of_splitDigits {cs ds rest : List Char} (h : splitDigits cs = (ds, rest))
    (goesOn : ∀ c ∈ rest, JsonLexer.inNumber c = true) : ∀ c ∈ cs, JsonLexer.inNumber c = true := by
  cases h
  intro c among
  rw [← List.takeWhile_append_dropWhile (p := Char.isDigit) (l := cs)] at among
  rcases List.mem_append.mp among with digit | left
  · exact JsonLexer.inNumber_of_isDigit (List.mem_takeWhile_imp digit)
  · exact goesOn c left

theorem inNumber_of_splitSign {cs : List Char}
    (goesOn : ∀ c ∈ (splitSign cs).2, JsonLexer.inNumber c = true) :
    ∀ c ∈ cs, JsonLexer.inNumber c = true := by
  unfold splitSign at goesOn
  split at goesOn
  · exact List.forall_mem_cons.mpr ⟨rfl, goesOn⟩
  · exact List.forall_mem_cons.mpr ⟨rfl, goesOn⟩
  · exact goesOn

theorem inNumber_of_readExponent {cs : List Char} {e : Int} (h : readExponent cs = some e) :
    ∀ c ∈ cs, JsonLexer.inNumber c = true := by
  cases cs with
  | nil => simp
  | cons mark rest =>
    rw [readExponent] at h
    split at h
    · next exponent =>
      have marks : JsonLexer.inNumber mark = true := by
        rcases Bool.or_eq_true_iff.mp exponent with same | same
        · rw [of_decide_eq_true same]
          rfl
        · rw [of_decide_eq_true same]
          rfl
      refine List.forall_mem_cons.mpr ⟨marks, inNumber_of_splitSign ?_⟩
      dsimp only at h
      split at h
      · cases h
      · next digits split => exact inNumber_of_splitDigits split (by simp)
      · cases h
    · cases h

/-- The digits after a point in front, if there is one, and what follows them. -/
def splitFraction : List Char → List Char × List Char
  | '.' :: rest => splitDigits rest
  | rest => ([], rest)

theorem readDecimal_eq (cs : List Char) : readDecimal cs =
    let whole := (splitDigits cs).1
    let fraction := (splitFraction (splitDigits cs).2).1
    if whole.isEmpty && fraction.isEmpty then none
    else (readExponent (splitFraction (splitDigits cs).2).2).map fun e =>
      scaledFloat (digitsValue (whole ++ fraction)) (e - fraction.length) :=
  rfl

theorem inNumber_of_splitFraction {cs : List Char}
    (goesOn : ∀ c ∈ (splitFraction cs).2, JsonLexer.inNumber c = true) :
    ∀ c ∈ cs, JsonLexer.inNumber c = true := by
  unfold splitFraction at goesOn
  split at goesOn
  · exact List.forall_mem_cons.mpr ⟨rfl, inNumber_of_splitDigits rfl goesOn⟩
  · exact goesOn

theorem inNumber_of_readDecimal {cs : List Char} {x : Float} (h : readDecimal cs = some x) :
    ∀ c ∈ cs, JsonLexer.inNumber c = true := by
  rw [readDecimal_eq] at h
  dsimp only at h
  split at h
  · cases h
  · obtain ⟨e, reads, -⟩ := Option.map_eq_some_iff.mp h
    exact inNumber_of_splitDigits rfl (inNumber_of_splitFraction (inNumber_of_readExponent reads))

theorem inNumber_of_readNumber? {s : String} {x : Float} (h : readNumber? s = some x)
    (finite : x.isFinite = true) : ∀ c ∈ s.toList, JsonLexer.inNumber c = true := by
  refine inNumber_of_splitSign ?_
  rw [readNumber?_eq] at h
  obtain ⟨y, reads, rfl⟩ := Option.map_eq_some_iff.mp h
  generalize (splitSign s.toList).1 = negative at finite
  unfold readMagnitude at reads
  -- the words stand for numbers that are not finite, with a sign or without
  split at reads
  · cases reads
    cases negative <;> cases finite
  · cases reads
    cases negative <;> cases finite
  · cases reads
    cases negative <;> cases finite
  · exact inNumber_of_readDecimal reads

/-! ## Marks of exponents -/

theorem isBlank_lowerMark (c : Char) : isBlank (lowerMark c) = isBlank c := by
  by_cases mark : c = 'E'
  · subst mark
    decide
  · rw [lowerMark, if_neg mark]

theorem lowerMark_eq_iff {c d : Char} (not_mark : d ≠ 'e' ∧ d ≠ 'E') : lowerMark c = d ↔ c = d := by
  by_cases mark : c = 'E'
  · subst mark
    exact iff_of_false (fun same => not_mark.1 same.symm) fun same => not_mark.2 same.symm
  · rw [lowerMark, if_neg mark]

theorem isDigit_lowerMark (c : Char) : (lowerMark c).isDigit = c.isDigit := by
  by_cases mark : c = 'E'
  · subst mark
    rfl
  · rw [lowerMark, if_neg mark]

theorem splitSign_map (cs : List Char) :
    splitSign (cs.map lowerMark) = ((splitSign cs).1, (splitSign cs).2.map lowerMark) := by
  cases cs with
  | nil => rfl
  | cons c rest =>
    by_cases minus : c = '-'
    · subst minus
      rfl
    · by_cases plus : c = '+'
      · subst plus
        rfl
      · have minus' : lowerMark c ≠ '-' := (lowerMark_eq_iff (by decide)).not.mpr minus
        have plus' : lowerMark c ≠ '+' := (lowerMark_eq_iff (by decide)).not.mpr plus
        rw [List.map_cons, splitSign_of_ne minus' plus', splitSign_of_ne minus plus, List.map_cons]

theorem splitDigits_map (cs : List Char) :
    splitDigits (cs.map lowerMark) = ((splitDigits cs).1, (splitDigits cs).2.map lowerMark) := by
  have same : Char.isDigit ∘ lowerMark = Char.isDigit := funext isDigit_lowerMark
  rw [splitDigits, splitDigits, dropWhile_map isDigit_lowerMark, List.takeWhile_map, same]
  have kept : ∀ c ∈ cs.takeWhile Char.isDigit, lowerMark c = id c := fun c among => by
    refine if_neg ?_
    rintro rfl
    cases List.mem_takeWhile_imp among
  rw [List.map_congr_left kept, List.map_id]

theorem splitFraction_map (cs : List Char) :
    splitFraction (cs.map lowerMark) =
      ((splitFraction cs).1, (splitFraction cs).2.map lowerMark) := by
  have of_ne {c : Char} (point : c ≠ '.') (rest : List Char) :
      splitFraction (c :: rest) = ([], c :: rest) := by
    unfold splitFraction
    split
    · next same => exact absurd (List.cons.inj same).1 point
    · rfl
  cases cs with
  | nil => rfl
  | cons c rest =>
    by_cases point : c = '.'
    · subst point
      exact splitDigits_map rest
    · have point' : lowerMark c ≠ '.' := (lowerMark_eq_iff (by decide)).not.mpr point
      rw [List.map_cons, of_ne point', of_ne point, List.map_cons]

theorem readExponent_map (cs : List Char) : readExponent (cs.map lowerMark) = readExponent cs := by
  cases cs with
  | nil => rfl
  | cons mark rest =>
    have marks : (lowerMark mark = 'e' || lowerMark mark = 'E') = (mark = 'e' || mark = 'E') := by
      by_cases upper : mark = 'E'
      · subst upper
        rfl
      · rw [lowerMark, if_neg upper]
    rw [List.map_cons, readExponent, readExponent, marks]
    dsimp only
    rw [splitSign_map, splitDigits_map]
    generalize splitDigits (splitSign rest).2 = split
    obtain ⟨digits, left⟩ := split
    cases digits <;> cases left <;> rfl

theorem readDecimal_map (cs : List Char) : readDecimal (cs.map lowerMark) = readDecimal cs := by
  rw [readDecimal_eq, readDecimal_eq, splitDigits_map, splitFraction_map, readExponent_map]

theorem readMagnitude_map (cs : List Char) :
    readMagnitude (cs.map lowerMark) = readMagnitude cs := by
  have same : (cs.map lowerMark).map Char.toLower = cs.map Char.toLower := by
    rw [List.map_map]
    refine List.map_congr_left fun c _ => ?_
    by_cases mark : c = 'E'
    · subst mark
      rfl
    · rw [Function.comp_apply, lowerMark, if_neg mark]
  rw [readMagnitude, readMagnitude, same, readDecimal_map]

/-- **Whether the mark of an exponent is in lower case makes no difference to a reader.** -/
theorem readNumber?_map (cs : List Char) :
    readNumber? (String.ofList (cs.map lowerMark)) = readNumber? (String.ofList cs) := by
  rw [readNumber?_eq, readNumber?_eq, String.toList_ofList, String.toList_ofList, splitSign_map,
    readMagnitude_map]

/-! ## Texts -/

/-- Whether a text spells a finite number, white space around it apart. -/
def SpellsFinite (s : String) : Prop :=
  ∃ x, readNumber? (trimBlank s) = some x ∧ x.isFinite = true

/-- **A text that spells a finite number has only characters of numbers.** -/
theorem SpellsFinite.inNumeral {s : String} (h : SpellsFinite s) :
    ∀ c ∈ s.toList, inNumeral c = true := by
  obtain ⟨x, reads, finite⟩ := h
  intro c among
  rw [Blockwork.inNumeral, Bool.or_eq_true]
  rcases mem_or_of_mem_stripEnds (p := isBlank) among with kept | blank
  · refine .inr (inNumber_of_readNumber? reads finite c ?_)
    rwa [trimBlank, String.toList_ofList]
  · exact .inl blank

/-- **What has the lower case form of a text that spells a finite number spells one too.** -/
theorem SpellsFinite.of_lowerText_eq {s t : String} (h : SpellsFinite s)
    (same : lowerText s = lowerText t) : SpellsFinite t := by
  have chars := h.inNumeral
  have form := toList_lowerText chars
  have chars' : ∀ c ∈ t.toList, Blockwork.inNumeral c = true := by
    refine inNumeral_of_lowerText ?_
    rw [← same, form]
    intro d among
    obtain ⟨c, before, rfl⟩ := List.mem_map.mp among
    exact inNumeral_lowerMark (chars c before)
  have form' := toList_lowerText chars'
  have marks : s.toList.map lowerMark = t.toList.map lowerMark := by rw [← form, same, form']
  have reads : readNumber? (trimBlank s) = readNumber? (trimBlank t) := by
    rw [trimBlank, trimBlank, ← readNumber?_map, ← readNumber?_map (stripEnds isBlank t.toList),
      ← stripEnds_map isBlank_lowerMark, ← stripEnds_map isBlank_lowerMark, marks]
  obtain ⟨x, spelled, finite⟩ := h
  exact ⟨x, reads ▸ spelled, finite⟩

/-- A decimal that does not overflow spells a finite number. -/
theorem spellsFinite_signed {d : Decimal} (fits : d.Fits) (negative : Bool) :
    SpellsFinite (d.signed negative) := by
  obtain ⟨y, reads, finite⟩ := readNumber?_signed fits negative
  refine ⟨y, ?_, finite⟩
  have unblank : ∀ c ∈ (d.signed negative).toList, isBlank c = false := fun c among =>
    isBlank_of_inNumber (inNumber_of_mem_signed among)
  rw [trimBlank, stripEnds_of_none unblank, String.ofList_toList, reads]

end Blockwork
