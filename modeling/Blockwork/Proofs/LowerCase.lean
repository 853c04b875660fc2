import Blockwork.Json.Token
import Blockwork.Text.Blank
import Blockwork.Text.Lower
import Mathlib.Tactic.Common

/-!
# Numbers in lower case

Lower case changes no character of a number but the mark of an exponent, and no other character
becomes one of a number. So a text whose lower case form looks like a number looks like one itself.
White space counts as a character of a number here, since it may stand around one.

## Main statements

* `toList_lowerText`: what lower case makes of a text of such characters.
* `inNumeral_of_lowerText`: a text has only such characters if its lower case form has.
-/

namespace Blockwork

/-- Whether a character can be part of a number, or stand around one. -/
def inNumeral (c : Char) : Bool := isBlank c || JsonLexer.inNumber c

/-- The lower case form of a character of a number. -/
def lowerMark (c : Char) : Char := if c = 'E' then 'e' else c

theorem inNumeral_lowerMark {c : Char} (h : inNumeral c = true) :
    inNumeral (lowerMark c) = true := by
  by_cases mark : c = 'E'
  · subst mark
    decide
  · rwa [lowerMark, if_neg mark]

/-! ## Characters -/

/-- What lower case does to ASCII characters. -/
theorem lower_ascii : ∀ n < 0x80,
    (inNumeral (Char.ofNat n) = true → (Char.ofNat n).toLower = lowerMark (Char.ofNat n)) ∧
      (inNumeral (Char.ofNat n).toLower = true → inNumeral (Char.ofNat n) = true) := by
  decide

theorem bounds_of_inNumber {c : Char} (h : JsonLexer.inNumber c = true) :
    0x2B ≤ c.toNat ∧ c.toNat ≤ 0x65 := by
  simp only [JsonLexer.inNumber, Bool.or_eq_true, decide_eq_true_eq] at h
  rcases h with ((((digit | rfl) | rfl) | rfl) | rfl) | rfl
  · obtain ⟨zero_le, le_nine⟩ := Bool.and_eq_true_iff.mp digit
    have low : 48 ≤ c.toNat := UInt32.le_iff_toNat_le.mp (of_decide_eq_true zero_le)
    have high : c.toNat ≤ 57 := UInt32.le_iff_toNat_le.mp (of_decide_eq_true le_nine)
    omega
  all_goals decide

/-- No character of a number is blank. -/
theorem isBlank_of_inNumber {c : Char} (h : JsonLexer.inNumber c = true) : isBlank c = false := by
  have := bounds_of_inNumber h
  simp only [isBlank, Bool.or_eq_false_iff, Bool.and_eq_false_iff, decide_eq_false_iff_not]
  omega

/-- The blank characters beyond ASCII, as runs from one number to another. -/
def blankRuns : List (Nat × Nat) :=
  [(0x85, 0x85), (0xA0, 0xA0), (0x1680, 0x1680), (0x2000, 0x200A), (0x2028, 0x2029),
    (0x202F, 0x202F), (0x205F, 0x205F), (0x3000, 0x3000)]

/-- Beyond the mark of an exponent, only blank characters can stand in or around a number. -/
theorem exists_blankRun {c : Char} (h : inNumeral c = true) (high : 0x66 ≤ c.toNat) :
    ∃ b ∈ blankRuns, b.1 ≤ c.toNat ∧ c.toNat ≤ b.2 := by
  have not_number : JsonLexer.inNumber c = false := by
    refine Bool.eq_false_iff.mpr fun number => ?_
    have := (bounds_of_inNumber number).2
    omega
  rw [inNumeral, not_number, Bool.or_false, isBlank] at h
  simp only [Bool.or_eq_true, Bool.and_eq_true, decide_eq_true_eq] at h
  simp only [blankRuns, List.mem_cons, List.not_mem_nil, or_false, exists_eq_or_imp,
    exists_eq_left]
  omega

/-- Whether a run of characters has no blank ones. -/
def clearOfBlanks (first last : Int) : Bool :=
  blankRuns.all fun b => last < b.1 || b.2 < first

/-- No blank character has a lower case form, and none is one. -/
theorem clear_lowerRuns : lowerRuns.all (fun r => clearOfBlanks r.first r.last &&
    (r.last < 0x80 || (0x66 ≤ r.first + r.shift &&
      clearOfBlanks (r.first + r.shift) (r.last + r.shift)))) = true := by
  decide

theorem not_clearOfBlanks {c : Char} {first last : Int} (h : inNumeral c = true)
    (high : 0x66 ≤ c.toNat) (le : first ≤ c.toNat) (le' : (c.toNat : Int) ≤ last) :
    clearOfBlanks first last = false := by
  obtain ⟨b, among, above, below⟩ := exists_blankRun h high
  rw [clearOfBlanks, List.all_eq_false]
  exact ⟨b, among, by simp; omega⟩

/-- The run that a character is found in, and the run of its form, have no blank characters. -/
theorem bounds_of_found {c : Char} {r : CaseRun} (found : lowerRuns.find? (fun r =>
      r.first ≤ c.toNat && c.toNat ≤ r.last && (c.toNat - r.first) % r.step = 0) = some r) :
    r.first ≤ c.toNat ∧ c.toNat ≤ r.last ∧ clearOfBlanks r.first r.last = true ∧
      (0x80 ≤ c.toNat → 0x66 ≤ r.first + r.shift ∧
        clearOfBlanks (r.first + r.shift) (r.last + r.shift) = true) := by
  have bounds := List.find?_some found
  have all := List.all_eq_true.mp clear_lowerRuns r (List.mem_of_find?_eq_some found)
  simp only [Bool.and_eq_true, Bool.or_eq_true, decide_eq_true_eq] at bounds all
  refine ⟨bounds.1.1, bounds.1.2, all.1, fun beyond => ?_⟩
  rcases all.2 with ascii | image
  · omega
  · exact image

/-- **Lower case changes no character of a number but the mark of an exponent.** -/
theorem lowerChar_of_inNumeral {c : Char} (h : inNumeral c = true) : lowerChar c = lowerMark c := by
  rw [lowerChar]
  split
  · next ascii =>
    have facts := lower_ascii c.toNat ascii
    rw [Char.ofNat_toNat] at facts
    exact facts.1 h
  · next beyond =>
    have mark : lowerMark c = c := if_neg (by rintro rfl; exact beyond (by decide))
    split
    · next r found =>
      obtain ⟨le, le', clear, -⟩ := bounds_of_found found
      rw [not_clearOfBlanks h (by omega) (by omega) (by omega)] at clear
      cases clear
    · exact mark.symm

/-- **What is a character of a number in lower case was one before.** -/
theorem inNumeral_of_lowerChar {c : Char} (h : inNumeral (lowerChar c) = true) :
    inNumeral c = true := by
  rw [lowerChar] at h
  split at h
  · next ascii =>
    have facts := lower_ascii c.toNat ascii
    rw [Char.ofNat_toNat] at facts
    exact facts.2 h
  · next beyond =>
    split at h
    · next r found =>
      obtain ⟨le, le', -, image⟩ := bounds_of_found found
      obtain ⟨high, clear⟩ := image (by omega)
      by_cases valid : (c.toNat + r.shift).toNat.isValidChar
      · have number : (Char.ofNat (c.toNat + r.shift).toNat).toNat = (c.toNat + r.shift).toNat := by
          rw [Char.ofNat, dif_pos valid]
          rfl
        rw [not_clearOfBlanks h (by omega) (by omega) (by omega)] at clear
        cases clear
      · rw [Char.ofNat, dif_neg valid] at h
        exact absurd h (by decide)
    · exact h

/-! ## Texts -/

theorem lowerAfter_of_inNumeral (before : List Char) {cs : List Char}
    (h : ∀ c ∈ cs, inNumeral c = true) : lowerAfter before cs = cs.map lowerMark := by
  induction cs generalizing before with
  | nil => rfl
  | cons c cs ih =>
    have here := h c List.mem_cons_self
    have sigma : c ≠ 'Σ' := by rintro rfl; revert here; decide
    have dotted : c ≠ 'İ' := by rintro rfl; revert here; decide
    rw [lowerAfter, ih _ fun d among => h d (List.mem_cons_of_mem c among)]
    simp [sigma, dotted, lowerChar_of_inNumeral here]

theorem inNumeral_of_lowerAfter (before : List Char) {cs : List Char}
    (h : ∀ d ∈ lowerAfter before cs, inNumeral d = true) : ∀ c ∈ cs, inNumeral c = true := by
  induction cs generalizing before with
  | nil => simp
  | cons c cs ih =>
    have parts : inNumeral c = true ∧ ∀ d ∈ lowerAfter (c :: before) cs, inNumeral d = true := by
      rw [lowerAfter] at h
      refine ⟨?_, fun d among => h d (List.mem_append_right _ among)⟩
      split at h
      · split at h
        · exact absurd (h 'ς' (by simp)) (by decide)
        · exact absurd (h 'σ' (by simp)) (by decide)
      · split at h
        · exact absurd (h 'i' (by simp)) (by decide)
        · exact inNumeral_of_lowerChar (h _ (by simp))
    exact List.forall_mem_cons.mpr ⟨parts.1, ih _ parts.2⟩

/-- **The lower case form of a text that looks like a number.** -/
theorem toList_lowerText {s : String} (h : ∀ c ∈ s.toList, inNumeral c = true) :
    (lowerText s).toList = s.toList.map lowerMark := by
  rw [lowerText, String.toList_ofList, lowerAfter_of_inNumeral [] h]

/-- **A text looks like a number if its lower case form does.** -/
theorem inNumeral_of_lowerText {s : String} (h : ∀ d ∈ (lowerText s).toList, inNumeral d = true) :
    ∀ c ∈ s.toList, inNumeral c = true := by
  rw [lowerText, String.toList_ofList] at h
  exact inNumeral_of_lowerAfter [] h

end Blockwork
