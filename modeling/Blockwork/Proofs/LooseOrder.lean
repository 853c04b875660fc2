import Blockwork.Proofs.FloatOrder
import Blockwork.Proofs.Numerals
import Blockwork.Value.Order

/-!
# The loose order of values

Two values are compared as numbers if both have one and neither is NaN, and as texts otherwise. A
chain of equalities could mix both ways. It cannot: the text of a value spells a finite number just
when the value has one, and the same holds of all texts with the same lower case form. So every
value has a key, the place of its finite number or else its text in lower case, and two values are
equal just when their keys are.

## Main statements

* `Value.spellsFinite_display_iff`: a value has a finite number just when its text spells one.
* `Value.looselyEquals_iff`: two values are equal just when their keys are.
* `Value.compareLoosely_swap`: the order can be turned round.
* `Value.looselyEquals_equivalence`: equality in the loose order is an equivalence.
-/

namespace Blockwork

namespace Value

/-! ## Numbers that are not finite -/

theorem unpack_zero : (0 : Float).toModel.unpack = .zero .positive := by
  rfl

/-- A number that is not zero is shown by its digits or by a word. -/
theorem display_of_unpack {x : Float} (h : x.toModel.unpack.compare (.zero .positive) ≠ some .eq) :
    (Value.number x).display =
      NumberStyle.plain.write .double (Binary.ofUnpacked x.toModel.unpack) := by
  have nonzero : ¬(x == 0) = true := by
    rw [beq_iff, unpack_zero]
    exact h
  rw [display, if_neg nonzero, plainText, Binary.ofFloat_eq]

/-- A number that is not finite is shown by a word for it. -/
theorem display_of_not_isFinite {x : Float} (h : x.isFinite = false) :
    (place? x = none ∧ (Value.number x).display = "NaN") ∨
      (place? x = some (toLex (2, toLex (0, 0))) ∧ (Value.number x).display = "inf") ∨
      (place? x = some (toLex (-2, toLex (0, 0))) ∧ (Value.number x).display = "-inf") := by
  have h : x.toModel.unpack.isFinite = false := h
  have shown := display_of_unpack (x := x)
  rw [place?]
  cases unpacked : x.toModel.unpack with
  | zero s => rw [unpacked] at h; cases h
  | finite s m e pos => rw [unpacked] at h; cases h
  | notANumber =>
    rw [unpacked] at shown
    exact .inl ⟨rfl, shown (by decide)⟩
  | infinity s =>
    rw [unpacked] at shown
    cases s with
    | positive => exact .inr (.inl ⟨rfl, shown (by decide)⟩)
    | negative => exact .inr (.inr ⟨rfl, shown (by decide)⟩)

/-- A finite number stands between the infinities. -/
theorem place?_of_isFinite {x : Float} (h : x.isFinite = true) :
    ∃ p, place? x = some p ∧ p ≠ toLex (2, toLex (0, 0)) ∧ p ≠ toLex (-2, toLex (0, 0)) := by
  have h : x.toModel.unpack.isFinite = true := h
  rw [place?]
  cases unpacked : x.toModel.unpack with
  | infinity s => rw [unpacked] at h; cases h
  | notANumber => rw [unpacked] at h; cases h
  | zero s => exact ⟨_, rfl, by decide, by decide⟩
  | finite s m e pos =>
    cases s with
    | positive => exact ⟨_, rfl, by simp, by simp⟩
    | negative => exact ⟨_, rfl, by simp, by simp⟩

/-! ## Finite numbers and texts -/

/-- The number of a value that has a finite one. -/
def finite? (v : Value) : Option Float := v.strictNumber?.filter Float.isFinite

theorem finite?_eq_some_iff {v : Value} {x : Float} :
    v.finite? = some x ↔ v.strictNumber? = some x ∧ x.isFinite = true := by
  rw [finite?, Option.filter_eq_some_iff]

/-- The number of a text is finite. -/
theorem finite?_text (s : String) : (text s).finite? = (text s).strictNumber? := by
  simp [finite?, strictNumber?, Option.filter_filter]

/-- A value without a finite number has none at all or is a number itself. -/
theorem finite?_eq_none {v : Value} (h : v.finite? = none) :
    v.strictNumber? = none ∨ ∃ x, v = .number x ∧ x.isFinite = false := by
  cases v with
  | text s => exact .inl (finite?_text s ▸ h)
  | boolean b => exact .inl rfl
  | number x =>
    refine .inr ⟨x, rfl, Bool.eq_false_iff.mpr fun finite => ?_⟩
    cases h.symm.trans (finite?_eq_some_iff.mpr ⟨rfl, finite⟩)

/-- A text with any other character spells no finite number. -/
theorem not_spellsFinite {s : String} (h : s.toList.any (fun c => !inNumeral c) = true) :
    ¬SpellsFinite s := by
  intro spells
  obtain ⟨c, among, other⟩ := List.any_eq_true.mp h
  rw [spells.inNumeral c among] at other
  cases other

/-- **A value has a finite number just when its text spells one.** -/
theorem spellsFinite_display_iff (v : Value) : SpellsFinite v.display ↔ v.finite?.isSome := by
  cases v with
  | text s =>
    rw [finite?_text, Option.isSome_iff_exists]
    refine exists_congr fun x => ?_
    rw [strictNumber?, Option.filter_eq_some_iff]
    rfl
  | boolean b =>
    refine iff_of_false ?_ (by simp [finite?, strictNumber?])
    cases b <;> exact not_spellsFinite (by decide)
  | number x =>
    cases finite : x.isFinite with
    | true =>
      obtain ⟨d, negative, fits, shown⟩ := display_of_isFinite finite
      rw [shown]
      have has : (Value.number x).finite?.isSome := by simp [finite?, strictNumber?, finite]
      exact iff_of_true (spellsFinite_signed fits negative) has
    | false =>
      refine iff_of_false ?_ (by simp [finite?, strictNumber?, finite])
      rcases display_of_not_isFinite finite with ⟨-, shown⟩ | ⟨-, shown⟩ | ⟨-, shown⟩ <;>
        rw [shown] <;> exact not_spellsFinite (by decide)

/-! ## The two ways to compare -/

variable {a b : Value}

theorem compareTexts_swap (a b : Value) : compareTexts b a = (compareTexts a b).swap :=
  Std.OrientedOrd.eq_swap

theorem compareTexts_eq_eq_iff :
    compareTexts a b = .eq ↔ lowerText a.display = lowerText b.display :=
  Std.LawfulEqOrd.compare_eq_iff_eq

/-- Values with numbers are compared as numbers, unless these have no order. -/
theorem compareLoosely_of_some {x y : Float} (left : a.strictNumber? = some x)
    (right : b.strictNumber? = some y) :
    compareLoosely a b = (compareNumbers x y).getD (compareTexts a b) := by
  rw [compareLoosely, left, right]
  rfl

/-- Values are compared as texts if one of them has no number. -/
theorem compareLoosely_of_none (h : a.strictNumber? = none ∨ b.strictNumber? = none) :
    compareLoosely a b = compareTexts a b := by
  rcases h with left | right
  · rw [compareLoosely, left]
    rfl
  · rw [compareLoosely, right]
    cases a.strictNumber? <;> rfl

/-- **The loose order can be turned round.** -/
theorem compareLoosely_swap (a b : Value) : compareLoosely b a = (compareLoosely a b).swap := by
  cases left : a.strictNumber? with
  | none =>
    rw [compareLoosely_of_none (.inl left), compareLoosely_of_none (.inr left), compareTexts_swap]
  | some x =>
    cases right : b.strictNumber? with
    | none =>
      rw [compareLoosely_of_none (.inl right), compareLoosely_of_none (.inr right),
        compareTexts_swap]
    | some y =>
      rw [compareLoosely_of_some left right, compareLoosely_of_some right left,
        compareNumbers_swap x y, compareTexts_swap a b]
      cases compareNumbers x y <;> rfl

/-! ## Keys -/

/-- What a value is in the loose order: the place of its finite number, or else its text in lower
case. -/
def key (v : Value) : Option FloatPlace ⊕ String :=
  match v.finite? with
  | some x => .inl (place? x)
  | none => .inr (lowerText v.display)

theorem key_of_some {x : Float} (h : a.finite? = some x) : a.key = .inl (place? x) := by
  rw [key, h]

theorem key_of_none (h : a.finite? = none) : a.key = .inr (lowerText a.display) := by
  rw [key, h]

/-- Finite numbers are compared by their places. -/
theorem compareLoosely_of_finite {x y : Float} (left : a.finite? = some x)
    (right : b.finite? = some y) : compareLoosely a b = .eq ↔ place? x = place? y := by
  obtain ⟨counts, finite⟩ := finite?_eq_some_iff.mp left
  obtain ⟨counts', finite'⟩ := finite?_eq_some_iff.mp right
  obtain ⟨p, place, -⟩ := place?_of_isFinite finite
  obtain ⟨q, place', -⟩ := place?_of_isFinite finite'
  rw [compareLoosely_of_some counts counts', compareNumbers_eq, place, place']
  exact compare_eq_iff_eq.trans (Option.some.injEq p q).symm.to_iff

/-- The texts of values never agree if just one of them has a finite number. -/
theorem compareTexts_ne_eq {x : Float} (left : a.finite? = some x) (right : b.finite? = none) :
    compareTexts a b ≠ .eq := by
  intro same
  have spells : SpellsFinite a.display := by
    rw [spellsFinite_display_iff, left]
    rfl
  have spells' := spells.of_lowerText_eq (compareTexts_eq_eq_iff.mp same)
  rw [spellsFinite_display_iff, right] at spells'
  cases spells'

/-- **A value with a finite number is not equal to one without.** -/
theorem compareLoosely_ne_eq {x : Float} (left : a.finite? = some x) (right : b.finite? = none) :
    compareLoosely a b ≠ .eq := by
  obtain ⟨counts, finite⟩ := finite?_eq_some_iff.mp left
  obtain ⟨p, place, below, above⟩ := place?_of_isFinite finite
  rcases finite?_eq_none right with numberless | ⟨y, rfl, wild⟩
  · rw [compareLoosely_of_none (.inr numberless)]
    exact compareTexts_ne_eq left right
  · rw [compareLoosely_of_some counts rfl, compareNumbers_eq, place]
    rcases display_of_not_isFinite wild with ⟨place', -⟩ | ⟨place', -⟩ | ⟨place', -⟩
    · rw [place']
      exact compareTexts_ne_eq left right
    · rw [place']
      exact compare_eq_iff_eq.not.mpr below
    · rw [place']
      exact compare_eq_iff_eq.not.mpr above

/-- **Values without finite numbers are equal just when their texts are.** Infinities are compared
as numbers, but their texts are the same just when they are. -/
theorem compareLoosely_of_not_finite (left : a.finite? = none) (right : b.finite? = none) :
    compareLoosely a b = .eq ↔ lowerText a.display = lowerText b.display := by
  rcases finite?_eq_none left with numberless | ⟨x, rfl, wild⟩
  · rw [compareLoosely_of_none (.inl numberless), compareTexts_eq_eq_iff]
  rcases finite?_eq_none right with numberless | ⟨y, rfl, wild'⟩
  · rw [compareLoosely_of_none (.inr numberless), compareTexts_eq_eq_iff]
  rw [compareLoosely_of_some rfl rfl, compareNumbers_eq, compareTexts]
  -- the places and the texts of the three numbers that are not finite are all known
  rcases display_of_not_isFinite wild with ⟨at_x, as_x⟩ | ⟨at_x, as_x⟩ | ⟨at_x, as_x⟩ <;>
    rcases display_of_not_isFinite wild' with ⟨at_y, as_y⟩ | ⟨at_y, as_y⟩ | ⟨at_y, as_y⟩ <;>
      rw [at_x, at_y, as_x, as_y] <;> decide

/-- **Two values are equal just when their keys are.** -/
theorem looselyEquals_iff : looselyEquals a b = true ↔ a.key = b.key := by
  rw [looselyEquals, decide_eq_true_iff]
  cases left : a.finite? with
  | some x =>
    cases right : b.finite? with
    | some y =>
      rw [compareLoosely_of_finite left right, key_of_some left, key_of_some right, Sum.inl.injEq]
    | none =>
      rw [key_of_some left, key_of_none right]
      exact iff_of_false (compareLoosely_ne_eq left right) Sum.inl_ne_inr
  | none =>
    cases right : b.finite? with
    | some y =>
      rw [compareLoosely_swap, Ordering.swap_eq_eq, key_of_none left, key_of_some right]
      exact iff_of_false (compareLoosely_ne_eq right left) Sum.inr_ne_inl
    | none =>
      rw [compareLoosely_of_not_finite left right, key_of_none left, key_of_none right,
        Sum.inr.injEq]

/-! ## Equal values -/

theorem compareLoosely_self (a : Value) : compareLoosely a a = .eq :=
  decide_eq_true_iff.mp (looselyEquals_iff.mpr rfl)

/-- Values that are equal are equal in the loose order. -/
theorem compareLoosely_of_beq (h : (a == b) = true) : compareLoosely a b = .eq := by
  cases a <;> cases b
  case number.number x y =>
    rw [compareLoosely_of_some rfl rfl, compareNumbers_of_beq h]
    rfl
  case text.text s t =>
    obtain rfl : s = t := of_decide_eq_true h
    exact compareLoosely_self _
  case boolean.boolean c d =>
    obtain rfl : c = d := of_decide_eq_true h
    exact compareLoosely_self _
  all_goals cases h

/-- **Equality in the loose order is an equivalence that holds of equal values, and the order can be
turned round.** Neither needs a condition on the values: NaN and the infinities, texts that spell
them and texts that spell a number with white space around it are all included. -/
theorem looselyEquals_equivalence :
    (∀ a b : Value, compareLoosely a b = (compareLoosely b a).swap) ∧
      Equivalence (fun a b : Value => looselyEquals a b = true) ∧
      ∀ a b : Value, (a == b) = true → looselyEquals a b = true := by
  refine ⟨fun a b => compareLoosely_swap b a, ⟨?_, ?_, ?_⟩, ?_⟩
  · intro a
    exact decide_eq_true (compareLoosely_self a)
  · intro a b same
    exact looselyEquals_iff.mpr (looselyEquals_iff.mp same).symm
  · intro a b c left right
    exact looselyEquals_iff.mpr ((looselyEquals_iff.mp left).trans (looselyEquals_iff.mp right))
  · intro a b same
    exact decide_eq_true (compareLoosely_of_beq same)

/-- Only equality can be chained. The order itself goes round where numbers and texts meet. -/
example :
    compareLoosely (.number 2) (.number 10) = .lt ∧
      compareLoosely (.number 10) (.text "1a") = .lt ∧
      compareLoosely (.text "1a") (.number 2) = .lt := by
  decide +kernel

end Value

end Blockwork
