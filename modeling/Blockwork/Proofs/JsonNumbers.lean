import Blockwork.Json.Record
import Blockwork.Json.Token
import Blockwork.Json.Writing
import Mathlib.Data.List.TakeWhile

/-!
# Numbers as text

The text of a number begins with a digit or a minus sign and goes on with characters of numbers, so
the reader of a JSON text takes it as one number. A natural number of 64 bits is read back as
itself. A number with a fraction is read by rounding twice, and may come back as a neighbour; that
it does not is a property of the number, which can be computed (`JsonNumber.readsBack`).

## Main statements

* `JsonNumber.spelled_write`: the text of a finite number is made of characters of numbers.
* `JsonNumber.read_decimalDigits`: a natural number of 64 bits is read back.
-/

namespace Blockwork

/-! ## Numbers that come back -/

/-- Whether a value is a number, and not an infinite one. -/
def Binary.isFinite : Binary → Bool
  | .finite .. => true
  | _ => false

namespace JsonNumber

/-- Whether a number has a text of its own. -/
def isFinite : JsonNumber → Bool
  | .integer _ => true
  | .double x => (Binary.ofFloat x).isFinite
  | .single x => (Binary.ofFloat32 x).isFinite

/-- Whether a number of a text stands for the given number, read as one of its width. -/
def standsFor (m : JsonNumber) : JsonNumber → Bool
  | .integer k =>
    match m with
    | .integer l => l = k
    | _ => false
  | .double x =>
    match (Json.number m).asDouble with
    | .ok y => y = x
    | .error _ => false
  | .single x =>
    match (Json.number m).asSingle with
    | .ok y => y = x
    | .error _ => false

/-- The number that the text of a number is read as. -/
def reread (n : JsonNumber) : JsonNumber :=
  match read n.write.toList with
  | .ok (.number m, _) => m
  | _ => n

/-- Whether the text of a number is read to its end, as a number that stands for it. -/
def readsBack (n : JsonNumber) : Bool :=
  match read n.write.toList with
  | .ok (.number m, []) => m.standsFor n
  | _ => false

theorem read_of_readsBack {n : JsonNumber} (h : n.readsBack = true) :
    read n.write.toList = .ok (.number n.reread, []) := by
  unfold readsBack at h
  split at h
  · rename_i hread
    rw [reread, hread]
  · cases h

theorem standsFor_of_readsBack {n : JsonNumber} (h : n.readsBack = true) :
    n.reread.standsFor n = true := by
  have hread := read_of_readsBack h
  unfold readsBack at h
  rw [hread] at h
  exact h

theorem write_of_not_isFinite {n : JsonNumber} (h : n.isFinite = false) : n.write = "null" := by
  have style (f : BinaryFormat) (b : Binary) (hb : b.isFinite = false) :
      NumberStyle.json.write f b = "null" := by
    cases b with
    | nan => rfl
    | infinite negative => rfl
    | finite negative mantissa exponent => cases hb
  cases n with
  | integer k => cases h
  | double x => exact style _ _ h
  | single x => exact style _ _ h

/-- Only a finite number comes back. -/
theorem isFinite_of_readsBack {n : JsonNumber} (h : n.readsBack = true) : n.isFinite = true := by
  cases hn : n.isFinite with
  | true => rfl
  | false =>
    rw [readsBack, write_of_not_isFinite hn] at h
    cases h

/-- A number that comes back is read as the same number of 64 bits. -/
theorem asDouble_reread {x : Float} (h : (double x).readsBack = true) :
    (Json.number (double x).reread).asDouble = .ok x := by
  have stands := standsFor_of_readsBack h
  unfold standsFor at stands
  simp only at stands
  split at stands
  · rename_i y hy
    rw [hy, of_decide_eq_true stands]
  · cases stands

/-- A number that comes back is read as the same number of 32 bits. -/
theorem asSingle_reread {x : Float32} (h : (single x).readsBack = true) :
    (Json.number (single x).reread).asSingle = .ok x := by
  have stands := standsFor_of_readsBack h
  unfold standsFor at stands
  simp only at stands
  split at stands
  · rename_i y hy
    rw [hy, of_decide_eq_true stands]
  · cases stands

end JsonNumber

/-! ## Characters of numbers -/

/-- Whether a text is taken for a number up to its end. -/
structure Spelled (cs : List Char) : Prop where
  opens : ∃ c rest, cs = c :: rest ∧ (c.isDigit = true ∨ c = '-')
  goesOn : ∀ c ∈ cs, JsonLexer.inNumber c = true

theorem JsonLexer.inNumber_of_isDigit {c : Char} (h : c.isDigit = true) : inNumber c = true := by
  simp [inNumber, h]

theorem isDigit_of_mem_decimalDigits {n : Nat} {c : Char} (h : c ∈ decimalDigits n) :
    c.isDigit = true :=
  Nat.isDigit_of_mem_toDigits (by decide) (by decide) h

/-- A natural number has a leading digit. -/
theorem exists_decimalDigits (n : Nat) :
    ∃ c rest, decimalDigits n = c :: rest ∧ c.isDigit = true := by
  cases h : decimalDigits n with
  | nil => exact absurd h Nat.toDigits_ne_nil
  | cons c rest => exact ⟨c, rest, rfl, isDigit_of_mem_decimalDigits (h ▸ List.mem_cons_self)⟩

namespace Spelled

variable {cs ds : List Char}

theorem minus (h : Spelled cs) : Spelled ('-' :: cs) where
  opens := ⟨'-', cs, rfl, .inr rfl⟩
  goesOn c hc := by
    rcases List.mem_cons.1 hc with rfl | hc
    · rfl
    · exact h.goesOn c hc

theorem append (h : Spelled cs) (hd : ∀ c ∈ ds, JsonLexer.inNumber c = true) :
    Spelled (cs ++ ds) where
  opens := by
    obtain ⟨c, rest, rfl, hc⟩ := h.opens
    exact ⟨c, rest ++ ds, rfl, hc⟩
  goesOn c hc := by
    rcases List.mem_append.1 hc with hc | hc
    · exact h.goesOn c hc
    · exact hd c hc

theorem digits (n : Nat) : Spelled (decimalDigits n) where
  opens := by
    obtain ⟨c, rest, h, hc⟩ := exists_decimalDigits n
    exact ⟨c, rest, h, .inl hc⟩
  goesOn _ hc := JsonLexer.inNumber_of_isDigit (isDigit_of_mem_decimalDigits hc)

/-- The first digits of a number, as long as there is one. -/
theorem take_digits (n k : Nat) (h : 0 < k) : Spelled ((decimalDigits n).take k) where
  opens := by
    obtain ⟨c, rest, hn, hc⟩ := exists_decimalDigits n
    obtain ⟨k, rfl⟩ := Nat.exists_eq_succ_of_ne_zero (Nat.ne_of_gt h)
    exact ⟨c, rest.take k, by rw [hn, List.take_succ_cons], .inl hc⟩
  goesOn _ hc :=
    JsonLexer.inNumber_of_isDigit (isDigit_of_mem_decimalDigits (List.mem_of_mem_take hc))

end Spelled

namespace Decimal

theorem inNumber_of_mem_zeros {k : Nat} {c : Char} (h : c ∈ List.replicate k '0') :
    JsonLexer.inNumber c = true := by
  rw [List.eq_of_mem_replicate h]
  rfl

theorem inNumber_of_mem_drop {n k : Nat} {c : Char} (h : c ∈ (decimalDigits n).drop k) :
    JsonLexer.inNumber c = true :=
  JsonLexer.inNumber_of_isDigit (isDigit_of_mem_decimalDigits (List.mem_of_mem_drop h))

theorem spelled_positional (d : Decimal) (pointZero : Bool) : Spelled (d.positional pointZero) := by
  unfold positional
  split
  · -- zeros after the digits, and perhaps a point and a zero
    refine ((Spelled.digits d.digits).append fun c hc => inNumber_of_mem_zeros hc).append ?_
    intro c hc
    cases pointZero with
    | false => cases hc
    | true =>
      simp only [if_true, List.mem_cons, List.not_mem_nil, or_false] at hc
      rcases hc with rfl | rfl <;> rfl
  · dsimp only
    split
    · -- the point among the digits
      refine (Spelled.take_digits _ _ (by omega)).append fun c hc => ?_
      rcases List.mem_cons.1 hc with rfl | hc
      · rfl
      · exact inNumber_of_mem_drop hc
    · -- the point before the digits, and a zero before the point
      refine ⟨⟨'0', _, rfl, .inl rfl⟩, fun c hc => ?_⟩
      simp only [List.cons_append, List.mem_cons, List.mem_append] at hc
      rcases hc with rfl | rfl | hc | hc
      · rfl
      · rfl
      · exact inNumber_of_mem_zeros hc
      · exact (Spelled.digits _).goesOn c hc

theorem spelled_scientific (d : Decimal) : Spelled d.scientific := by
  unfold scientific
  refine ((Spelled.take_digits _ 1 (by decide)).append fun c hc => ?_).append fun c hc => ?_
  · -- the point and the digits after it, if there are any
    split at hc
    · cases hc
    · rcases List.mem_cons.1 hc with rfl | hc
      · rfl
      · exact inNumber_of_mem_drop hc
  · -- the mark, the sign and the digits of the exponent
    rcases List.mem_cons.1 hc with rfl | hc
    · rfl
    · rcases List.mem_cons.1 hc with rfl | hc
      · split <;> rfl
      · exact (Spelled.digits _).goesOn c hc

end Decimal

namespace JsonNumber

theorem spelled_style (f : BinaryFormat) {b : Binary} (h : b.isFinite = true) :
    Spelled (NumberStyle.json.write f b).toList := by
  cases b with
  | nan => cases h
  | infinite negative => cases h
  | finite negative mantissa exponent =>
    have body (d : Decimal) (p : Bool) :
        Spelled (if p then d.positional true else d.scientific) := by
      cases p with
      | false => exact d.spelled_scientific
      | true => exact d.spelled_positional true
    cases negative with
    | false =>
      simp only [NumberStyle.write, String.toList_append, String.toList_ofList]
      exact body _ _
    | true =>
      simp only [NumberStyle.write, String.toList_append, String.toList_ofList]
      exact (body _ _).minus

/-- The text of a finite number is one number to a reader. -/
theorem spelled_write {n : JsonNumber} (h : n.isFinite = true) : Spelled n.write.toList := by
  cases n with
  | integer n =>
    rw [write, intText, String.toList_ofList]
    split
    · exact (Spelled.digits _).minus
    · exact Spelled.digits _
  | double x => exact spelled_style _ h
  | single x => exact spelled_style _ h

/-! ## Natural numbers come back -/

theorem le_ofDigitChars (cs : List Char) (n : Nat) : n ≤ Nat.ofDigitChars 10 cs n := by
  induction cs generalizing n with
  | nil => exact Nat.le_refl n
  | cons c rest ih =>
    rw [Nat.ofDigitChars_cons]
    exact Nat.le_trans (by omega) (ih _)

/-- Digits that fit the significand are taken up. -/
theorem absorb_of_lt {cs : List Char} {n : Nat} (h : Nat.ofDigitChars 10 cs n < UInt64.size) :
    absorb n cs = (Nat.ofDigitChars 10 cs n, []) := by
  induction cs generalizing n with
  | nil => rfl
  | cons c rest ih =>
    rw [Nat.ofDigitChars_cons] at h ⊢
    have fits : 10 * n + (c.toNat - '0'.toNat) < UInt64.size :=
      Nat.lt_of_le_of_lt (le_ofDigitChars rest _) h
    simp only [absorb, if_pos fits]
    exact ih h

theorem splitDigits_of_digits {cs : List Char} (h : ∀ c ∈ cs, c.isDigit = true) :
    splitDigits cs = (cs, []) := by
  rw [splitDigits, List.takeWhile_eq_self_iff.2 h, List.dropWhile_eq_nil_iff.2 h]

/-- Only zero begins with a zero. -/
theorem head_decimalDigits {n : Nat} (h : 0 < n) (rest : List Char) :
    decimalDigits n ≠ '0' :: rest := by
  induction n using Nat.strongRecOn generalizing rest with
  | ind n ih =>
    rw [decimalDigits, Nat.toDigits_eq_if (by decide)]
    split
    · intro heq
      have digit : Nat.digitChar n = '0' := (List.cons.inj heq).1
      rw [Nat.digitChar_eq_zero] at digit
      omega
    · intro heq
      obtain ⟨c, left, hleft, -⟩ := exists_decimalDigits (n / 10)
      have hleft' : Nat.toDigits 10 (n / 10) = c :: left := hleft
      rw [hleft', List.cons_append] at heq
      refine ih (n / 10) (by omega) (by omega) left ?_
      rw [hleft, (List.cons.inj heq).1]

/-- A natural number of 64 bits is read back. -/
theorem read_decimalDigits {n : Nat} (h : n < UInt64.size) :
    read (decimalDigits n) = .ok (.number (.integer n), []) := by
  rcases Nat.eq_zero_or_pos n with rfl | pos
  · rfl
  · obtain ⟨c, rest, heq, hc⟩ := exists_decimalDigits n
    have zero : c ≠ '0' := fun h => head_decimalDigits pos rest (h ▸ heq)
    have minus : c ≠ '-' := by
      rintro rfl
      cases hc
    have value : Nat.ofDigitChars 10 (c :: rest) 0 = n := by
      rw [← heq]
      exact Nat.ofDigitChars_ten_toDigits
    have digits : ∀ d ∈ c :: rest, d.isDigit = true := fun d hd =>
      isDigit_of_mem_decimalDigits (heq ▸ hd)
    have absorbed : absorb 0 (c :: rest) = (n, []) := by
      rw [absorb_of_lt (by rwa [value]), value]
    rw [heq]
    simp [read, minus, zero, splitDigits_of_digits digits, readTail, ofLexeme, absorbed]

theorem write_nat (n : Nat) : (integer n).write.toList = decimalDigits n := by
  simp [write, intText]

theorem reread_nat {n : Nat} (h : n < UInt64.size) : (integer n).reread = integer n := by
  rw [reread, write_nat, read_decimalDigits h]

theorem readsBack_nat {n : Nat} (h : n < UInt64.size) : (integer n).readsBack = true := by
  rw [readsBack, write_nat, read_decimalDigits h]
  simp [standsFor]

end JsonNumber

end Blockwork
