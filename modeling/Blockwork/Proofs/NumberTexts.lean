import Blockwork.Proofs.FloatRounding
import Blockwork.Proofs.JsonNumbers
import Blockwork.Value
import Mathlib.Tactic.Linarith
import Mathlib.Tactic.Ring

/-!
# Texts of finite numbers

The text that shows a finite number is read as a finite number. It spells the shortest decimal that
reads back to the number, and that decimal is no further away than halfway to the next number. So it
is below the point where numbers overflow, even for the largest number, whose mantissa is odd.

## Main statements

* `Decimal.fits_shortest`: the shortest decimal of a finite number does not overflow.
* `Decimal.readDecimal_positional`: a decimal that is written without an exponent is read back.
* `Value.display_of_isFinite`, `readNumber?_signed`: so the text of a finite number is read as a
  finite number.
-/

namespace Blockwork

/-! ## Shortest decimals -/

namespace Decimal

/-- Whether a decimal is below the point where 64-bit numbers overflow. -/
def Fits (d : Decimal) : Prop :=
  d.digits * 10 ^ d.exponent.toNat < overflowAt 0 * 10 ^ (-d.exponent).toNat

theorem fits_zero : Fits ⟨0, 0⟩ := by
  have := overflowAt_pos 0
  show 0 * 10 ^ 0 < overflowAt 0 * 10 ^ 0
  omega

/-- A zero at the end moves into the exponent. -/
theorem Fits.div_ten {d : Decimal} (h : d.Fits) (ten : d.digits % 10 = 0) :
    Fits ⟨d.digits / 10, d.exponent + 1⟩ := by
  obtain ⟨digits, exponent⟩ := d
  obtain ⟨k, rfl⟩ : ∃ k, digits = 10 * k := ⟨digits / 10, by dsimp only at ten; omega⟩
  have h : 10 * k * 10 ^ exponent.toNat < overflowAt 0 * 10 ^ (-exponent).toNat := h
  show 10 * k / 10 * 10 ^ (exponent + 1).toNat < overflowAt 0 * 10 ^ (-(exponent + 1)).toNat
  rw [Nat.mul_div_cancel_left k (by decide)]
  by_cases whole : 0 ≤ exponent
  · rw [show (exponent + 1).toNat = exponent.toNat + 1 by omega,
      show (-(exponent + 1)).toNat = (-exponent).toNat by omega, Nat.pow_succ]
    linarith
  · rw [show (exponent + 1).toNat = exponent.toNat by omega]
    rw [show (-exponent).toNat = (-(exponent + 1)).toNat + 1 by omega, Nat.pow_succ] at h
    linarith

theorem Fits.trimmed {d : Decimal} (h : d.Fits) : d.trimmed.Fits := by
  fun_induction Decimal.trimmed d with
  | case1 d zero => exact fits_zero
  | case2 d nonzero ten ih => exact ih (h.div_ten ten)
  | case3 d nonzero kept => exact h

/-- A candidate that is found reads back. -/
theorem Scaled.readsBack_of_nearest? {s : Scaled} {narrow : Bool} {tie : Tie} {c : Nat}
    (h : s.nearest? narrow tie = some c) : s.readsBack narrow c = true := by
  unfold nearest? at h
  dsimp only at h
  generalize s.mantissa * s.up / s.down = k at h
  have parity : k + k % 2 = k ∨ k + k % 2 = k + 1 := by omega
  cases lower : s.readsBack narrow k <;> cases upper : s.readsBack narrow (k + 1) <;>
    rw [lower, upper] at h <;> dsimp only at h
  · cases h
  · cases h
    exact upper
  · cases h
    exact lower
  · have either (n : Nat) (near : n = k ∨ n = k + 1) : s.readsBack narrow n = true := by
      rcases near with rfl | rfl
      · exact lower
      · exact upper
    refine either c ?_
    split at h
    · cases h
      exact .inl rfl
    · cases h
      exact .inr rfl
    · cases tie <;> cases h
      · exact .inr rfl
      · exact parity

/-- Half a place above the largest mantissa is where numbers overflow; below an even mantissa there
is room. -/
theorem mantissa_lt_overflow {m : Nat} {e : Int} (lt : m < 2 ^ 53) (le : e ≤ 971) :
    (2 * m + 1) * 2 ^ e.toNat ≤ 2 * overflowAt 0 * 2 ^ (-e).toNat ∧
      (m % 2 = 0 → (2 * m + 1) * 2 ^ e.toNat < 2 * overflowAt 0 * 2 ^ (-e).toNat) := by
  have bound : (2 ^ 54 - 1) * 2 ^ e.toNat ≤ 2 * overflowAt 0 * 2 ^ (-e).toNat := calc
    (2 ^ 54 - 1) * 2 ^ e.toNat ≤ overflowAt (-1) := le_overflowAt (by omega)
    _ = 2 * overflowAt 0 := twice_overflowAt.symm
    _ ≤ 2 * overflowAt 0 * 2 ^ (-e).toNat := Nat.le_mul_of_pos_right _ (Nat.two_pow_pos _)
  have pos : 0 < 2 ^ e.toNat := Nat.two_pow_pos _
  have mantissa : 2 * m + 1 ≤ 2 ^ 54 - 1 := by omega
  constructor
  · exact Nat.le_trans (Nat.mul_le_mul_right _ mantissa) bound
  · intro even
    have mantissa : 2 * m + 1 < 2 ^ 54 - 1 := by omega
    exact Nat.lt_of_lt_of_le (Nat.mul_lt_mul_of_pos_right mantissa pos) bound
/-- What reads back is at most half a place above the number, and less if the mantissa is odd. -/
theorem Scaled.le_of_readsBack {s : Scaled} {narrow : Bool} {c : Nat}
    (h : s.readsBack narrow c = true) :
    4 * c * s.down ≤ (4 * s.mantissa + 2) * s.up ∧
      (s.mantissa % 2 ≠ 0 → 4 * c * s.down < (4 * s.mantissa + 2) * s.up) := by
  rw [readsBack] at h
  by_cases even : s.mantissa % 2 = 0
  · rw [if_pos even] at h
    exact ⟨of_decide_eq_true (Bool.and_eq_true_iff.mp h).2, fun odd => absurd even odd⟩
  · rw [if_neg even] at h
    have lt := of_decide_eq_true (Bool.and_eq_true_iff.mp h).2
    exact ⟨Nat.le_of_lt lt, fun _ => lt⟩

/-- A decimal that reads back to a finite number does not overflow. -/
theorem fits_of_readsBack {m : Nat} {e place : Int} {narrow : Bool} {c : Nat} (lt : m < 2 ^ 53)
    (le : e ≤ 971) (h : (scale m e place).readsBack narrow c = true) : Fits ⟨c, place⟩ := by
  obtain ⟨bound, strict⟩ := mantissa_lt_overflow lt le
  obtain ⟨near, nearer⟩ : 4 * c * (2 ^ (-e).toNat * 10 ^ place.toNat) ≤
        (4 * m + 2) * (2 ^ e.toNat * 10 ^ (-place).toNat) ∧
      (m % 2 ≠ 0 → 4 * c * (2 ^ (-e).toNat * 10 ^ place.toNat) <
        (4 * m + 2) * (2 ^ e.toNat * 10 ^ (-place).toNat)) := Scaled.le_of_readsBack h
  have high : (4 * m + 2) * (2 ^ e.toNat * 10 ^ (-place).toNat) =
      2 * ((2 * m + 1) * 2 ^ e.toNat) * 10 ^ (-place).toNat := by ring
  have pos : 0 < 10 ^ (-place).toNat := Nat.pow_pos (by decide)
  rw [high] at near nearer
  have below : 4 * c * (2 ^ (-e).toNat * 10 ^ place.toNat) <
      2 * (2 * overflowAt 0 * 2 ^ (-e).toNat) * 10 ^ (-place).toNat := by
    by_cases even : m % 2 = 0
    · have := strict even
      exact Nat.lt_of_le_of_lt near (Nat.mul_lt_mul_of_pos_right (by omega) pos)
    · exact Nat.lt_of_lt_of_le (nearer even) (Nat.mul_le_mul_right _ (by omega))
  show c * 10 ^ place.toNat < overflowAt 0 * 10 ^ (-place).toNat
  refine Nat.lt_of_mul_lt_mul_left (a := 4 * 2 ^ (-e).toNat) ?_
  calc 4 * 2 ^ (-e).toNat * (c * 10 ^ place.toNat)
      = 4 * c * (2 ^ (-e).toNat * 10 ^ place.toNat) := by ring
    _ < 2 * (2 * overflowAt 0 * 2 ^ (-e).toNat) * 10 ^ (-place).toNat := below
    _ = 4 * 2 ^ (-e).toNat * (overflowAt 0 * 10 ^ (-place).toNat) := by ring

theorem fits_exact {m : Nat} {e : Int} (lt : m < 2 ^ 53) (le : e ≤ 971) : (exact m e).Fits := by
  have bound := (mantissa_lt_overflow lt le).1
  rw [exact]
  split
  · next whole =>
    have pos := Nat.two_pow_pos e.toNat
    rw [show (-e).toNat = 0 by omega, Nat.pow_zero, Nat.mul_one] at bound
    show m * 2 ^ e.toNat * 10 ^ 0 < overflowAt 0 * 10 ^ 0
    linarith
  · next part =>
    rw [show e.toNat = 0 by omega, Nat.pow_zero, Nat.mul_one] at bound
    show m * 5 ^ (-e).toNat * 10 ^ e.toNat < overflowAt 0 * 10 ^ (-e).toNat
    rw [show e.toNat = 0 by omega, Nat.pow_zero, Nat.mul_one, show 10 = 2 * 5 from rfl, Nat.mul_pow,
      ← Nat.mul_assoc]
    exact Nat.mul_lt_mul_of_pos_right (by linarith) (Nat.pow_pos (by decide))

/-- **The shortest decimal of a finite number does not overflow.** -/
theorem fits_shortest (tie : Tie) {m : Nat} {e : Int} (lt : m < 2 ^ 53) (le : e ≤ 971) :
    (shortest .double tie m e).Fits := by
  refine Fits.trimmed ?_
  generalize hfound : List.findSome? _ (List.range 17) = found
  cases found with
  | none => exact fits_exact lt le
  | some d =>
    obtain ⟨n, -, candidate⟩ := List.exists_of_findSome?_eq_some hfound
    obtain ⟨c, near, rfl⟩ := Option.map_eq_some_iff.mp candidate
    exact fits_of_readsBack lt le (Scaled.readsBack_of_nearest? near)

end Decimal

/-! ## Reading what is written -/

theorem digitsValue_eq (cs : List Char) : digitsValue cs = Nat.ofDigitChars 10 cs 0 := by
  rw [Nat.ofDigitChars_eq_foldl]
  rfl

theorem digitsValue_decimalDigits (n : Nat) : digitsValue (decimalDigits n) = n := by
  rw [digitsValue_eq]
  exact Nat.ofDigitChars_ten_toDigits

/-- Zeros in front count nothing. -/
theorem digitsValue_zeros_append (k : Nat) (cs : List Char) :
    digitsValue (List.replicate k '0' ++ cs) = digitsValue cs := by
  rw [digitsValue_eq, digitsValue_eq, Nat.ofDigitChars_append, Nat.ofDigitChars_replicate_zero,
    Nat.mul_zero]

/-- Zeros at the end multiply by ten. -/
theorem digitsValue_append_zeros (k : Nat) (cs : List Char) :
    digitsValue (cs ++ List.replicate k '0') = digitsValue cs * 10 ^ k := by
  rw [digitsValue_eq, digitsValue_eq, Nat.ofDigitChars_append, Nat.ofDigitChars_replicate_zero,
    Nat.mul_comm]

theorem splitDigits_append {ds rest : List Char} (digits : ∀ c ∈ ds, c.isDigit = true)
    (stops : ∀ c ∈ rest.head?, c.isDigit = false) : splitDigits (ds ++ rest) = (ds, rest) := by
  have none_left : splitDigits rest = ([], rest) := by
    cases rest with
    | nil => rfl
    | cons c rest =>
      have := stops c rfl
      simp [splitDigits, this]
  rw [splitDigits] at none_left
  obtain ⟨took, dropped⟩ := Prod.mk.inj none_left
  rw [splitDigits, List.takeWhile_append_of_pos digits, List.dropWhile_append_of_pos digits, took,
    dropped, List.append_nil]

theorem splitDigits_self {ds : List Char} (digits : ∀ c ∈ ds, c.isDigit = true) :
    splitDigits ds = (ds, []) := by
  have split : splitDigits (ds ++ []) = (ds, []) := splitDigits_append digits (by simp)
  rwa [List.append_nil] at split

theorem readDecimal_whole {ds : List Char} (digits : ∀ c ∈ ds, c.isDigit = true)
    (nonempty : ds ≠ []) : readDecimal ds = some (scaledFloat (digitsValue ds) 0) := by
  have whole : ds.isEmpty = false := by simpa using nonempty
  simp [readDecimal, splitDigits_self digits, whole, readExponent]

theorem readDecimal_pointed {ds fs : List Char} (digits : ∀ c ∈ ds, c.isDigit = true)
    (fraction : ∀ c ∈ fs, c.isDigit = true) (nonempty : ds ≠ []) :
    readDecimal (ds ++ '.' :: fs) =
      some (scaledFloat (digitsValue (ds ++ fs)) (-(fs.length : Int))) := by
  have split : splitDigits (ds ++ '.' :: fs) = (ds, '.' :: fs) :=
    splitDigits_append digits (by simp)
  have whole : ds.isEmpty = false := by simpa using nonempty
  simp [readDecimal, split, splitDigits_self fraction, whole, readExponent]

theorem isDigit_of_digit_or_zero {n k : Nat} {c : Char}
    (h : c ∈ decimalDigits n ∨ c ∈ List.replicate k '0') : c.isDigit = true := by
  rcases h with digit | zero
  · exact isDigit_of_mem_decimalDigits digit
  · rw [List.eq_of_mem_replicate zero]
    rfl

/-- Digits with zeros behind them. -/
theorem readDecimal_digits_zeros (n k : Nat) :
    readDecimal (decimalDigits n ++ List.replicate k '0') = some (scaledFloat (n * 10 ^ k) 0) := by
  have exists_digit : decimalDigits n ≠ [] := Nat.toDigits_ne_nil
  rw [readDecimal_whole _ (by simp [exists_digit]), digitsValue_append_zeros,
    digitsValue_decimalDigits]
  exact fun c among => isDigit_of_digit_or_zero (List.mem_append.mp among)

/-- Digits with a point among them. -/
theorem readDecimal_point_inside {n places : Nat} (inside : places < (decimalDigits n).length) :
    readDecimal ((decimalDigits n).take ((decimalDigits n).length - places) ++
        '.' :: (decimalDigits n).drop ((decimalDigits n).length - places)) =
      some (scaledFloat n (-(places : Int))) := by
  have exists_digit : decimalDigits n ≠ [] := Nat.toDigits_ne_nil
  have left : (decimalDigits n).length - ((decimalDigits n).length - places) = places := by omega
  rw [readDecimal_pointed (fun c among => isDigit_of_mem_decimalDigits (List.mem_of_mem_take among))
    (fun c among => isDigit_of_mem_decimalDigits (List.mem_of_mem_drop among)),
    List.take_append_drop, digitsValue_decimalDigits, List.length_drop, left]
  simp [exists_digit]
  omega

/-- Digits behind the point, with zeros before them. -/
theorem readDecimal_point_outside {n places : Nat} (outside : (decimalDigits n).length ≤ places) :
    readDecimal ('0' :: '.' ::
        (List.replicate (places - (decimalDigits n).length) '0' ++ decimalDigits n)) =
      some (scaledFloat n (-(places : Int))) := by
  generalize hzeros : places - (decimalDigits n).length = zeros
  have length : (List.replicate zeros '0' ++ decimalDigits n).length = places := by
    rw [List.length_append, List.length_replicate]
    omega
  have value : digitsValue (['0'] ++ (List.replicate zeros '0' ++ decimalDigits n)) = n := by
    rw [← List.replicate_one, digitsValue_zeros_append, digitsValue_zeros_append,
      digitsValue_decimalDigits]
  show readDecimal (['0'] ++ '.' :: (List.replicate zeros '0' ++ decimalDigits n)) = _
  rw [readDecimal_pointed (by simp) _ (by simp), value, length]
  exact fun c among => isDigit_of_digit_or_zero (List.mem_append.mp among).symm

namespace Decimal

/-- The same value without a positive exponent. -/
def expanded (d : Decimal) : Decimal :=
  if 0 ≤ d.exponent then ⟨d.digits * 10 ^ d.exponent.toNat, 0⟩ else d

theorem Fits.expanded {d : Decimal} (h : d.Fits) : d.expanded.Fits := by
  rw [Decimal.expanded]
  split
  · next whole =>
    rw [Fits, show (-d.exponent).toNat = 0 by omega] at h
    show d.digits * 10 ^ d.exponent.toNat * 10 ^ 0 < overflowAt 0 * 10 ^ 0
    rwa [Nat.pow_zero, Nat.mul_one]
  · exact h

/-- **A decimal that is written without an exponent is read back.** -/
theorem readDecimal_positional (d : Decimal) : readDecimal (d.positional false) =
    some (scaledFloat d.expanded.digits d.expanded.exponent) := by
  rw [positional, expanded]
  by_cases whole : 0 ≤ d.exponent
  · rw [if_pos whole, if_pos whole]
    show readDecimal (decimalDigits d.digits ++ List.replicate d.exponent.toNat '0' ++ []) = _
    rw [List.append_nil, readDecimal_digits_zeros]
  · have exponent : d.exponent = -((-d.exponent).toNat : Int) := by omega
    rw [if_neg whole, if_neg whole]
    dsimp only
    split
    · next inside => rw [readDecimal_point_inside inside, ← exponent]
    · next outside =>
      rw [List.cons_append, List.cons_append, readDecimal_point_outside (by omega), ← exponent]

end Decimal

theorem toLower_of_isDigit {c : Char} (digit : c.isDigit = true) : c.toLower = c := by
  have le_nine : c.val ≤ '9'.val := of_decide_eq_true (Bool.and_eq_true_iff.mp digit).2
  refine dif_neg fun upper => ?_
  exact absurd (UInt32.le_trans upper.1 le_nine) (by decide)

/-- A number that begins with a digit is read as a decimal. -/
theorem readMagnitude_of_digit {c : Char} (digit : c.isDigit = true) (rest : List Char) :
    readMagnitude (c :: rest) = readDecimal (c :: rest) := by
  have other {l : Char} (letter : l.isDigit = false) (letters : List Char) :
      String.ofList ((c :: rest).map Char.toLower) ≠ String.ofList (l :: letters) := by
    intro same
    have same := (List.cons.inj (String.ofList_injective same)).1
    rw [toLower_of_isDigit digit] at same
    rw [same, letter] at digit
    cases digit
  unfold readMagnitude
  split
  · next word => exact absurd word (other rfl ['n', 'f'])
  · next word => exact absurd word (other rfl ['n', 'f', 'i', 'n', 'i', 't', 'y'])
  · next word => exact absurd word (other rfl ['a', 'n'])
  · rfl

theorem splitSign_of_ne {c : Char} (minus : c ≠ '-') (plus : c ≠ '+') (rest : List Char) :
    splitSign (c :: rest) = (false, c :: rest) := by
  unfold splitSign
  split
  · next same => exact absurd (List.cons.inj same).1 minus
  · next same => exact absurd (List.cons.inj same).1 plus
  · rfl

theorem splitSign_of_digit {c : Char} (digit : c.isDigit = true) (rest : List Char) :
    splitSign (c :: rest) = (false, c :: rest) :=
  splitSign_of_ne (by rintro rfl; cases digit) (by rintro rfl; cases digit) rest

theorem readNumber?_eq (text : String) : readNumber? text =
    (readMagnitude (splitSign text.toList).2).map fun x =>
      if (splitSign text.toList).1 then -x else x :=
  rfl

/-- A decimal that is written without an exponent begins with a digit. -/
theorem Decimal.head_positional (d : Decimal) :
    ∃ c rest, d.positional false = c :: rest ∧ c.isDigit = true := by
  obtain ⟨c, rest, opens, digit | rfl⟩ := (d.spelled_positional false).opens
  · exact ⟨c, rest, opens, digit⟩
  · have reads := d.readDecimal_positional
    rw [opens] at reads
    cases reads

/-- A decimal that is written without an exponent. -/
def Decimal.signed (d : Decimal) (negative : Bool) : String :=
  (if negative then "-" else "") ++ String.ofList (d.positional false)

/-- A decimal that does not overflow is read as a finite number, with or without a sign. -/
theorem readNumber?_signed {d : Decimal} (fits : d.Fits) (negative : Bool) :
    ∃ y, readNumber? (d.signed negative) = some y ∧ y.isFinite = true := by
  have finite := isFinite_scaledFloat fits.expanded
  have reads := d.readDecimal_positional
  obtain ⟨c, rest, opens, digit⟩ := d.head_positional
  rw [opens] at reads
  rw [Decimal.signed, opens, readNumber?_eq]
  have magnitude : readMagnitude (c :: rest) =
      some (scaledFloat d.expanded.digits d.expanded.exponent) := by
    rw [readMagnitude_of_digit digit, reads]
  cases negative with
  | false =>
    have sign : splitSign ("" ++ String.ofList (c :: rest)).toList = (false, c :: rest) := by
      rw [String.empty_append, String.toList_ofList, splitSign_of_digit digit]
    exact ⟨_, by simp only [Bool.false_eq_true, if_false, sign, magnitude]; rfl, finite⟩
  | true =>
    have sign : splitSign ("-" ++ String.ofList (c :: rest)).toList = (true, c :: rest) := by
      rw [String.toList_append, String.toList_ofList (l := c :: rest)]
      rfl
    exact ⟨_, by simp only [if_true, sign, magnitude]; rfl, isFinite_neg finite⟩

theorem inNumber_of_mem_signed {d : Decimal} {negative : Bool} {c : Char}
    (h : c ∈ (d.signed negative).toList) : JsonLexer.inNumber c = true := by
  rw [Decimal.signed, String.toList_append, String.toList_ofList (l := d.positional false)] at h
  rcases List.mem_append.mp h with sign | among
  · cases negative with
    | false => cases sign
    | true =>
      obtain rfl : c = '-' := by simpa using sign
      rfl
  · exact (d.spelled_positional false).goesOn c among

namespace Value

/-- A finite number is shown as a decimal that does not overflow. -/
theorem display_of_isFinite {x : Float} (h : x.isFinite = true) :
    ∃ (d : Decimal) (negative : Bool), d.Fits ∧ (Value.number x).display = d.signed negative := by
  have bounds := atMost_of_isFinite h
  rw [display]
  split
  · exact ⟨⟨0, 0⟩, false, Decimal.fits_zero, by decide⟩
  · rw [plainText, Binary.ofFloat_eq]
    cases unpacked : x.toModel.unpack with
    | infinity s => rw [unpacked] at bounds; exact bounds.elim
    | notANumber => rw [unpacked] at bounds; exact bounds.elim
    | zero s => exact ⟨⟨0, 0⟩, _, Decimal.fits_zero, rfl⟩
    | finite s m e pos =>
      rw [unpacked] at bounds
      refine ⟨Decimal.shortest .double .upper m e, s == .negative,
        Decimal.fits_shortest _ bounds.1 bounds.2, ?_⟩
      show NumberStyle.plain.write .double (.finite _ m e) = _
      rw [NumberStyle.write, if_neg (Nat.ne_of_gt pos)]
      rfl

end Value

end Blockwork
