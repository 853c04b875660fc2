import Blockwork.Number.Reading
import Blockwork.Proofs.FloatWords

/-!
# Reading numbers that do not overflow

A decimal is read as the 64-bit number nearest to it. The largest finite number is
`(2 ^ 53 - 1) * 2 ^ 971`; a value is rounded to infinity from the point on that lies halfway to the
next power of two. It is shown here, through all operations that a reader uses, that a decimal below
that point is read as a finite number.

## Main statements

* `isFinite_pack_round`: a value below the point is rounded to a finite number.
* `isFinite_scaledFloat`: a decimal below the point is read as a finite number.

A value is rounded twice: the mantissa is cut to 53 bits and rounded to even, which may give it one
bit more, and then it is cut again. What can go wrong is the exponent only, so all lemmas are about
exponents.
-/

namespace Blockwork

open Float.Model (UnpackedFloat Format totalExponent)
open Float.Model.UnpackedFloat

/-! ## Words of small numbers -/

/-- Whether a number is finite, has at most 53 bits, and has an exponent up to the given one. -/
def AtMost (high : Int) : UnpackedFloat → Prop
  | .zero _ => True
  | .finite _ m e _ => m < 2 ^ 53 ∧ e ≤ high
  | _ => False

theorem AtMost.isFinite {high : Int} {x : UnpackedFloat} (h : AtMost high x) :
    x.isFinite = true := by
  cases x with
  | infinity s => exact h.elim
  | notANumber => exact h.elim
  | zero s => rfl
  | finite s m e pos => rfl

theorem atMost_unpack {b : BitVec Format.binary64.numBits} {high : Int}
    (ones : exponentOf b.toNat ≠ 2047) (le : placeValueOf b.toNat ≤ high) :
    AtMost high (UnpackedFloat.unpack .binary64 b) := by
  obtain ⟨-, -, zero⟩ | ⟨pos, finite⟩ := unpack_of_not_ones b ones
  · rw [zero]
    exact trivial
  · rw [finite]
    exact ⟨mantissaOf_lt _, le⟩

/-- The exponent of a number is kept in its word. -/
theorem atMost_pack {s : Sign} {m : Nat} {e high : Int} {pos : 0 < m} (le : e ≤ high)
    (low : -1074 ≤ high) (le_last : high ≤ 971) :
    AtMost high (Float.Model.pack (.finite s m e pos)).unpack := by
  have field : exponentOf (UnpackedFloat.pack .binary64 (.finite s m e pos)).toNat ≤
      (e + 1075).toNat := by
    have small : ¬2 ^ 11 ≤ (e + 1023 + 52).toNat + 1 := by omega
    show exponentOf (if 2 ^ 11 ≤ (e + 1023 + 52).toNat + 1 then packedInfinity _ s
      else if m.log2 + 1 = 53 then
        packComponents .binary64 s (BitVec.ofNat 11 (e + 1023 + 52).toNat) (BitVec.ofNat 52 m)
      else packComponents .binary64 s 0#11 (BitVec.ofNat 52 m)).toNat ≤ _
    rw [if_neg small, ← toNat_unpackExponent]
    split
    · rw [unpackExponent_packComponents, BitVec.toNat_ofNat]
      show (e + 1023 + 52).toNat % 2 ^ 11 ≤ _
      omega
    · rw [unpackExponent_packComponents]
      exact Nat.zero_le _
  refine atMost_unpack ?_ ?_
  · show exponentOf (UnpackedFloat.pack .binary64 (.finite s m e pos)).toNat ≠ 2047
    omega
  · show placeValueOf (UnpackedFloat.pack .binary64 (.finite s m e pos)).toNat ≤ high
    rw [placeValueOf]
    omega

/-- The largest finite numbers have the exponent 971. -/
theorem atMost_of_isFinite {x : Float} (h : x.isFinite = true) : AtMost 971 x.toModel.unpack := by
  have finite : (UnpackedFloat.unpack .binary64 x.toModel.toBits.toBitVec).isFinite = true := h
  show AtMost 971 (UnpackedFloat.unpack .binary64 x.toModel.toBits.toBitVec)
  generalize x.toModel.toBits.toBitVec = b at finite ⊢
  have ones : exponentOf b.toNat ≠ 2047 := by
    intro ones
    rw [unpack_of_ones b ones] at finite
    split at finite <;> cases finite
  have : exponentOf b.toNat < 2 ^ 11 := Nat.mod_lt _ (by decide)
  refine atMost_unpack ones ?_
  rw [placeValueOf]
  omega

theorem isFinite_pack_zero (s : Sign) : (Float.Model.pack (.zero s)).isFinite = true := by
  cases s <;> rfl

theorem isFinite_neg {x : Float} (h : x.isFinite = true) : (-x).isFinite = true := by
  have bounds := atMost_of_isFinite h
  show (Float.Model.pack x.toModel.unpack.neg).isFinite = true
  cases unpacked : x.toModel.unpack with
  | infinity s => rw [unpacked] at bounds; exact bounds.elim
  | notANumber => rw [unpacked] at bounds; exact bounds.elim
  | zero s => exact isFinite_pack_zero _
  | finite s m e pos =>
    rw [unpacked] at bounds
    exact (atMost_pack bounds.2 (by decide) (by decide)).isFinite

/-! ## Rounding -/

theorem mantissa_shiftRight (em : ExtendedMantissa) (k : Nat) :
    (em >>> k).mantissa = em.mantissa / 2 ^ k := by
  induction k with
  | zero => exact (Nat.div_one _).symm
  | succ k ih =>
    show (em >>> k).mantissa / 2 = _
    rw [ih, Nat.div_div_eq_div_mul, Nat.pow_succ]

theorem roundBit_shiftRight (em : ExtendedMantissa) (k : Nat) :
    (em >>> (k + 1)).roundBit = (em.mantissa / 2 ^ k % 2 != 0) := by
  show ((em >>> k).mantissa % 2 != 0) = _
  rw [mantissa_shiftRight]

theorem roundedMantissa_le (em : ExtendedMantissa) : em.roundedMantissa ≤ em.mantissa + 1 := by
  obtain ⟨m, roundBit, stickyBit⟩ := em
  cases roundBit <;> cases stickyBit
  · exact Nat.le_succ _
  · exact Nat.le_succ _
  · show m + m % 2 ≤ m + 1
    omega
  · exact Nat.le_refl _

theorem roundedMantissa_eq {em : ExtendedMantissa} (down : em.roundBit = false) :
    em.roundedMantissa = em.mantissa := by
  obtain ⟨m, roundBit, stickyBit⟩ := em
  cases down
  cases stickyBit <;> rfl

theorem mantissa_ofMantissaAndAccuracy (m : Nat) (a : Accuracy) :
    (ExtendedMantissa.ofMantissaAndAccuracy m a).mantissa = m := by
  cases a with
  | exact => rfl
  | inexact o => cases o <;> rfl

theorem targetExponent_eq (m : Nat) (e : Int) :
    Format.binary64.targetExponent (totalExponent m e) = max (m.log2 + e - 52) (-1074) := by
  show max ((m.log2 : Int) + 1 + e - (1 + 52 : Nat)) (3 - 2 ^ 10 - (1 + 52 : Nat)) = _
  omega

/-- What a value is rounded to: zero, or a mantissa whose exponent fits it. -/
theorem roundWithAccuracy_cases (s : Sign) (m : Nat) (e : Int) (a : Accuracy) :
    let k := (max (m.log2 + e - 52) (-1074) - e).toNat
    let r := (ExtendedMantissa.ofMantissaAndAccuracy m a >>> k).roundedMantissa
    roundWithAccuracy .binary64 s m e a = .zero s ∨
      ∃ m' e' pos, roundWithAccuracy .binary64 s m e a = .finite s m' e' pos ∧
        e' = max (e + k) (max (r.log2 + (e + k) - 52) (-1074)) := by
  intro k r
  have first : shiftToTargetExponent .binary64 m e a =
      (ExtendedMantissa.ofMantissaAndAccuracy m a >>> k, e + k) := by
    show shiftToExponent m e a _ = _
    rw [targetExponent_eq]
    rfl
  have second : (shiftToTargetExponent .binary64 r (e + k) .exact).2 =
      max (e + k) (max (r.log2 + (e + k) - 52) (-1074)) := by
    show e + k + (Format.binary64.targetExponent (totalExponent r (e + k)) - (e + k)).toNat = _
    rw [targetExponent_eq]
    omega
  rw [roundWithAccuracy, first]
  by_cases zero : (shiftToTargetExponent .binary64 r (e + k) .exact).1.mantissa = 0
  · exact .inl (dif_pos zero)
  · exact .inr ⟨_, _, Nat.pos_of_ne_zero zero, dif_neg zero, second⟩

/-- The least number of units of `2 ^ e` that is too much for a finite number: it lies halfway from
the largest one to the next power of two. -/
@[irreducible]
def overflowAt (e : Int) : Nat := (2 ^ 54 - 1) * 2 ^ (970 - e).toNat

theorem overflowAt_eq (e : Int) : overflowAt e = (2 ^ 54 - 1) * 2 ^ (970 - e).toNat := by
  rw [overflowAt]

theorem overflowAt_sub {e : Int} (le : e ≤ 970) (k : Nat) :
    overflowAt (e - k) = overflowAt e * 2 ^ k := by
  rw [overflowAt_eq, overflowAt_eq, Nat.mul_assoc, ← Nat.pow_add]
  congr 2
  omega

theorem overflowAt_pos (e : Int) : 0 < overflowAt e := by
  rw [overflowAt_eq]
  exact Nat.mul_pos (by decide) (Nat.two_pow_pos _)

theorem twice_overflowAt : 2 * overflowAt 0 = overflowAt (-1) := by
  rw [Nat.mul_comm]
  exact (overflowAt_sub (by decide) 1).symm

theorem le_overflowAt {k : Nat} {e : Int} (h : k ≤ (970 - e).toNat) :
    (2 ^ 54 - 1) * 2 ^ k ≤ overflowAt e := by
  rw [overflowAt_eq]
  exact Nat.mul_le_mul_left _ (Nat.pow_le_pow_right (by decide) h)

/-- A number of units that is not too much has few bits. -/
theorem lt_of_lt_overflowAt {m : Nat} {e : Int} (le : e ≤ 970) (lt : m < overflowAt e) :
    m < 2 ^ (1024 - e).toNat := by
  rw [overflowAt_eq] at lt
  calc m < (2 ^ 54 - 1) * 2 ^ (970 - e).toNat := lt
    _ ≤ 2 ^ 54 * 2 ^ (970 - e).toNat := Nat.mul_le_mul_right _ (by decide)
    _ = 2 ^ (1024 - e).toNat := by rw [← Nat.pow_add]; congr 1; omega

theorem log2_le_of_lt {r b : Nat} (h : r < 2 ^ (b + 1)) : r.log2 ≤ b := by
  by_cases zero : r = 0
  · simp [zero]
  · exact Nat.le_of_lt_succ ((Nat.log2_lt zero).mpr h)

/-- Cut to 53 bits and rounded, a mantissa is at most the next power of two. -/
theorem roundedMantissa_shiftRight_le {m k : Nat} {a : Accuracy} (h : m.log2 ≤ k + 52) :
    m / 2 ^ k < 2 ^ 53 ∧
      (ExtendedMantissa.ofMantissaAndAccuracy m a >>> k).roundedMantissa ≤ m / 2 ^ k + 1 := by
  constructor
  · rw [Nat.div_lt_iff_lt_mul (Nat.two_pow_pos k), ← Nat.pow_add]
    refine Nat.lt_of_lt_of_le Nat.lt_log2_self (Nat.pow_le_pow_right (by decide) ?_)
    omega
  · have rounded := roundedMantissa_le (ExtendedMantissa.ofMantissaAndAccuracy m a >>> k)
    rwa [mantissa_shiftRight, mantissa_ofMantissaAndAccuracy] at rounded

/-- Below the last mantissa and a half, a mantissa keeps its 53 bits. -/
theorem roundedMantissa_lt {m j : Nat} {a : Accuracy} (h : m.log2 ≤ j + 1 + 52)
    (lt : m < (2 ^ 54 - 1) * 2 ^ j) :
    (ExtendedMantissa.ofMantissaAndAccuracy m a >>> (j + 1)).roundedMantissa < 2 ^ 53 := by
  obtain ⟨short, rounded⟩ := roundedMantissa_shiftRight_le (a := a) h
  cases half : (ExtendedMantissa.ofMantissaAndAccuracy m a >>> (j + 1)).roundBit with
  | false =>
    rw [roundedMantissa_eq half, mantissa_shiftRight, mantissa_ofMantissaAndAccuracy]
    exact short
  | true =>
    rw [roundBit_shiftRight, mantissa_ofMantissaAndAccuracy] at half
    have odd : m / 2 ^ j % 2 = 1 := by simpa using half
    have below : m / 2 ^ j < 2 ^ 54 - 1 := (Nat.div_lt_iff_lt_mul (Nat.two_pow_pos j)).mpr lt
    rw [Nat.pow_succ, ← Nat.div_div_eq_div_mul] at rounded
    omega

/-- **Rounding raises an exponent by one at most**, beside what is needed to cut the mantissa. -/
theorem atMost_pack_round {s : Sign} {m : Nat} {e high : Int} {a : Accuracy} (le : e < high)
    (fits : (m.log2 : Int) + e - 52 < high) (low : -1074 < high) (le_last : high ≤ 971) :
    AtMost high (Float.Model.pack (roundWithAccuracy .binary64 s m e a)).unpack := by
  obtain zero | ⟨m', e', pos, round, e'_eq⟩ := roundWithAccuracy_cases s m e a
  · rw [zero]
    cases s <;> exact trivial
  rw [round]
  refine atMost_pack ?_ (by omega) le_last
  generalize hk : (max (m.log2 + e - 52) (-1074) - e).toNat = k at e'_eq
  obtain ⟨short, rounded⟩ := roundedMantissa_shiftRight_le (a := a) (show m.log2 ≤ k + 52 by omega)
  generalize (ExtendedMantissa.ofMantissaAndAccuracy m a >>> k).roundedMantissa = r at e'_eq rounded
  have : r.log2 ≤ 53 := log2_le_of_lt (by omega)
  omega

/-- **A value below the point where numbers overflow is rounded to a finite number.** -/
theorem isFinite_pack_round {s : Sign} {m : Nat} {e : Int} {a : Accuracy} (le : e ≤ 970)
    (lt : m < overflowAt e) :
    (Float.Model.pack (roundWithAccuracy .binary64 s m e a)).isFinite = true := by
  have log_m : m.log2 ≤ (1023 - e).toNat := by
    refine log2_le_of_lt ?_
    rw [show (1023 - e).toNat + 1 = (1024 - e).toNat by omega]
    exact lt_of_lt_overflowAt le lt
  by_cases low : (m.log2 : Int) + e - 52 < 971
  · have : AtMost 971 (Float.Model.pack (roundWithAccuracy .binary64 s m e a)).unpack :=
      atMost_pack_round (by omega) low (by decide) (by decide)
    exact this.isFinite
  -- with the last exponent, the value lies below the last mantissa and a half
  obtain zero | ⟨m', e', pos, round, e'_eq⟩ := roundWithAccuracy_cases s m e a
  · rw [zero]
    exact isFinite_pack_zero s
  obtain ⟨j, hj⟩ : ∃ j, (max (m.log2 + e - 52) (-1074) - e).toNat = j + 1 :=
    ⟨(970 - e).toNat, by omega⟩
  have below : m < (2 ^ 54 - 1) * 2 ^ j := by
    rwa [overflowAt_eq, show (970 - e).toNat = j by omega] at lt
  rw [hj] at e'_eq
  have := log2_le_of_lt (roundedMantissa_lt (a := a) (show m.log2 ≤ j + 1 + 52 by omega) below)
  have last : e' ≤ 971 := by omega
  rw [round]
  exact (atMost_pack last (by decide) (by decide)).isFinite

/-! ## Operations -/

theorem isFinite_pack_mul {s s' : Sign} {m m' : Nat} {e e' : Int} {pos : 0 < m} {pos' : 0 < m'}
    (le : e + e' ≤ 970) (lt : m * m' < overflowAt (e + e')) :
    (Float.Model.pack (UnpackedFloat.mul .binary64 (.finite s m e pos)
      (.finite s' m' e' pos'))).isFinite = true :=
  isFinite_pack_round le lt

theorem isFinite_pack_div {s s' : Sign} {m m' : Nat} {e e' : Int} {pos : 0 < m} {pos' : 0 < m'}
    (le : e - e' ≤ 970) (lt : m < overflowAt (e - e') * m') :
    (Float.Model.pack (UnpackedFloat.div .binary64 (.finite s m e pos)
      (.finite s' m' e' pos'))).isFinite = true := by
  show (Float.Model.pack (roundWithAccuracy .binary64 (s / s')
    ((m <<< (e - e' - min (e - e') _).toNat) / m') (min (e - e') _) _)).isFinite = true
  generalize Format.binary64.targetExponent _ = t
  generalize hd : (e - e' - min (e - e') t).toNat = d
  have exponent : min (e - e') t = e - e' - d := by omega
  refine isFinite_pack_round (by omega) ?_
  rw [Nat.div_lt_iff_lt_mul pos', Nat.shiftLeft_eq, exponent, overflowAt_sub le, Nat.mul_right_comm]
  exact Nat.mul_lt_mul_of_pos_right lt (Nat.two_pow_pos _)

/-! ## Reading -/

/-- A decimal below the point where numbers overflow is rounded to a finite number. -/
theorem isFinite_pack_ofScientific {m : Nat} {e : Int}
    (lt : m * 10 ^ e.toNat < overflowAt 0 * 10 ^ (-e).toNat) :
    (Float.Model.pack (UnpackedFloat.ofScientific .binary64 m e)).isFinite = true := by
  unfold UnpackedFloat.ofScientific
  by_cases zero : m = 0
  · rw [dif_pos zero]
    exact isFinite_pack_zero _
  have not_large : ¬e > 2 ^ Format.binary64.exponentBits := by
    intro large
    have large : e > 2 ^ 11 := large
    rw [show (-e).toNat = 0 by omega, Nat.pow_zero, Nat.mul_one] at lt
    have high : 2 ^ e.toNat < 2 ^ (1024 - 0 : Int).toNat := calc
      2 ^ e.toNat ≤ 10 ^ e.toNat := Nat.pow_le_pow_left (by decide) _
      _ ≤ m * 10 ^ e.toNat := Nat.le_mul_of_pos_left _ (Nat.pos_of_ne_zero zero)
      _ < 2 ^ (1024 - 0 : Int).toNat := lt_of_lt_overflowAt (by decide) lt
    have := (Nat.pow_lt_pow_iff_right (by decide)).mp high
    omega
  rw [dif_neg zero, if_neg not_large]
  by_cases small : e < -(2 ^ Format.binary64.exponentBits + m.log2)
  · rw [if_pos small]
    exact isFinite_pack_zero _
  rw [if_neg small]
  by_cases up : 0 ≤ e
  · rw [if_pos up]
    rw [show (-e).toNat = 0 by omega, Nat.pow_zero, Nat.mul_one] at lt
    refine isFinite_pack_mul (by decide) ?_
    have scaled := Nat.mul_lt_mul_of_pos_right lt (Nat.two_pow_pos 53)
    rw [← overflowAt_sub (by decide), Nat.mul_right_comm, ← Nat.shiftLeft_eq] at scaled
    exact scaled
  · rw [if_neg up]
    rw [show e.toNat = 0 by omega, Nat.pow_zero, Nat.mul_one] at lt
    exact isFinite_pack_div (by decide) lt

/-! ### Small decimals -/

/-- Whether a number is finite and not zero, has at most 53 bits, and has an exponent between the
given ones. -/
def within (low high : Int) : UnpackedFloat → Bool
  | .finite _ m e _ => m < 2 ^ 53 && low ≤ e && e ≤ high
  | _ => false

theorem exists_of_within {low high : Int} {x : UnpackedFloat} (h : within low high x = true) :
    ∃ s m e pos, x = .finite s m e pos ∧ m < 2 ^ 53 ∧ low ≤ e ∧ e ≤ high := by
  cases x with
  | infinity s => cases h
  | notANumber => cases h
  | zero s => cases h
  | finite s m e pos =>
    have h : (decide (m < 2 ^ 53) && decide (low ≤ e) && decide (e ≤ high)) = true := h
    simp only [Bool.and_eq_true, decide_eq_true_eq, and_assoc] at h
    exact ⟨s, m, e, pos, rfl, h⟩

/-- The powers of ten up to the last one that is a 64-bit number. -/
theorem within_powersOfTen {e : Nat} (h : e < Float.exactlyRepresentablePowersOfTen.size) :
    within (-52) 21 Float.exactlyRepresentablePowersOfTen[e].toModel.unpack = true := by
  have all : Float.exactlyRepresentablePowersOfTen.all
      (fun p => within (-52) 21 p.toModel.unpack) = true := by
    decide +kernel
  exact Array.all_eq_true.mp all e h

/-- A natural number of 53 bits has an exponent of one at most. -/
theorem atMost_toFloat {n : Nat} (h : n < 2 ^ 53) : AtMost 1 n.toUInt64.toFloat.toModel.unpack := by
  have word : n.toUInt64.toNat = n := by
    show n % 2 ^ 64 = n
    omega
  show AtMost 1 (Float.Model.pack
    (UnpackedFloat.normalize .binary64 (n.toUInt64.toNat : Int) 0 .positive)).unpack
  rw [word, UnpackedFloat.normalize]
  by_cases zero : n = 0
  · subst zero
    exact trivial
  · rw [Int.compare_eq_gt.mpr (by omega)]
    show AtMost 1
      (Float.Model.pack (UnpackedFloat.round .binary64 .positive (n : Int).toNat 0)).unpack
    rw [Int.toNat_natCast]
    show AtMost 1 (Float.Model.pack (roundWithAccuracy .binary64 .positive
      (n <<< (0 - Format.binary64.targetExponent (totalExponent n 0)).toNat) _ .exact)).unpack
    generalize (0 - Format.binary64.targetExponent (totalExponent n 0)).toNat = k
    have bits : (n <<< k).log2 ≤ 52 + k := by
      refine log2_le_of_lt ?_
      rw [Nat.shiftLeft_eq, show 52 + k + 1 = 53 + k by omega, Nat.pow_add]
      exact Nat.mul_lt_mul_of_pos_right h (Nat.two_pow_pos k)
    exact atMost_pack_round (by omega) (by omega) (by decide) (by decide)

/-- A value with few bits is below the point where numbers overflow. -/
theorem lt_overflowAt {m : Nat} {e : Int} (le : e ≤ 864) (lt : m < 2 ^ 106) : m < overflowAt e :=
  calc m < 2 ^ 106 := lt
    _ ≤ (2 ^ 54 - 1) * 2 ^ 106 := Nat.le_mul_of_pos_left _ (by decide)
    _ ≤ overflowAt e := le_overflowAt (by omega)

theorem isFinite_mul_of_atMost {x p : Float} (hx : AtMost 1 x.toModel.unpack)
    (hp : within (-52) 21 p.toModel.unpack = true) : (x * p).isFinite = true := by
  obtain ⟨s', m', e', pos', power, lt', low', high'⟩ := exists_of_within hp
  show (Float.Model.pack (UnpackedFloat.mul .binary64 x.toModel.unpack p.toModel.unpack)).isFinite =
    true
  rw [power]
  cases unpacked : x.toModel.unpack with
  | infinity s => rw [unpacked] at hx; exact hx.elim
  | notANumber => rw [unpacked] at hx; exact hx.elim
  | zero s => exact isFinite_pack_zero _
  | finite s m e pos =>
    rw [unpacked] at hx
    obtain ⟨lt, high⟩ := hx
    refine isFinite_pack_mul (by omega) (lt_overflowAt (by omega) ?_)
    calc m * m' < 2 ^ 53 * 2 ^ 53 := Nat.mul_lt_mul'' lt lt'
      _ = 2 ^ 106 := by decide

theorem isFinite_div_of_atMost {x p : Float} (hx : AtMost 1 x.toModel.unpack)
    (hp : within (-52) 21 p.toModel.unpack = true) : (x / p).isFinite = true := by
  obtain ⟨s', m', e', pos', power, lt', low', high'⟩ := exists_of_within hp
  show (Float.Model.pack (UnpackedFloat.div .binary64 x.toModel.unpack p.toModel.unpack)).isFinite =
    true
  rw [power]
  cases unpacked : x.toModel.unpack with
  | infinity s => rw [unpacked] at hx; exact hx.elim
  | notANumber => rw [unpacked] at hx; exact hx.elim
  | zero s => exact isFinite_pack_zero _
  | finite s m e pos =>
    rw [unpacked] at hx
    obtain ⟨lt, high⟩ := hx
    refine isFinite_pack_div (by omega) ?_
    calc m < overflowAt (e - e') :=
          lt_overflowAt (by omega) (Nat.lt_trans lt (by decide))
      _ ≤ overflowAt (e - e') * m' := Nat.le_mul_of_pos_right _ pos'

/-- **A decimal below the point where numbers overflow is read as a finite number.** -/
theorem isFinite_scaledFloat {digits : Nat} {exponent : Int}
    (lt : digits * 10 ^ exponent.toNat < overflowAt 0 * 10 ^ (-exponent).toNat) :
    (scaledFloat digits exponent).isFinite = true := by
  rw [scaledFloat, Float.ofScientific]
  split
  · next small =>
    have := within_powersOfTen (e := exponent.natAbs) (Nat.lt_succ_of_le small.2)
    dsimp only
    split
    · exact isFinite_div_of_atMost (atMost_toFloat small.1) this
    · exact isFinite_mul_of_atMost (atMost_toFloat small.1) this
  · have signed : (if decide (exponent < 0) = true then Int.negOfNat exponent.natAbs
        else Int.ofNat exponent.natAbs) = exponent := by
      by_cases negative : exponent < 0
      · rw [if_pos (decide_eq_true negative), Int.negOfNat_eq]
        show -(exponent.natAbs : Int) = exponent
        omega
      · rw [if_neg (by simpa using negative)]
        show (exponent.natAbs : Int) = exponent
        omega
    show (Float.Model.pack (UnpackedFloat.ofScientific .binary64 digits
      (if decide (exponent < 0) = true then Int.negOfNat exponent.natAbs
        else Int.ofNat exponent.natAbs))).isFinite = true
    rw [signed]
    exact isFinite_pack_ofScientific lt

end Blockwork
