import ScriptMachine.Proofs.Number.Indices
import ScriptMachine.Proofs.Value.Types
import Mathlib.Algebra.Order.Field.Power
import Mathlib.Data.Rat.Floor
import Mathlib.Tactic.Positivity
import Mathlib.Tactic.Ring

/-! # Numbers as rationals

The bits of a finite number stand for a rational (`Binary64.exact`), and the conversions to integers are said of
that rational: the wrapping conversions truncate it toward zero and take the residue
(`Binary64.toNat_toUInt32`), the checked ones ask whether it is an integer in range
(`Binary64.exact_eq_intCast`). None of them depends on how large or small the number is: the steps from number to
number that they take are exact. -/

namespace ScriptMachine

/-- **Truncation toward zero.** -/
def towardZero (q : ℚ) : ℤ := if 0 ≤ q then ⌊q⌋ else ⌈q⌉

theorem towardZero_neg (q : ℚ) : towardZero (-q) = -towardZero q := by
  unfold towardZero
  rcases lt_trichotomy q 0 with hq | rfl | hq
  · rw [if_pos (by linarith), if_neg (by linarith), Int.floor_neg]
  · simp
  · rw [if_neg (by linarith), if_pos hq.le, Int.ceil_neg]

theorem towardZero_of_nonneg {q : ℚ} (hq : 0 ≤ q) : towardZero q = ⌊q⌋ := if_pos hq

theorem towardZero_intCast (i : ℤ) : towardZero i = i := by
  unfold towardZero
  split <;> simp

namespace Binary64

variable {x : Binary64}

/-- **The exact value of a finite number.** The sign bit `s`, the eleven exponent bits `e` and the fifty-two fraction
bits `f` of its word stand for `(-1) ^ s * (2 ^ 52 + f) * 2 ^ (e - 1075)`; if `e` is zero, for
`(-1) ^ s * f * 2 ^ (-1074)`. -/
def exact (x : Binary64) : ℚ :=
  let s := x.bits.toNat / 2 ^ 63
  let e := x.bits.toNat / 2 ^ 52 % 2 ^ 11
  let f := x.bits.toNat % 2 ^ 52
  (-1) ^ s * (if e = 0 then f else 2 ^ 52 + f : ℕ) * 2 ^ ((if e = 0 then 1 else e : ℕ) - 1075 : ℤ)

/-- The integer part of a finite number, with its sign. -/
def signedTruncated (x : Binary64) : ℤ := if x.negative then -x.truncated else x.truncated

/-! ### The parts of a word -/

theorem exact_eq (x : Binary64) :
    x.exact = (if x.negative then -1 else 1) * (x.significand * 2 ^ x.exponent) := by
  have hsign : ((-1 : ℚ) ^ (x.bits.toNat / 2 ^ 63)) = if x.negative then -1 else 1 := by
    have hword := x.bits.toNat_lt
    rw [negative_eq]
    by_cases h : 2 ^ 63 ≤ x.bits.toNat
    · rw [show x.bits.toNat / 2 ^ 63 = 1 by omega, decide_eq_true h, pow_one, if_pos rfl]
    · rw [show x.bits.toNat / 2 ^ 63 = 0 by omega, decide_eq_false h, pow_zero, if_neg Bool.false_ne_true]
  unfold exact significand exponent
  rw [exponentField_eq, fractionField_eq]
  dsimp only
  rw [hsign, mul_assoc]
  congr 1
  split
  · rfl
  · rw [Nat.add_comm]
    rfl

theorem exact_eq_zero (hx : x.isFinite = true) : x.exact = 0 ↔ x.isZero = true := by
  have hf := fields hx
  have hpower : ((2 : ℚ) ^ x.exponent) ≠ 0 := by positivity
  have hsignificand : x.exact = 0 ↔ x.significand = 0 := by
    rw [exact_eq, mul_eq_zero, mul_eq_zero, Nat.cast_eq_zero, or_iff_left hpower]
    split <;> norm_num
  rw [hsignificand, isZero_iff, hf.magnitude, significand]
  split <;> omega

theorem eq_negZero_iff : x = negZero ↔ x.isZero = true ∧ x.negative = true := by
  constructor
  · rintro rfl
    decide
  · rintro ⟨hzero, hnegative⟩
    have hbits := x.toNat_bits.2
    rw [isZero, beq_iff_eq] at hzero
    rw [hzero, hnegative] at hbits
    exact congrArg mk (UInt64.toNat_inj.mp hbits)

/-! ### Integer parts -/

theorem floor_significand (x : Binary64) : ⌊(x.significand * 2 ^ x.exponent : ℚ)⌋ = x.truncated := by
  unfold truncated
  split
  case isTrue h =>
    obtain ⟨k, hk⟩ := Int.eq_ofNat_of_zero_le h
    rw [hk, zpow_natCast, Int.toNat_natCast, Nat.shiftLeft_eq]
    exact_mod_cast Int.floor_natCast (R := ℚ) (x.significand * 2 ^ k)
  case isFalse h =>
    obtain ⟨k, hk⟩ : ∃ k : ℕ, x.exponent = -k := ⟨(-x.exponent).toNat, by omega⟩
    rw [hk, neg_neg, Int.toNat_natCast, zpow_neg, zpow_natCast, ← div_eq_mul_inv, Nat.shiftRight_eq_div_pow]
    exact_mod_cast Rat.floor_natCast_div_natCast x.significand (2 ^ k)

/-- **Truncating the exact value.** -/
theorem towardZero_exact (x : Binary64) : towardZero x.exact = x.signedTruncated := by
  have hnonneg : (0 : ℚ) ≤ x.significand * 2 ^ x.exponent := by positivity
  have hsize := (towardZero_of_nonneg hnonneg).trans x.floor_significand
  rw [exact_eq, signedTruncated]
  cases x.negative with
  | true => rw [if_pos rfl, if_pos rfl, neg_one_mul, towardZero_neg, hsize]
  | false => simpa using hsize

/-- A number has no fractional part if it is its own integer part. -/
theorem isIntegral_iff (hx : x.isFinite = true) : x.isIntegral = true ↔ x.exact = x.signedTruncated := by
  have hsize : x.isIntegral = true ↔ (x.significand * 2 ^ x.exponent : ℚ) = x.truncated := by
    unfold isIntegral truncated
    rw [hx, Bool.true_and, Bool.or_eq_true, decide_eq_true_eq, beq_iff_eq, Nat.one_shiftLeft]
    split
    case isTrue h =>
      obtain ⟨k, hk⟩ := Int.eq_ofNat_of_zero_le h
      rw [hk, zpow_natCast, Int.toNat_natCast, Nat.shiftLeft_eq]
      simp
    case isFalse h =>
      obtain ⟨k, hk⟩ : ∃ k : ℕ, x.exponent = -k := ⟨(-x.exponent).toNat, by omega⟩
      have hpower : ((2 : ℚ) ^ k) ≠ 0 := by positivity
      rw [hk] at h ⊢
      rw [or_iff_right h, neg_neg, Int.toNat_natCast, zpow_neg, zpow_natCast, ← div_eq_mul_inv,
        Nat.shiftRight_eq_div_pow, div_eq_iff hpower]
      have hdiv := Nat.div_add_mod x.significand (2 ^ k)
      rw [Nat.mul_comm] at hdiv
      constructor
      · intro hmod
        rw [hmod] at hdiv
        exact_mod_cast hdiv.symm
      · intro heq
        have heq : x.significand = x.significand / 2 ^ k * 2 ^ k := by exact_mod_cast heq
        omega
  rw [hsize, exact_eq, signedTruncated]
  cases x.negative with
  | true =>
    rw [if_pos rfl, if_pos rfl]
    push_cast
    constructor <;> intro h <;> linarith
  | false => simp

/-- **Being an integer**: the number has no fractional part, and the integer is its integer part. -/
theorem exact_eq_intCast (hx : x.isFinite = true) (i : ℤ) :
    x.exact = i ↔ x.isIntegral = true ∧ x.signedTruncated = i := by
  rw [isIntegral_iff hx]
  constructor
  · intro h
    have htruncated := x.towardZero_exact
    rw [h, towardZero_intCast] at htruncated
    exact ⟨by rw [h, htruncated], htruncated.symm⟩
  · rintro ⟨h, rfl⟩
    exact h

/-- **The word of a small integer** is the only one: a number that is one has it. -/
theorem whole_of_isIntegral (hx : x.isFinite = true) (hintegral : x.isIntegral = true) (hlt : x.truncated < 2 ^ 52) :
    x.Whole x.negative x.truncated := by
  have hf := fields hx
  have hfraction := hf.fraction_lt
  have hunits := (isIntegral_iff_units hx (Int.le_refl _)).mp hintegral
  have hexponent : x.exponent = if x.exponentField = 0 then -1074 else (x.exponentField : ℤ) - 1075 := rfl
  have hsignificand : x.significand =
    if x.exponentField = 0 then x.fractionField else x.fractionField + 2 ^ 52 := rfl
  generalize x.truncated = n at *
  generalize x.exponentField = e at *
  generalize x.fractionField = f at *
  refine ⟨hlt, ?_⟩
  rcases Nat.eq_zero_or_pos n with rfl | hpos
  · have hnone : x.significand = 0 := by simpa using hunits
    obtain ⟨rfl, rfl⟩ : e = 0 ∧ f = 0 := by
      split at hsignificand <;> omega
    exact hf
  have h0 := Nat.ne_of_gt hpos
  rcases Int.lt_or_le x.exponent 0 with hneg | hnonneg
  · obtain ⟨d, hd⟩ : ∃ d : ℕ, x.exponent = -d := ⟨(-x.exponent).toNat, by omega⟩
    rw [min_eq_right hneg.le, sub_self, Int.toNat_zero, Nat.shiftLeft_zero, hd, neg_neg, Int.toNat_natCast] at hunits
    have he : e ≠ 0 := by
      rintro rfl
      rw [if_pos rfl] at hsignificand hexponent
      have hbig : 2 ^ 52 ≤ n * 2 ^ d :=
        (Nat.pow_le_pow_right (by decide) (by omega)).trans (Nat.le_mul_of_pos_left _ hpos)
      omega
    rw [if_neg he] at hsignificand hexponent
    have hlog : x.significand.log2 = 52 := (Nat.log2_eq_iff (by omega)).mpr ⟨by omega, by omega⟩
    rw [hunits, log2_mul_two_pow h0] at hlog
    rw [if_neg h0, show n.log2 + 1023 = e by omega, show 52 - n.log2 = d by omega,
      show n * 2 ^ d - 2 ^ 52 = f by omega]
    exact hf
  · -- such a number is too large
    have he : e ≠ 0 := by
      rintro rfl
      rw [if_pos rfl] at hexponent
      omega
    rw [if_neg he] at hsignificand
    rw [min_eq_left hnonneg, sub_zero, neg_zero, Int.toNat_zero, pow_zero, mul_one, Nat.shiftLeft_eq] at hunits
    have hbig : x.significand ≤ x.significand * 2 ^ x.exponent.toNat :=
      Nat.le_mul_of_pos_right _ (Nat.two_pow_pos _)
    omega

theorem exact_ofInt32 (i : Int32) : (ofInt32 i).exact = i.toInt := by
  have h := ofInt32_whole i
  rw [exact_eq_intCast h.isFinite, signedTruncated, h.negative, h.truncated]
  refine ⟨h.isIntegral, ?_⟩
  by_cases hs : i.toInt < 0
  · rw [decide_eq_true hs, if_pos rfl]
    omega
  · rw [decide_eq_false hs, if_neg Bool.false_ne_true]
    omega

/-! ### Wrapping conversions -/

theorem toNat_toUInt32 (hx : x.isFinite = true) : (x.toUInt32.toNat : ℤ) = towardZero x.exact % 2 ^ 32 := by
  rw [towardZero_exact, signedTruncated, toUInt32_eq hx]
  have hresidue : (UInt32.ofNat (x.truncated % 2 ^ 32)).toNat = x.truncated % 2 ^ 32 :=
    UInt32.toNat_ofNat_of_lt' (Nat.mod_lt _ (by decide))
  dsimp only
  split
  · rw [UInt32.toNat_sub, hresidue]
    change (((2 ^ 32 - x.truncated % 2 ^ 32 + 0) % 2 ^ 32 : ℕ) : ℤ) = _
    omega
  · rw [hresidue]
    omega

theorem toInt_toInt32 (x : Binary64) : x.toInt32.toInt = Int.bmod x.toUInt32.toNat (2 ^ 32) := by
  rw [toInt32, Int32.toInt, UInt32.toBitVec_toInt32, BitVec.toInt_eq_toNat_bmod]
  rfl

end Binary64

/-! ### Checked conversions -/

namespace Value

variable {x : Binary64}

theorem arrayIndex?_of_not_isFinite (hx : x.isFinite = false) : (number x).arrayIndex? = none := by
  cases hnan : x.isNaN with
  | true =>
    rw [show number x = .number .nan by simp [number, hnan]]
    decide
  | false =>
    rw [arrayIndex?_of_not_isNaN hnan]
    simp [Binary64.isIntegral, hx]

/-- **A signed 32-bit integer** is read from the numbers that are exactly it, but not from negative zero. -/
theorem int32?_number (x : Binary64) (i : Int32) : (number x).int32? = some i ↔
    x.isFinite = true ∧ x ≠ .negZero ∧ x.exact = i.toInt := by
  have hi := Binary64.ofInt32_whole i
  have hlow := i.le_toInt
  have hhigh := i.toInt_lt
  constructor
  · intro h
    cases hnan : x.isNaN
    case true =>
      rw [show number x = .number .nan by simp [number, hnan]] at h
      rw [show (number .nan).int32? = none by decide] at h
      cases h
    rw [int32?, number?_number hnan, Option.ite_none_right_eq_some, Bool.and_eq_true, Bool.not_eq_true',
      (Binary64.compare_zero hnan).1, Option.some.injEq] at h
    obtain ⟨⟨hequal, hzero⟩, hi'⟩ := h
    rw [hi'] at hequal
    have hsigned : x ≠ .negZero := by
      rw [Ne, Binary64.eq_negZero_iff, ← Bool.and_eq_true, hzero]
      exact Bool.false_ne_true
    rcases Binary64.eq_or_zeros hequal with rfl | ⟨hiszero, hxzero⟩
    · exact ⟨hi.isFinite, hsigned, Binary64.exact_ofInt32 _⟩
    · have hx := (Binary64.Whole.of_isZero hxzero).isFinite
      have hexact := (Binary64.exact_eq_zero hi.isFinite).mpr hiszero
      rw [Binary64.exact_ofInt32] at hexact
      exact ⟨hx, hsigned, by rw [hexact, (Binary64.exact_eq_zero hx).mpr hxzero]⟩
  · rintro ⟨hx, hzero, hexact⟩
    obtain ⟨hintegral, htruncated⟩ := (Binary64.exact_eq_intCast hx _).mp hexact
    have hparts : x.negative = decide (i.toInt < 0) ∧ x.truncated = i.toInt.natAbs := by
      unfold Binary64.signedTruncated at htruncated
      cases hneg : x.negative
      case false =>
        rw [hneg, if_neg Bool.false_ne_true] at htruncated
        exact ⟨by rw [decide_eq_false (by omega)], by omega⟩
      case true =>
        rw [hneg, if_pos rfl] at htruncated
        -- negative zero is left out
        have hne : i.toInt ≠ 0 := by
          intro h0
          rw [h0, Int.cast_zero, Binary64.exact_eq_zero hx] at hexact
          exact hzero (Binary64.eq_negZero_iff.mpr ⟨hexact, hneg⟩)
        exact ⟨by rw [decide_eq_true (by omega)], by omega⟩
    have hx := Binary64.whole_of_isIntegral hx hintegral (by omega)
    rw [hparts.1, hparts.2] at hx
    rw [hx.unique hi]
    exact int32?_ofInt32 i

/-- **An array index** is read from the numbers that are exactly it, which for zero are both. -/
theorem arrayIndex?_number_eq_some (x : Binary64) (i : UInt32) : (number x).arrayIndex? = some i ↔
    x.isFinite = true ∧ x.exact = i.toNat ∧ i.toNat < 2 ^ 32 - 1 := by
  cases hx : x.isFinite with
  | false => simp [arrayIndex?_of_not_isFinite hx]
  | true =>
    -- of the numbers with a sign only negative zero counts
    have hsign : x.isIntegral = true → ((!x.negative || x.isZero) = true ↔ 0 ≤ x.signedTruncated) := by
      intro hintegral
      have hzero := (Binary64.exact_eq_zero hx).symm.trans (by simpa using Binary64.exact_eq_intCast hx 0)
      rw [Bool.or_eq_true, hzero, Binary64.signedTruncated]
      cases x.negative <;> simp [hintegral]
    have hsize : 0 ≤ x.signedTruncated → (x.truncated : ℤ) = x.signedTruncated := by
      unfold Binary64.signedTruncated
      split <;> omega
    have hexact := Binary64.exact_eq_intCast hx i.toNat
    rw [Int.cast_natCast] at hexact
    rw [arrayIndex?_of_not_isNaN (Binary64.isNaN_of_isFinite hx), hexact]
    rw [Option.ite_none_right_eq_some, Bool.and_eq_true, Bool.and_eq_true, decide_eq_true_eq,
      Option.some.injEq, ← UInt32.toNat_inj, UInt32.toNat_ofNat', show UInt32.size = 2 ^ 32 from rfl]
    constructor
    · rintro ⟨⟨⟨hintegral, hs⟩, hlt⟩, heq⟩
      have := hsize ((hsign hintegral).mp hs)
      exact ⟨rfl, ⟨hintegral, by omega⟩, by omega⟩
    · rintro ⟨-, ⟨hintegral, heq⟩, hlt⟩
      have hnonneg : 0 ≤ x.signedTruncated := by omega
      have := hsize hnonneg
      exact ⟨⟨⟨hintegral, (hsign hintegral).mpr hnonneg⟩, by omega⟩, by omega⟩

end Value

/-- **Conversions to integers are exact**, for every word. Of a finite number the wrapping conversions give the residue
modulo `2 ^ 32` of its exact value truncated toward zero, once as a natural number and once in two's complement, and
of a NaN or an infinity they give zero. The checked conversions give an integer exactly if the number is that integer
and it is in range; a negative zero is the array index zero, but no signed integer. -/
theorem integer_conversions_are_exact (x : Binary64) :
    (if x.isFinite then (x.toUInt32.toNat : ℤ) = towardZero x.exact % 2 ^ 32
      else x.toUInt32 = 0 ∧ x.toInt32 = 0) ∧
    x.toInt32.toInt = Int.bmod x.toUInt32.toNat (2 ^ 32) ∧
    (∀ i : Int32, (Value.number x).int32? = some i ↔
      x.isFinite = true ∧ x ≠ .negZero ∧ x.exact = i.toInt) ∧
    (∀ i : UInt32, (Value.number x).arrayIndex? = some i ↔
      x.isFinite = true ∧ x.exact = i.toNat ∧ i.toNat < 2 ^ 32 - 1) := by
  refine ⟨?_, x.toInt_toInt32, Value.int32?_number x, Value.arrayIndex?_number_eq_some x⟩
  split
  case isTrue hx => exact Binary64.toNat_toUInt32 hx
  case isFalse hx =>
    have hzero : x.toUInt32 = 0 := by
      rw [Binary64.toUInt32, Bool.eq_false_iff.mpr hx, Bool.not_false, Bool.true_or, if_pos rfl]
    exact ⟨hzero, congrArg UInt32.toInt32 hzero⟩

end ScriptMachine
