import ScriptMachine.Proofs.Value
import ScriptMachine.Stub.Word

/-! # Integers in words

An integer below `2 ^ 52` has one word for each sign (`Binary64.Whole`), whatever quotient it is rounded from
(`Binary64.ofScaled_whole`), and such integers are added exactly (`Binary64.Whole.add`). So the steps of the
wrapping conversion lose nothing: of every finite number they give the residue of its integer part
(`Binary64.toUInt32_eq`).

A 32-bit integer is a double exactly, and is read back from it (`int32?_ofInt32`). So names and indices
survive the way through the words of a stub frame, and no such word refers to a cell. -/

namespace ScriptMachine

namespace Binary64

variable {x y : Binary64}

/-! ### The parts of a word -/

theorem toNat_magnitude (x : Binary64) : x.magnitude.toNat = x.bits.toNat % 2 ^ 63 := by
  rw [magnitude, UInt64.toNat_and, ← Nat.and_two_pow_sub_one_eq_mod]
  rfl

theorem negative_eq (x : Binary64) : x.negative = decide (2 ^ 63 ≤ x.bits.toNat) := rfl

theorem isFinite_eq (x : Binary64) : x.isFinite = decide (x.magnitude.toNat < 2047 * 2 ^ 52) := rfl

theorem isNaN_eq (x : Binary64) : x.isNaN = decide (2047 * 2 ^ 52 < x.magnitude.toNat) := rfl

/-- A word is a sign and a magnitude. -/
theorem toNat_bits (x : Binary64) : x.magnitude.toNat < 2 ^ 63 ∧
    x.bits.toNat = x.magnitude.toNat + if x.negative then 2 ^ 63 else 0 := by
  have hword := x.bits.toNat_lt
  rw [x.toNat_magnitude, negative_eq]
  simp only [decide_eq_true_eq]
  constructor
  · omega
  · split <;> omega

theorem isZero_iff : x.isZero = true ↔ x.magnitude.toNat = 0 := by
  rw [isZero, beq_iff_eq, ← UInt64.toNat_inj]
  rfl

theorem exponentField_eq (x : Binary64) : x.exponentField = x.bits.toNat / 2 ^ 52 % 2 ^ 11 := by
  have hshift : x.exponentField = x.magnitude.toNat / 2 ^ 52 := by
    rw [exponentField, UInt64.toNat_shiftRight, ← Nat.shiftRight_eq_div_pow]
    rfl
  rw [hshift, x.toNat_magnitude]
  omega

theorem fractionField_eq (x : Binary64) : x.fractionField = x.bits.toNat % 2 ^ 52 := by
  rw [fractionField, UInt64.toNat_and, ← Nat.and_two_pow_sub_one_eq_mod]
  rfl

/-- The word has the sign, the exponent bits `e` and the fraction bits `f`, and is finite. -/
structure Fields (x : Binary64) (s : Bool) (e f : Nat) : Prop where
  word : x.bits.toNat = (if s then 2 ^ 63 else 0) + (e * 2 ^ 52 + f)
  exponent_lt : e < 2047
  fraction_lt : f < 2 ^ 52

/-- A finite number has the fields of its word. -/
theorem fields (hx : x.isFinite = true) : x.Fields x.negative x.exponentField x.fractionField := by
  obtain ⟨hsmall, hbits⟩ := x.toNat_bits
  rw [isFinite_eq, decide_eq_true_eq] at hx
  refine ⟨?_, ?_, ?_⟩
  · rw [exponentField_eq, fractionField_eq]
    split at hbits
    case isTrue h =>
      rw [if_pos h]
      omega
    case isFalse h =>
      rw [if_neg h]
      omega
  · rw [exponentField_eq]
    split at hbits <;> omega
  · rw [fractionField_eq]
    omega

namespace Fields

variable {s : Bool} {e f : Nat}

theorem magnitude (h : x.Fields s e f) : x.magnitude.toNat = e * 2 ^ 52 + f := by
  have he := h.exponent_lt
  have hf := h.fraction_lt
  rw [x.toNat_magnitude, h.word]
  cases s <;> simp <;> omega

theorem negative (h : x.Fields s e f) : x.negative = s := by
  have he := h.exponent_lt
  have hf := h.fraction_lt
  rw [negative_eq, h.word]
  cases s with
  | false =>
    simp only [Bool.false_eq_true, if_false, decide_eq_false_iff_not]
    omega
  | true => simp

theorem exponentField (h : x.Fields s e f) : x.exponentField = e := by
  have he := h.exponent_lt
  have hf := h.fraction_lt
  rw [exponentField_eq, h.word]
  cases s <;> simp <;> omega

theorem fractionField (h : x.Fields s e f) : x.fractionField = f := by
  have hf := h.fraction_lt
  rw [fractionField_eq, h.word]
  cases s <;> simp <;> omega

theorem isFinite (h : x.Fields s e f) : x.isFinite = true := by
  have he := h.exponent_lt
  have hf := h.fraction_lt
  rw [isFinite_eq, h.magnitude, decide_eq_true_eq]
  omega

end Fields

/-- A magnitude below that of the infinities, with a sign. -/
theorem word_fields (s : Bool) {word : Nat} (hw : word < 2047 * 2 ^ 52) :
    Fields ⟨UInt64.ofNat word ||| (if s then 0x8000000000000000 else 0)⟩ s (word / 2 ^ 52) (word % 2 ^ 52) := by
  refine ⟨?_, by omega, Nat.mod_lt _ (by decide)⟩
  rw [UInt64.toNat_or, UInt64.toNat_ofNat_of_lt' (by rw [show UInt64.size = 2 ^ 64 from rfl]; omega)]
  cases s with
  | false =>
    simp only [Bool.false_eq_true, if_false, show UInt64.toNat 0 = 0 from rfl, Nat.or_zero]
    omega
  | true =>
    simp only [if_true, show UInt64.toNat 0x8000000000000000 = 2 ^ 63 from rfl]
    rw [Nat.lor_comm, show (2 : Nat) ^ 63 = 1 <<< 63 from rfl, ← Nat.shiftLeft_add_eq_or_of_lt (by omega),
      Nat.shiftLeft_eq]
    omega

theorem isNaN_of_isFinite (hx : x.isFinite = true) : x.isNaN = false := by
  rw [isFinite_eq, decide_eq_true_eq] at hx
  rw [isNaN_eq, decide_eq_false_iff_not]
  omega

theorem isInfinite_of_isFinite (hx : x.isFinite = true) : x.isInfinite = false := by
  rw [isFinite_eq, decide_eq_true_eq] at hx
  rw [isInfinite, beq_eq_false_iff_ne]
  intro heq
  rw [heq] at hx
  exact absurd hx (by decide)

theorem significand_lt (x : Binary64) : x.significand < 2 ^ 53 := by
  rw [significand, fractionField_eq]
  split <;> omega

/-! ### Order -/

/-- **The position of a number** is its magnitude with its sign. -/
theorem toInt_orderKey (x : Binary64) :
    x.orderKey.toInt = if x.negative then -(x.magnitude.toNat : Int) else x.magnitude.toNat := by
  have hsmall := x.toNat_bits.1
  have hkey : x.magnitude.toInt64.toInt = x.magnitude.toNat := by
    rw [Int64.toInt, UInt64.toBitVec_toInt64, BitVec.toInt_eq_toNat_of_lt]
    · rfl
    · change 2 * x.magnitude.toNat < 2 ^ 64
      omega
  unfold orderKey
  split
  · rw [Int64.toInt_neg, hkey, Int.bmod_def]
    omega
  · exact hkey

/-- Against zero only the sign counts, and whether the number is a zero itself. -/
theorem compare_zero (hx : x.isNaN = false) : x.eq zero = x.isZero ∧
    x.lt zero = (x.negative && !x.isZero) ∧ zero.le x = (!x.negative || x.isZero) := by
  have hkey : zero.orderKey.toInt = 0 := rfl
  have hzero := x.isZero_iff
  have horder := x.toInt_orderKey
  refine ⟨?_, ?_, ?_⟩ <;> rw [Bool.eq_iff_iff]
  · rw [eq, hx, show zero.isNaN = false from rfl, Bool.not_false, Bool.true_and, Bool.true_and, beq_iff_eq,
      ← Int64.toInt_inj, hkey, horder, hzero]
    split <;> omega
  · rw [lt, hx, show zero.isNaN = false from rfl, Bool.not_false, Bool.true_and, Bool.true_and, decide_eq_true_eq,
      Int64.lt_iff_toInt_lt, hkey, horder, Bool.and_eq_true, Bool.not_eq_true', Bool.eq_false_iff, Ne, hzero]
    cases x.negative <;> simp
    omega
  · rw [le, hx, show zero.isNaN = false from rfl, Bool.not_false, Bool.true_and, Bool.true_and, decide_eq_true_eq,
      Int64.le_iff_toInt_le, hkey, horder, Bool.or_eq_true, hzero]
    cases x.negative <;> simp

/-- Numbers that are equal are one number, or both zeros. -/
theorem eq_or_zeros (h : x.eq y = true) : x = y ∨ x.isZero = true ∧ y.isZero = true := by
  simp only [eq, Bool.and_eq_true, beq_iff_eq] at h
  have hkey := congrArg Int64.toInt h.2
  rw [toInt_orderKey, toInt_orderKey] at hkey
  have hsame (hbits : x.bits.toNat = y.bits.toNat) : x = y := by
    cases x
    cases y
    exact congrArg Binary64.mk (UInt64.toNat_inj.mp hbits)
  obtain ⟨hx, hxbits⟩ := x.toNat_bits
  obtain ⟨hy, hybits⟩ := y.toNat_bits
  rw [isZero_iff, isZero_iff]
  cases hsx : x.negative <;> cases hsy : y.negative <;>
    simp only [hsx, hsy, Bool.false_eq_true, if_true, if_false] at hkey hxbits hybits
  case false.false => exact .inl (hsame (by omega))
  case true.true => exact .inl (hsame (by omega))
  case false.true => exact .inr (by omega)
  case true.false => exact .inr (by omega)

/-! ### The word of an integer -/

theorem divideToEven_mul (n : Nat) {den : Nat} (hd : 0 < den) : divideToEven (n * den) den = n := by
  have hne : ¬0 = den := Nat.ne_of_lt hd
  simp [divideToEven, Nat.mul_div_cancel _ hd, hne]

theorem log2_mul_two_pow {n : Nat} (h0 : n ≠ 0) (k : Nat) : (n * 2 ^ k).log2 = n.log2 + k := by
  have hpos := Nat.two_pow_pos k
  rw [Nat.log2_eq_iff (Nat.mul_ne_zero h0 (Nat.ne_of_gt hpos))]
  constructor
  · rw [Nat.pow_add]
    exact Nat.mul_le_mul_right _ (Nat.log2_self_le h0)
  · rw [Nat.add_right_comm, Nat.pow_add]
    exact Nat.mul_lt_mul_of_pos_right Nat.lt_log2_self hpos

theorem lastPlace_mul_two_pow {n : Nat} (h0 : n ≠ 0) (hn : n < 2 ^ 52) (k : Nat) :
    lastPlace (n * 2 ^ k) (2 ^ k) = (n.log2 : Int) - 52 := by
  have hlow : 2 ^ n.log2 ≤ n := Nat.log2_self_le h0
  have hlog : n.log2 < 52 := (Nat.log2_lt h0).mpr hn
  have hscaled : n * 2 ^ (53 - n.log2) ≥ 0x20000000000000 := by
    calc 0x20000000000000 = 2 ^ n.log2 * 2 ^ (53 - n.log2) := by
            rw [← Nat.pow_add, show n.log2 + (53 - n.log2) = 53 by omega]
      _ ≤ n * 2 ^ (53 - n.log2) := Nat.mul_le_mul_right _ hlow
  have hguess : ((n * 2 ^ k).log2 : Int) - ((2 ^ k : Nat).log2 : Int) - 53 = n.log2 - 53 := by
    rw [log2_mul_two_pow h0, Nat.log2_two_pow]
    omega
  have hshift : (-((n.log2 : Int) - 53)).toNat = 53 - n.log2 := by omega
  unfold lastPlace
  simp only [hguess, if_neg (show ¬(0 ≤ (n.log2 : Int) - 53) by omega), hshift, Nat.shiftLeft_eq]
  rw [Nat.mul_right_comm, Nat.mul_div_cancel _ (Nat.two_pow_pos k), if_pos hscaled]
  omega

/-- The word is that of the integer `± n`, which is below `2 ^ 52`. -/
structure Whole (x : Binary64) (s : Bool) (n : Nat) : Prop where
  lt : n < 2 ^ 52
  fields : x.Fields s (if n = 0 then 0 else n.log2 + 1023) (n * 2 ^ (52 - n.log2) - 2 ^ 52)

/-- The bits of a number other than zero, shifted to the highest place. -/
theorem normalized {n : Nat} (h0 : n ≠ 0) (hn : n < 2 ^ 52) :
    2 ^ 52 ≤ n * 2 ^ (52 - n.log2) ∧ n * 2 ^ (52 - n.log2) < 2 ^ 53 ∧ n.log2 < 52 := by
  have hlog : n.log2 < 52 := (Nat.log2_lt h0).mpr hn
  refine ⟨?_, ?_, hlog⟩
  · calc 2 ^ 52 = 2 ^ n.log2 * 2 ^ (52 - n.log2) := by rw [← Nat.pow_add]; congr 1; omega
      _ ≤ n * 2 ^ (52 - n.log2) := Nat.mul_le_mul_right _ (Nat.log2_self_le h0)
  · calc n * 2 ^ (52 - n.log2) < 2 ^ (n.log2 + 1) * 2 ^ (52 - n.log2) :=
          Nat.mul_lt_mul_of_pos_right Nat.lt_log2_self (Nat.two_pow_pos _)
      _ = 2 ^ 53 := by rw [← Nat.pow_add]; congr 1; omega

/-- **An integer below `2 ^ 52` as a quotient** is rounded to its word. -/
theorem ofRatio_whole (s : Bool) {n : Nat} (hn : n < 2 ^ 52) (k : Nat) :
    (ofRatio s (n * 2 ^ k) (2 ^ k)).Whole s n := by
  refine ⟨hn, ?_⟩
  rcases Nat.eq_zero_or_pos n with rfl | hpos
  · unfold ofRatio
    cases s <;> simp <;> exact ⟨rfl, by decide, by decide⟩
  have h0 := Nat.ne_of_gt hpos
  obtain ⟨hlow, hhigh, hlog⟩ := normalized h0 hn
  have hup : (-((n.log2 : Int) - 52)).toNat = 52 - n.log2 := by omega
  have hbias : ((n.log2 : Int) - 52 + 1074).toNat = n.log2 + 1022 := by omega
  have hrounded : divideToEven ((n * 2 ^ k) <<< (52 - n.log2)) (2 ^ k) = n * 2 ^ (52 - n.log2) := by
    rw [Nat.shiftLeft_eq, Nat.mul_right_comm, divideToEven_mul _ (Nat.two_pow_pos k)]
  have hfinite : (n.log2 + 1022) * 2 ^ 52 + n * 2 ^ (52 - n.log2) < 2047 * 2 ^ 52 := by omega
  have hword := word_fields s hfinite
  rw [show ((n.log2 + 1022) * 2 ^ 52 + n * 2 ^ (52 - n.log2)) / 2 ^ 52 = n.log2 + 1023 by omega,
    show ((n.log2 + 1022) * 2 ^ 52 + n * 2 ^ (52 - n.log2)) % 2 ^ 52 = n * 2 ^ (52 - n.log2) - 2 ^ 52 by omega] at hword
  unfold ofRatio
  rw [if_neg h0, if_neg (Nat.mul_ne_zero h0 (Nat.ne_of_gt (Nat.two_pow_pos k)))]
  simp only [lastPlace_mul_two_pow h0 hn, if_neg (show ¬(0 ≤ (n.log2 : Int) - 52) by omega), hup, hbias,
    hrounded, Nat.shiftLeft_eq (n.log2 + 1022)]
  rwa [if_neg (show ¬_ ≥ infinityBits.toNat from Nat.not_le.mpr hfinite)]

/-- **In whatever units**: an integer below `2 ^ 52` is rounded to its word. -/
theorem ofScaled_whole (s : Bool) {n : Nat} (hn : n < 2 ^ 52) {place : Int} (hp : place ≤ 0) :
    (ofScaled s (n * 2 ^ (-place).toNat) place).Whole s n := by
  unfold ofScaled
  split
  case isTrue h =>
    obtain rfl : place = 0 := by omega
    simpa using ofRatio_whole s hn 0
  case isFalse h =>
    rw [Nat.one_shiftLeft]
    exact ofRatio_whole s hn _

namespace Whole

variable {s : Bool} {n : Nat}

theorem isFinite (h : x.Whole s n) : x.isFinite = true := h.fields.isFinite

theorem negative (h : x.Whole s n) : x.negative = s := h.fields.negative

theorem isNaN (h : x.Whole s n) : x.isNaN = false := isNaN_of_isFinite h.isFinite

theorem isInfinite (h : x.Whole s n) : x.isInfinite = false := isInfinite_of_isFinite h.isFinite

theorem isZero (h : x.Whole s n) : x.isZero = decide (n = 0) := by
  have hmagnitude := h.fields.magnitude
  rw [Bool.eq_iff_iff, isZero_iff, hmagnitude, decide_eq_true_eq]
  split
  case isTrue h0 => simp [h0]
  case isFalse h0 => omega

/-- The exponent is not positive, and in units of any lower place the significand is the integer. -/
theorem units (h : x.Whole s n) : x.exponent ≤ 0 ∧ ∀ place ≤ x.exponent,
    x.significand <<< (x.exponent - place).toNat = n * 2 ^ (-place).toNat := by
  rw [significand, exponent, h.fields.exponentField, h.fields.fractionField]
  rcases Nat.eq_zero_or_pos n with rfl | hpos
  · simp
  have h0 := Nat.ne_of_gt hpos
  obtain ⟨hlow, hhigh, hlog⟩ := normalized h0 h.lt
  rw [if_neg h0, if_neg (Nat.succ_ne_zero _), if_neg (Nat.succ_ne_zero _)]
  refine ⟨by omega, fun place hp => ?_⟩
  have hshift : 52 - n.log2 + (((n.log2 + 1023 : Nat) : Int) - 1075 - place).toNat = (-place).toNat := by omega
  rw [show n * 2 ^ (52 - n.log2) - 2 ^ 52 + 0x10000000000000 = n * 2 ^ (52 - n.log2) by omega,
    Nat.shiftLeft_eq, Nat.mul_assoc, ← Nat.pow_add, hshift]

theorem truncated (h : x.Whole s n) : x.truncated = n := by
  obtain ⟨hexponent, hunits⟩ := h.units
  have hself := hunits _ (Int.le_refl _)
  rw [Int.sub_self, Int.toNat_zero, Nat.shiftLeft_zero] at hself
  unfold Binary64.truncated
  split
  case isTrue h0 =>
    rw [show x.exponent = 0 by omega] at hself ⊢
    simpa using hself
  case isFalse h0 =>
    rw [hself, Nat.shiftRight_eq_div_pow, Nat.mul_div_cancel _ (Nat.two_pow_pos _)]

theorem isIntegral (h : x.Whole s n) : x.isIntegral = true := by
  have hself := h.units.2 _ (Int.le_refl _)
  rw [Int.sub_self, Int.toNat_zero, Nat.shiftLeft_zero] at hself
  rw [Binary64.isIntegral, h.isFinite, hself, Nat.one_shiftLeft]
  simp

/-- A zero is the integer zero. -/
theorem of_isZero (hx : x.isZero = true) : x.Whole x.negative 0 := by
  refine ⟨by decide, ?_, by decide, by decide⟩
  rw [x.toNat_bits.2, isZero_iff.mp hx]
  cases x.negative <;> rfl

/-- **There is one such word.** -/
theorem unique (hx : x.Whole s n) (hy : y.Whole s n) : x = y := by
  cases x
  cases y
  exact congrArg Binary64.mk (UInt64.toNat_inj.mp (hx.fields.word.trans hy.fields.word.symm))

/-- In units of a lower place, with the sign. -/
theorem scaled (h : x.Whole s n) {place : Int} (hp : place ≤ x.exponent) :
    x.scaled place = (if s then -(n : Int) else n) * 2 ^ (-place).toNat := by
  rw [Binary64.scaled, h.units.2 _ hp, h.negative]
  cases s <;> simp only [↓reduceIte, Bool.false_eq_true, Int.natCast_mul, Int.natCast_pow, Int.neg_mul,
    Int.cast_ofNat_Int]

/-- **Integers are added exactly**, if the sum is again below `2 ^ 52`. -/
theorem add {t : Bool} {m : Nat} (sum : Int) (hx : x.Whole s n) (hy : y.Whole t m)
    (hsum : sum = (if s then -(n : Int) else n) + if t then -(m : Int) else m) (h0 : sum ≠ 0)
    (hlt : sum.natAbs < 2 ^ 52) : (x.add y).Whole (sum < 0) sum.natAbs := by
  have hp : min x.exponent y.exponent ≤ 0 := Int.le_trans (Int.min_le_left _ _) hx.units.1
  have htotal : x.scaled (min x.exponent y.exponent) + y.scaled (min x.exponent y.exponent) =
      sum * 2 ^ (-min x.exponent y.exponent).toNat := by
    rw [hx.scaled (Int.min_le_left _ _), hy.scaled (Int.min_le_right _ _), hsum, Int.add_mul]
  have hpos : (0 : Int) < 2 ^ (-min x.exponent y.exponent).toNat := Int.pow_pos (by decide)
  have hsign : sum * 2 ^ (-min x.exponent y.exponent).toNat < 0 ↔ sum < 0 := by
    simpa using Int.mul_lt_mul_right (b := sum) (c := 0) hpos
  unfold Binary64.add
  simp only [hx.isNaN, hy.isNaN, hx.isInfinite, hy.isInfinite, htotal, Bool.false_or, Bool.false_eq_true, if_false]
  rw [if_neg (Int.mul_ne_zero h0 (Int.ne_of_gt hpos)), Int.natAbs_mul, Int.natAbs_pow, decide_eq_decide.mpr hsign]
  exact ofScaled_whole _ hlt hp

end Whole

/-! ### The wrapping conversion -/

/-- Clearing the lowest bits of a word that are all in its fraction. -/
theorem Fields.clear {s : Bool} {e f d : Nat} (h : x.Fields s e f) (hd : d ≤ 52) :
    Fields ⟨x.bits >>> UInt64.ofNat d <<< UInt64.ofNat d⟩ s e (f / 2 ^ d * 2 ^ d) := by
  have hf := h.fraction_lt
  have hle : f / 2 ^ d * 2 ^ d ≤ f := Nat.div_mul_le_self f _
  refine ⟨?_, h.exponent_lt, by omega⟩
  have hword := x.bits.toNat_lt
  have hsame : (UInt64.ofNat d).toNat % 64 = d := by
    rw [UInt64.toNat_ofNat_of_lt' (by rw [show UInt64.size = 2 ^ 64 from rfl]; omega)]
    omega
  have hclear : (x.bits >>> UInt64.ofNat d <<< UInt64.ofNat d).toNat = x.bits.toNat / 2 ^ d * 2 ^ d := by
    have hsmall : x.bits.toNat / 2 ^ d * 2 ^ d ≤ x.bits.toNat := Nat.div_mul_le_self _ _
    rw [UInt64.toNat_shiftLeft, UInt64.toNat_shiftRight, hsame, Nat.shiftRight_eq_div_pow, Nat.shiftLeft_eq,
      Nat.mod_eq_of_lt (by omega)]
  have hparts : ∃ high, x.bits.toNat = f + high * 2 ^ d ∧
      (if s then 2 ^ 63 else 0) + e * 2 ^ 52 = high * 2 ^ d := by
    refine ⟨((if s then 2 ^ 11 else 0) + e) * 2 ^ (52 - d), ?_⟩
    rw [Nat.mul_assoc, ← Nat.pow_add, Nat.sub_add_cancel hd, h.word]
    cases s <;> simp <;> omega
  obtain ⟨high, hbits, hhigh⟩ := hparts
  rw [hclear, hbits, Nat.add_mul_div_right _ _ (Nat.two_pow_pos d), Nat.add_mul, ← hhigh]
  omega

/-- **Truncation** gives the integer part as a number, with the sign. -/
theorem trunc_spec (hx : x.isFinite = true) : x.trunc.isFinite = true ∧ x.trunc.negative = x.negative ∧
    ∀ place ≤ min 0 x.trunc.exponent,
      x.trunc.significand <<< (x.trunc.exponent - place).toNat = x.truncated * 2 ^ (-place).toNat := by
  have hfields := fields hx
  have hdigits := x.significand_lt
  unfold trunc truncated
  rw [hx, Bool.true_and]
  by_cases hneg : x.exponent < 0
  case neg =>
    rw [decide_eq_false hneg, if_neg Bool.false_ne_true, if_pos (Int.not_lt.mp hneg)]
    refine ⟨hx, rfl, fun place hp => ?_⟩
    have hshift : (x.exponent - place).toNat = x.exponent.toNat + (-place).toNat := by omega
    rw [Nat.shiftLeft_eq, Nat.shiftLeft_eq, Nat.mul_assoc, ← Nat.pow_add, hshift]
  rw [decide_eq_true hneg, if_pos rfl, if_neg (Int.not_le.mpr hneg)]
  obtain ⟨d, hd⟩ : ∃ d : Nat, x.exponent = -d := ⟨(-x.exponent).toNat, by omega⟩
  rw [hd, Int.neg_neg, Int.toNat_natCast, Nat.shiftRight_eq_div_pow]
  by_cases hall : d > 52
  · -- no bit of the significand is left
    have hnone : x.significand / 2 ^ d = 0 :=
      Nat.div_eq_of_lt (Nat.lt_of_lt_of_le hdigits (Nat.pow_le_pow_right (by decide) hall))
    rw [if_pos hall, hnone]
    cases x.negative
    · exact ⟨rfl, rfl, fun place _ => by simp [show (zero : Binary64).significand = 0 from rfl]⟩
    · exact ⟨rfl, rfl, fun place _ => by simp [show (negZero : Binary64).significand = 0 from rfl]⟩
  · rw [if_neg hall]
    have hclear := hfields.clear (d := d) (by omega)
    have hexponent : x.exponentField = 1075 - d := by
      rw [exponent] at hd
      split at hd <;> omega
    have hleading : (x.fractionField + 0x10000000000000) / 2 ^ d * 2 ^ d =
        x.fractionField / 2 ^ d * 2 ^ d + 0x10000000000000 := by
      have hunit : 0x10000000000000 = 2 ^ (52 - d) * 2 ^ d := by
        rw [← Nat.pow_add, Nat.sub_add_cancel (by omega)]
      rw [hunit, Nat.add_mul_div_right _ _ (Nat.two_pow_pos d), Nat.add_mul]
    refine ⟨hclear.isFinite, hclear.negative, fun place hp => ?_⟩
    rw [exponent, hclear.exponentField, if_neg (by omega)] at hp ⊢
    have hshift : (((x.exponentField : Int) - 1075) - place).toNat + d = (-place).toNat := by omega
    rw [significand, significand, hclear.exponentField, hclear.fractionField, if_neg (by omega), if_neg (by omega),
      ← hleading, Nat.shiftLeft_eq, Nat.mul_assoc, ← Nat.pow_add, Nat.add_comm d, hshift]

theorem twoPow32_whole : twoPow32.Whole false (2 ^ 32) := ⟨by decide, by decide, by decide, by decide⟩

/-- **The remainder** of the integer part, which is exact. -/
theorem rem_twoPow32 (hx : x.isFinite = true) :
    (x.trunc.rem twoPow32).Whole x.negative (x.truncated % 2 ^ 32) := by
  obtain ⟨hfinite, hnegative, hunits⟩ := trunc_spec hx
  have hlt : x.truncated % 2 ^ 32 < 2 ^ 52 := by omega
  unfold rem
  rw [isNaN_of_isFinite hfinite, isInfinite_of_isFinite hfinite, show twoPow32.isNaN = false from rfl,
    show twoPow32.isZero = false from rfl, show twoPow32.isInfinite = false from rfl]
  simp only [Bool.or_false, Bool.false_or, Bool.false_eq_true, if_false]
  split
  case isTrue hzero =>
    have hwhole := Whole.of_isZero hzero
    have hnone := (hwhole.units.2 _ (Int.min_le_right 0 _)).symm.trans (hunits _ (Int.le_refl _))
    have htruncated : x.truncated = 0 := by simpa using hnone.symm
    rwa [htruncated, ← hnegative]
  case isFalse =>
    have hp : min x.trunc.exponent twoPow32.exponent ≤ 0 := by
      have := twoPow32_whole.units.1
      omega
    rw [hunits _ (by omega), twoPow32_whole.units.2 _ (Int.min_le_right _ _), Nat.mul_mod_mul_right, hnegative]
    exact ofScaled_whole _ hlt hp

/-- A number that is in range is converted as it is, if it has no sign. -/
theorem Whole.clampUInt32 {s : Bool} {n : Nat} (h : x.Whole s n) (hn : n < 2 ^ 32) :
    x.clampUInt32 = if s then 0 else UInt32.ofNat n := by
  unfold Binary64.clampUInt32
  have hrange : ¬UInt32.size ≤ n := Nat.not_le.mpr hn
  rw [h.isNaN, h.isInfinite, h.negative, h.truncated, Bool.false_or, Bool.false_or, decide_eq_false hrange,
    if_neg Bool.false_ne_true]

/-- **The remainder that is not negative**, as a word: a negative one is corrected by `2 ^ 32`, exactly. -/
theorem clampUInt32_remEuclid (hx : x.isFinite = true) : (x.trunc.remEuclid twoPow32).clampUInt32 =
    let residue := UInt32.ofNat (x.truncated % 2 ^ 32)
    if x.negative then 0 - residue else residue := by
  have hrem := rem_twoPow32 hx
  have hr : x.truncated % 2 ^ 32 < 2 ^ 32 := Nat.mod_lt _ (by decide)
  unfold remEuclid
  dsimp only
  rw [(compare_zero hrem.isNaN).2.1, hrem.negative, hrem.isZero]
  generalize x.trunc.rem twoPow32 = remainder at hrem ⊢
  generalize x.truncated % 2 ^ 32 = r at hrem hr ⊢
  cases hs : x.negative with
  | false =>
    rw [Bool.false_and, if_neg Bool.false_ne_true, hrem.clampUInt32 hr, hs]
    rfl
  | true =>
    rw [hs] at hrem
    rcases Nat.eq_zero_or_pos r with rfl | hpos
    · exact hrem.clampUInt32 hr
    · have hsum := hrem.add (2 ^ 32 - r) twoPow32_whole (by simp; omega) (by omega) (by omega)
      rw [decide_eq_false (by omega), show (2 ^ 32 - r : Int).natAbs = 2 ^ 32 - r by omega] at hsum
      rw [decide_eq_false (Nat.ne_of_gt hpos), if_pos rfl]
      change (if true then remainder.add twoPow32 else remainder).clampUInt32 = _
      rw [if_pos rfl,
        hsum.clampUInt32 (by omega), if_neg Bool.false_ne_true, ← UInt32.toNat_inj, UInt32.toNat_sub,
        UInt32.toNat_ofNat_of_lt' (by rw [show UInt32.size = 2 ^ 32 from rfl]; omega), UInt32.toNat_ofNat_of_lt' hr,
        show UInt32.toNat 0 = 0 from rfl]
      omega

/-- **The wrapping conversion** gives the residue of the integer part. -/
theorem toUInt32_eq (hx : x.isFinite = true) : x.toUInt32 =
    let residue := UInt32.ofNat (x.truncated % 2 ^ 32)
    if x.negative then 0 - residue else residue := by
  unfold toUInt32
  rw [hx, Bool.not_true, Bool.false_or, (compare_zero (isNaN_of_isFinite hx)).1, clampUInt32_remEuclid hx]
  split
  case isTrue hzero =>
    rw [(Whole.of_isZero hzero).truncated]
    cases x.negative <;> rfl
  case isFalse => rfl

/-! ### Signed words -/

/-- **A signed word** is exactly a number. -/
theorem ofInt32_whole (n : Int32) : (ofInt32 n).Whole (n.toInt < 0) n.toInt.natAbs := by
  have hlow := n.le_toInt
  have hhigh := n.toInt_lt
  simpa [ofInt32, ofInt] using ofRatio_whole (decide (n.toInt < 0)) (n := n.toInt.natAbs) (by omega) 0

theorem clampInt32_ofInt32 (n : Int32) : (ofInt32 n).clampInt32 = n := by
  have h := ofInt32_whole n
  have hlow := n.le_toInt
  have hhigh := n.toInt_lt
  unfold clampInt32
  rw [h.isNaN, h.negative, h.isInfinite, h.truncated, if_neg Bool.false_ne_true, Bool.false_or]
  simp only [decide_eq_true_eq]
  apply Int32.toInt_inj.mp
  by_cases hs : n.toInt < 0
  · rw [if_pos hs]
    split
    · rw [show Int32.minValue.toInt = -2 ^ 31 from rfl]
      omega
    · rw [Int32.toInt_ofInt, Int.bmod_def, show Int32.size = 2 ^ 32 from rfl]
      omega
  · rw [if_neg hs, if_neg (by omega), Int32.toInt_ofNat', Int.bmod_def, show Int32.size = 2 ^ 32 from rfl]
    omega

end Binary64

namespace Value

theorem toNat_number_lt (x : Binary64) : (number x).word.toNat < undefinedTag.toNat := by
  unfold number
  split
  · decide
  · rename_i hnan
    rw [Binary64.isNaN_eq, x.toNat_magnitude, decide_eq_true_eq] at hnan
    have hword := x.bits.toNat_lt
    rw [show undefinedTag.toNat = 0xFFF9 * 2 ^ 48 from rfl]
    dsimp only
    omega

@[simp] theorem cell?_number (x : Binary64) : (number x).cell? = none := by
  have hlt := toNat_number_lt x
  rw [show undefinedTag.toNat = 0xFFF9 * 2 ^ 48 from rfl] at hlt
  unfold cell?
  rw [if_neg]
  simp only [isCell, beq_iff_eq]
  intro heq
  have heq' := congrArg UInt64.toNat heq
  rw [toNat_and_tagMask, show cellTag.toNat = 0xFFFC * 2 ^ 48 from rfl] at heq'
  omega

@[simp] theorem cell?_boolean (b : Bool) : (boolean b).cell? = none := by
  cases b <;> decide

theorem number?_number {x : Binary64} (h : x.isNaN = false) : (number x).number? = some x := by
  have hlt : (number x).word < undefinedTag := UInt64.lt_iff_toNat_lt.mpr (toNat_number_lt x)
  have hword : (number x).word = x.bits := by simp [number, h]
  rw [hword] at hlt
  simp only [number?, decode, hword, if_pos hlt]

/-- **A signed word survives as a value.** -/
theorem int32?_ofInt32 (n : Int32) : (number (.ofInt32 n)).int32? = some n := by
  have h := Binary64.ofInt32_whole n
  have hequal : (Binary64.ofInt32 n).eq (.ofInt32 n) = true := by simp [Binary64.eq, h.isNaN]
  rw [int32?, number?_number h.isNaN]
  dsimp only
  rw [Binary64.clampInt32_ofInt32, hequal, (Binary64.compare_zero h.isNaN).1, h.isZero, h.negative, if_pos]
  simp
  omega

end Value

namespace StubWord

@[simp] theorem index_ofIndex (index : UInt32) : (ofIndex index).index = index := by
  have hvalue : (ofIndex index).value = Value.number (.ofInt32 index.toInt32) := rfl
  rw [StubWord.index, int32, hvalue, Value.int32?_ofInt32]
  rfl

@[simp] theorem atom_ofAtom (atom : Atom) : (ofAtom atom).atom = atom := by
  rw [StubWord.atom, ofAtom, index_ofIndex]

@[simp] theorem value_ofValue (v : Value) : (ofValue v).value = v := rfl

@[simp] theorem cell?_ofIndex (index : UInt32) : (ofIndex index).value.cell? = none :=
  Value.cell?_number _

@[simp] theorem cell?_ofAtom (atom : Atom) : (ofAtom atom).value.cell? = none :=
  Value.cell?_number _

end StubWord

end ScriptMachine
