import ScriptMachine.Proofs.Atom
import ScriptMachine.Proofs.Number.Integer

/-! # Numbers as index names

A number is an array index exactly if its text names that index (`arrayIndex?_number`): only integers
without a sign are written in digits alone, and both zeros as one digit. So a number and its text stand
for the same property. What tells an index from other numbers is its order and its fractional part, and
these are right for every number (`Binary64.lt_whole`, `Binary64.fract_eq_zero`). -/

namespace ScriptMachine

/-! ### Texts -/

/-- A text with a character that is no digit names no index. -/
theorem arrayIndexOf?_of_mem {cs : List Char} {c : Char} (hc : c ∈ cs) (hd : isDigit c = false) :
    arrayIndexOf? (String.ofList cs) = none := by
  unfold arrayIndexOf?
  dsimp only
  rw [String.toList_ofList]
  have hall : ¬cs.all isDigit = true := fun h => by
    rw [List.all_eq_true.mp h c hc] at hd
    cases hd
  split
  · rfl
  · rfl
  · rw [if_neg hall]

/-- **The digits of a number** name it, if it is an index. -/
theorem arrayIndexOf?_digits (n : Nat) : arrayIndexOf? (String.ofList (Nat.toDigits 10 n)) =
    if n < UInt32.size - 1 then some (UInt32.ofNat n) else none := by
  obtain ⟨hd, hv, hz⟩ := toDigits_spec n
  unfold arrayIndexOf?
  dsimp only
  rw [String.toList_ofList]
  split
  case h_1 hnil => exact absurd hnil Nat.toDigits_ne_nil
  case h_2 c rest hzero => exact absurd hzero (hz c rest)
  case h_3 => rw [if_pos hd, hv]

/-- A decimal has a point or an exponent. -/
theorem NumberStyle.mem_decimal (style : NumberStyle) (d : Decimal) :
    '.' ∈ style.decimal d ∨ 'e' ∈ style.decimal d := by
  unfold decimal
  dsimp only
  split
  · left
    split
    · simp
    · split <;> simp
  · right
    simp

/-- A number that is not written as an integer names no index. -/
theorem arrayIndexOf?_finite (style : NumberStyle) (x : Binary64) :
    arrayIndexOf? (style.finite x) = none := by
  have hbody : ∃ c, isDigit c = false ∧
      c ∈ if x.isZero then ['0', '.', '0'] else style.decimal (x.shortest style.tie) := by
    split
    · exact ⟨'.', rfl, by simp⟩
    · rcases style.mem_decimal (x.shortest style.tie) with hc | hc
      · exact ⟨'.', rfl, hc⟩
      · exact ⟨'e', rfl, hc⟩
  obtain ⟨c, hd, hc⟩ := hbody
  unfold NumberStyle.finite
  dsimp only
  split
  · exact arrayIndexOf?_of_mem (List.mem_cons_of_mem _ hc) hd
  · exact arrayIndexOf?_of_mem hc hd

/-! ### Numbers -/

namespace Binary64

variable {x : Binary64}

theorem ofNat_whole {n : Nat} (hn : n < 2 ^ 52) : (ofNat n).Whole false n := by
  simpa [ofNat] using ofRatio_whole false hn 0

/-- Numbers without a sign are ordered by their magnitudes. -/
theorem lt_nonneg {y : Binary64} (hx : x.isNaN = false) (hy : y.isNaN = false) (hxs : (!x.negative || x.isZero) = true)
    (hys : (!y.negative || y.isZero) = true) : x.lt y = decide (x.magnitude.toNat < y.magnitude.toNat) := by
  have hkey {z : Binary64} (hz : (!z.negative || z.isZero) = true) : z.orderKey.toInt = z.magnitude.toNat := by
    rw [toInt_orderKey]
    split
    case isTrue hneg =>
      rw [hneg, Bool.not_true, Bool.false_or, isZero_iff] at hz
      rw [hz]
      rfl
    case isFalse => rfl
  rw [lt, hx, hy, Bool.not_false, Bool.true_and, Bool.true_and, decide_eq_decide, Int64.lt_iff_toInt_lt, hkey hxs,
    hkey hys, Int.ofNat_lt]

/-- **A number without a sign is less than an integer** if its integer part is. -/
theorem lt_whole {y : Binary64} {n : Nat} (hy : y.Whole false n) (h0 : n ≠ 0) (hx : x.isFinite = true)
    (hs : (!x.negative || x.isZero) = true) : x.lt y = decide (x.truncated < n) := by
  rw [lt_nonneg (isNaN_of_isFinite hx) hy.isNaN hs (by rw [hy.negative]; rfl), decide_eq_decide]
  have hf := fields hx
  have hfraction := hf.fraction_lt
  obtain ⟨hlow, hhigh, hlog⟩ := normalized h0 hy.lt
  have hpower : 2 ^ n.log2 ≤ n ∧ n < 2 ^ (n.log2 + 1) := ⟨Nat.log2_self_le h0, Nat.lt_log2_self⟩
  rw [hf.magnitude, hy.fields.magnitude, if_neg h0, truncated, exponent, significand]
  generalize x.exponentField = e at *
  generalize x.fractionField = f at *
  rcases Nat.eq_zero_or_pos e with rfl | hpos
  · have hnone {k : Nat} (hk : 52 ≤ k) : f >>> k = 0 := by
      rw [Nat.shiftRight_eq_div_pow]
      exact Nat.div_eq_of_lt (Nat.lt_of_lt_of_le hfraction (Nat.pow_le_pow_right (by decide) hk))
    rw [if_pos rfl, if_pos rfl, if_neg (by decide), hnone (by decide)]
    have := Nat.pos_of_ne_zero h0
    omega
  rw [if_neg (Nat.ne_of_gt hpos), if_neg (Nat.ne_of_gt hpos)]
  rcases Nat.lt_or_ge e 1075 with hsmall | hbig
  · rw [if_neg (by omega), Nat.shiftRight_eq_div_pow, Nat.div_lt_iff_lt_mul (Nat.two_pow_pos _),
      show (-((e : Int) - 1075)).toNat = 1075 - e by omega]
    rcases Nat.lt_trichotomy e (n.log2 + 1023) with hless | rfl | hmore
    · -- the leading digit is lower
      have hbound : 2 ^ 53 ≤ n * 2 ^ (1075 - e) := by
        calc 2 ^ 53 ≤ 2 ^ (n.log2 + (1075 - e)) := Nat.pow_le_pow_right (by decide) (by omega)
          _ ≤ n * 2 ^ (1075 - e) := by rw [Nat.pow_add]; exact Nat.mul_le_mul_right _ hpower.1
      omega
    · rw [show 1075 - (n.log2 + 1023) = 52 - n.log2 by omega]
      omega
    · have hbound : n * 2 ^ (1075 - e) < 2 ^ 52 := by
        calc n * 2 ^ (1075 - e) < 2 ^ (n.log2 + 1) * 2 ^ (1075 - e) :=
              Nat.mul_lt_mul_of_pos_right hpower.2 (Nat.two_pow_pos _)
          _ ≤ 2 ^ 52 := by rw [← Nat.pow_add]; exact Nat.pow_le_pow_right (by decide) (by omega)
      omega
  · have hbound : f + 0x10000000000000 ≤ (f + 0x10000000000000) * 2 ^ ((e : Int) - 1075).toNat :=
      Nat.le_mul_of_pos_right _ (Nat.two_pow_pos _)
    have hn := hy.lt
    rw [if_pos (by omega), Nat.shiftLeft_eq]
    omega

/-- In units of a place below both, a number without a fractional part is its integer part. -/
theorem isIntegral_iff_units (hx : x.isFinite = true) {place : Int} (hp : place ≤ min 0 x.exponent) :
    x.isIntegral = true ↔ x.significand <<< (x.exponent - place).toNat = x.truncated * 2 ^ (-place).toNat := by
  have hpos := Nat.two_pow_pos
  rw [isIntegral, hx, Bool.true_and, truncated, Bool.or_eq_true, decide_eq_true_eq, beq_iff_eq, Nat.one_shiftLeft,
    Nat.shiftLeft_eq]
  split
  case isTrue h =>
    have hshift : (x.exponent - place).toNat = x.exponent.toNat + (-place).toNat := by omega
    rw [Nat.shiftLeft_eq, Nat.mul_assoc, ← Nat.pow_add, hshift]
    simp [h]
  case isFalse h =>
    have hshift : (-place).toNat = (-x.exponent).toNat + (x.exponent - place).toNat := by omega
    rw [or_iff_right h, Nat.shiftRight_eq_div_pow, hshift, Nat.pow_add, ← Nat.mul_assoc, Nat.mul_left_inj (Nat.ne_of_gt (hpos _))]
    have hdiv := Nat.div_add_mod' x.significand (2 ^ (-x.exponent).toNat)
    omega

/-- The opposite number differs in its sign alone. -/
theorem neg_spec (x : Binary64) : x.neg.magnitude = x.magnitude ∧ x.neg.negative = (!x.negative) ∧
    x.neg.exponent = x.exponent ∧ x.neg.significand = x.significand := by
  have hsign : (x.bits ^^^ 0x8000000000000000).toNat = x.bits.toNat ^^^ 2 ^ 63 := UInt64.toNat_xor ..
  have hmagnitude : x.neg.magnitude = x.magnitude := by
    rw [← UInt64.toNat_inj, neg, magnitude, magnitude, UInt64.toNat_and, UInt64.toNat_and, hsign,
      Nat.and_xor_distrib_right, show 2 ^ 63 &&& UInt64.toNat 0x7FFFFFFFFFFFFFFF = 0 from by decide, Nat.xor_zero]
  have hexponent : x.neg.exponentField = x.exponentField := by
    rw [exponentField, exponentField, hmagnitude]
  have hfraction : x.neg.fractionField = x.fractionField := by
    rw [fractionField_eq, fractionField_eq, x.neg.toNat_bits.2, x.toNat_bits.2, hmagnitude]
    split <;> split <;> omega
  refine ⟨hmagnitude, ?_, by rw [exponent, exponent, hexponent], ?_⟩
  · have hbit (y : Binary64) : y.negative = y.bits.toNat.testBit 63 := by
      have hword := y.bits.toNat_lt
      rw [Nat.testBit_eq_decide_div_mod_eq, y.negative_eq,
        decide_eq_decide]
      omega
    rw [hbit, hbit, neg, hsign, Nat.testBit_xor, Nat.testBit_two_pow_self, Bool.xor_true]
  · rw [significand, significand, hexponent, hfraction]

/-- A quotient by a power of two that is no lower than the last place of all is not rounded to zero. -/
theorem ofRatio_isZero (s : Bool) {num k : Nat} (hn : num ≠ 0) (hk : k ≤ 1074) :
    (ofRatio s num (2 ^ k)).isZero = false := by
  have hplace : -1074 ≤ lastPlace num (2 ^ k) := Int.le_max_left ..
  unfold ofRatio
  rw [if_neg hn]
  dsimp only
  generalize hrounded : (if 0 ≤ lastPlace num (2 ^ k) then _ else _ : Nat) = rounded
  split
  case isTrue => cases s <;> rfl
  case isFalse hword =>
    rw [Bool.eq_false_iff, Ne, isZero_iff, (word_fields s (Nat.not_le.mp hword)).magnitude, Nat.div_add_mod',
      Nat.shiftLeft_eq]
    rcases Int.lt_or_le (-1074) (lastPlace num (2 ^ k)) with hlt | hle
    · omega
    · have hlowest : lastPlace num (2 ^ k) = -1074 := by omega
      rw [hlowest, if_neg (by decide), show (-(-1074 : Int)).toNat = k + (1074 - k) by omega, Nat.shiftLeft_eq,
        Nat.pow_add, Nat.mul_left_comm, Nat.mul_comm, divideToEven_mul _ (Nat.two_pow_pos k)] at hrounded
      have hpos := Nat.mul_ne_zero hn (Nat.ne_of_gt (Nat.two_pow_pos (1074 - k)))
      omega

theorem ofScaled_isZero (s : Bool) {units : Nat} (h0 : units ≠ 0) {place : Int} (hp : -1074 ≤ place) :
    (ofScaled s units place).isZero = false := by
  unfold ofScaled
  split
  · exact ofRatio_isZero s (k := 0) (by rw [Nat.shiftLeft_eq]; exact Nat.mul_ne_zero h0 (Nat.ne_of_gt (Nat.two_pow_pos _)))
      (by decide)
  · rw [Nat.one_shiftLeft]
    exact ofRatio_isZero s h0 (by omega)

/-- **The fractional part** is zero for the integers. -/
theorem fract_eq_zero (hx : x.isFinite = true) : x.fract.eq zero = x.isIntegral := by
  obtain ⟨hfinite, hnegative, hunits⟩ := trunc_spec hx
  obtain ⟨hmagnitude, hsign, hexponent, hsignificand⟩ := x.trunc.neg_spec
  have hneg : x.trunc.neg.isFinite = true := by rwa [isFinite, hmagnitude]
  have hlow (y : Binary64) : -1074 ≤ y.exponent := by
    rw [exponent]
    split <;> omega
  -- both in units of the lower of their places
  have hparts : x.isIntegral = true ↔ x.significand <<< (x.exponent - min x.exponent x.trunc.exponent).toNat =
      x.trunc.significand <<< (x.trunc.exponent - min x.exponent x.trunc.exponent).toNat := by
    rcases Int.lt_or_le x.exponent 0 with hfractional | hwhole
    · have hplace : min x.exponent x.trunc.exponent ≤ min 0 x.exponent := by omega
      rw [hunits _ (by omega), isIntegral_iff_units hx hplace]
    · have hself : x.trunc = x := by
        rw [trunc, decide_eq_false (by omega), Bool.and_false, if_neg Bool.false_ne_true]
      rw [hself, isIntegral, hx, decide_eq_true hwhole]
      simp
  have htotal : x.scaled (min x.exponent x.trunc.exponent) + x.trunc.neg.scaled (min x.exponent x.trunc.exponent) = 0 ↔
      x.isIntegral = true := by
    rw [hparts, scaled, scaled, hsign, hnegative, hexponent, hsignificand]
    generalize x.significand <<< (x.exponent - min x.exponent x.trunc.exponent).toNat = a
    generalize x.trunc.significand <<< (x.trunc.exponent - min x.exponent x.trunc.exponent).toNat = b
    cases x.negative <;> simp <;> omega
  unfold fract sub add
  rw [isNaN_of_isFinite hx, isNaN_of_isFinite hneg, isInfinite_of_isFinite hx, isInfinite_of_isFinite hneg, hexponent]
  simp only [Bool.or_false, Bool.false_eq_true, if_false]
  split
  case isTrue hzero =>
    rw [htotal.mp hzero]
    split <;> rfl
  case isFalse hzero =>
    have hplace := Int.le_min.mpr ⟨hlow x, hlow x.trunc⟩
    have hrest := ofScaled_isZero (x.scaled (min x.exponent x.trunc.exponent) +
      x.trunc.neg.scaled (min x.exponent x.trunc.exponent) < 0) (Int.natAbs_ne_zero.mpr hzero) hplace
    rw [Bool.eq_false_iff.mpr (mt htotal.mpr hzero), Bool.eq_false_iff]
    intro heq
    rcases eq_or_zeros heq with hsame | hzeros
    · rw [hsame] at hrest
      cases hrest
    · rw [hzeros.1] at hrest
      cases hrest

end Binary64

/-- **The index of a number** that is not a NaN. -/
theorem Value.arrayIndex?_of_not_isNaN {x : Binary64} (hx : x.isNaN = false) :
    (Value.number x).arrayIndex? =
      if x.isIntegral && (!x.negative || x.isZero) && x.truncated < UInt32.size - 1 then
        some (UInt32.ofNat x.truncated)
      else none := by
  have hlimit : (Binary64.ofUInt32 0xFFFFFFFF).Whole false 0xFFFFFFFF := Binary64.ofNat_whole (by decide)
  have hsize : UInt32.size - 1 = 0xFFFFFFFF := rfl
  rw [arrayIndex?, number?_number hx]
  dsimp only
  rw [(Binary64.compare_zero hx).2.2, hsize]
  cases hs : !x.negative || x.isZero
  case false => simp
  cases hfinite : x.isFinite
  case false =>
    -- an infinity is above all indices
    have hmagnitude : ¬x.magnitude.toNat < 2047 * 2 ^ 52 := by
      rwa [Binary64.isFinite_eq, decide_eq_false_iff_not] at hfinite
    have hlt := hlimit.isFinite
    rw [Binary64.isFinite_eq, decide_eq_true_eq] at hlt
    have hnot : x.lt (.ofUInt32 0xFFFFFFFF) = false := by
      rw [Binary64.lt_nonneg hx hlimit.isNaN hs (by rw [hlimit.negative]; rfl), decide_eq_false]
      omega
    simp [hnot, Binary64.isIntegral, hfinite]
  case true =>
    rw [Binary64.fract_eq_zero hfinite, Binary64.lt_whole hlimit (by decide) hfinite hs, Bool.true_and, Bool.and_true,
      Bool.and_comm]
    split
    case isFalse => rfl
    case isTrue hindex =>
      have hlt : ¬UInt32.size ≤ x.truncated := by
        rw [Bool.and_eq_true, decide_eq_true_eq] at hindex
        rw [show UInt32.size = 2 ^ 32 from rfl]
        omega
      rw [Binary64.clampUInt32, hx, Binary64.isInfinite_of_isFinite hfinite, decide_eq_false hlt, Bool.false_or,
        Bool.false_or]
      cases hneg : x.negative
      case false => rfl
      case true =>
        rw [hneg, Bool.not_true, Bool.false_or] at hs
        rw [(Binary64.Whole.of_isZero hs).truncated]
        rfl

/-- **A number is the array index that its text names.** -/
theorem arrayIndex?_number (x : Binary64) : (Value.number x).arrayIndex? = arrayIndexOf? x.text := by
  cases hnan : x.isNaN with
  | true =>
    have htext : x.text = "NaN" := by simp [Binary64.text, hnan]
    have hvalue : Value.number x = .number .nan := by simp [Value.number, hnan]
    rw [htext, hvalue]
    decide
  | false =>
    rw [Value.arrayIndex?_of_not_isNaN hnan]
    cases hinf : x.isInfinite with
    | true =>
      have htext : x.text = if x.negative then "-Infinity" else "Infinity" := by
        simp [Binary64.text, hnan, hinf]
      have hinfinite : x.isIntegral = false := by
        have : x.magnitude = Binary64.infinityBits := by simpa [Binary64.isInfinite] using hinf
        simp [Binary64.isIntegral, Binary64.isFinite, this]
      rw [htext, hinfinite]
      cases x.negative
      · exact (by decide : none = arrayIndexOf? "Infinity")
      · exact (by decide : none = arrayIndexOf? "-Infinity")
    | false =>
      cases hzero : x.isZero with
      | true =>
        have htext : x.text = "0" := by simp [Binary64.text, hnan, hinf, hzero]
        have hwhole := Binary64.Whole.of_isZero hzero
        rw [htext, hwhole.isIntegral, hwhole.truncated, Bool.or_true]
        decide
      | false =>
        rw [Bool.or_false]
        by_cases hdigits : (x.isIntegral && x.truncated < Binary64.integralTextBound) = true
        · have htext : x.text = String.ofList
              ((if x.negative then ['-'] else []) ++ Nat.toDigits 10 x.truncated) := by
            simp only [Binary64.text, hnan, hinf, hzero, hdigits, if_true, Bool.false_eq_true,
              if_false]
          rw [htext, (Bool.and_eq_true_iff.mp hdigits).1, Bool.true_and]
          cases x.negative with
          | true => exact (arrayIndexOf?_of_mem (c := '-') (by simp) rfl).symm
          | false =>
            have hname := arrayIndexOf?_digits x.truncated
            simpa using hname.symm
        · have htext : x.text = NumberStyle.interchange.finite x := by
            simp only [Binary64.text, hnan, hinf, hzero, hdigits, Bool.false_eq_true, if_false]
          rw [htext, arrayIndexOf?_finite, if_neg]
          -- an integer that is written with a point is far too large
          simp only [Bool.and_eq_true, decide_eq_true_eq, not_and, Nat.not_lt] at hdigits ⊢
          intro hintegral
          exact Nat.le_trans (by decide) (hdigits hintegral.1)

end ScriptMachine
