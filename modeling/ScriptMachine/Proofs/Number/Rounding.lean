import ScriptMachine.Proofs.Number.Exact

/-! # Correct rounding

A rational is correctly rounded to a number if no finite number is nearer, the last bit is zero if another one is
as near, and what is too large gives an infinity (`Binary64.Rounds`). The quotients of natural numbers are
(`Binary64.ofRatio_rounds`): the last place is chosen so that the quotient has fifty-three binary digits in it
(`lastPlace_spec`), in these units it is rounded to the nearest integer (`inPlaces_spec`), and whatever is no
multiple of the place lies below all such quotients (`nearest_multiple`). So are decimals
(`Binary64.ofDecimal_rounds`), however large or small their powers. -/

namespace ScriptMachine

namespace Binary64

/-- A rational with a sign. -/
def signed (negative : Bool) (q : ℚ) : ℚ := if negative then -q else q

/-! ### Quotients -/

/-- The rounded quotient, without fractions: it is at most a half away, and even if it is just that. -/
theorem divideToEven_within (num : Nat) {den : Nat} (hd : 0 < den) :
    2 * num ≤ 2 * (divideToEven num den * den) + den ∧ 2 * (divideToEven num den * den) ≤ 2 * num + den ∧
      (2 * num = 2 * (divideToEven num den * den) + den ∨ 2 * (divideToEven num den * den) = 2 * num + den →
        divideToEven num den % 2 = 0) := by
  have hdiv := Nat.div_add_mod' num den
  have hmod := Nat.mod_lt num hd
  have hr : divideToEven num den =
      if 2 * (num % den) > den || (2 * (num % den) == den && num / den % 2 == 1) then num / den + 1
      else num / den := rfl
  split at hr
  case isTrue h =>
    simp only [Bool.or_eq_true, Bool.and_eq_true, decide_eq_true_eq, beq_iff_eq] at h
    rw [hr, Nat.add_mul, Nat.one_mul]
    omega
  case isFalse h =>
    simp only [Bool.or_eq_true, Bool.and_eq_true, decide_eq_true_eq, beq_iff_eq] at h
    rw [hr]
    omega

/-- **The rounded quotient** is at most a half away, and even if it is just that. -/
theorem divideToEven_spec (num : Nat) {den : Nat} (hd : 0 < den) :
    |(divideToEven num den : ℚ) - num / den| ≤ 1 / 2 ∧
      (|(divideToEven num den : ℚ) - num / den| = 1 / 2 → divideToEven num den % 2 = 0) := by
  have hpos : (0 : ℚ) < den := by exact_mod_cast hd
  obtain ⟨hlow, hhigh, htie⟩ := divideToEven_within num hd
  generalize divideToEven num den = r at *
  have hdist : (r : ℚ) - num / den = (2 * (r * den) - 2 * num) / (2 * den) := by
    field_simp
  have hlow' : (2 * num : ℚ) ≤ 2 * (r * den) + den := by exact_mod_cast hlow
  have hhigh' : (2 * (r * den) : ℚ) ≤ 2 * num + den := by exact_mod_cast hhigh
  rw [hdist, abs_div, abs_of_pos (by positivity : (0 : ℚ) < 2 * den)]
  constructor
  · rw [div_le_iff₀ (by positivity), abs_le]
    constructor <;> linarith
  · intro heq
    rw [div_eq_iff (by positivity)] at heq
    refine htie ?_
    rcases abs_choice ((2 * (r * den) - 2 * num : ℚ)) with h | h
    · right
      rw [h] at heq
      have : (2 * (r * den) : ℚ) = 2 * num + den := by linarith
      exact_mod_cast this
    · left
      rw [h] at heq
      have : (2 * num : ℚ) = 2 * (r * den) + den := by linarith
      exact_mod_cast this

/-- A quotient, divided by a power of two. -/
def shifted (num den : Nat) (place : ℤ) : Nat × Nat :=
  if 0 ≤ place then (num, den <<< place.toNat) else (num <<< (-place).toNat, den)

theorem shifted_spec (num : Nat) {den : Nat} (hd : 0 < den) (place : ℤ) : 0 < (shifted num den place).2 ∧
    ((shifted num den place).1 / (shifted num den place).2 : ℚ) = num / den / 2 ^ place := by
  unfold shifted
  split
  case isTrue h =>
    obtain ⟨k, rfl⟩ := Int.eq_ofNat_of_zero_le h
    refine ⟨by simp only [Int.toNat_natCast, Nat.shiftLeft_eq]; positivity, ?_⟩
    simp only [Int.toNat_natCast, Nat.shiftLeft_eq]
    push_cast
    rw [div_div, zpow_natCast]
  case isFalse h =>
    obtain ⟨k, rfl⟩ : ∃ k : ℕ, place = -k := ⟨(-place).toNat, by omega⟩
    refine ⟨hd, ?_⟩
    simp only [neg_neg, Int.toNat_natCast, Nat.shiftLeft_eq]
    push_cast
    rw [zpow_neg, zpow_natCast, div_inv_eq_mul, div_mul_eq_mul_div]

/-- The quotient lies within a factor of two of that of the leading powers of two. -/
theorem quotient_bracket {num den : Nat} (hn : num ≠ 0) (hd : den ≠ 0) :
    (2 : ℚ) ^ ((num.log2 : ℤ) - den.log2 - 1) < num / den ∧
      (num / den : ℚ) < 2 ^ ((num.log2 : ℤ) - den.log2 + 1) := by
  have hnum : (2 ^ num.log2 : ℚ) ≤ num ∧ (num : ℚ) < 2 ^ (num.log2 + 1) :=
    ⟨by exact_mod_cast Nat.log2_self_le hn, by exact_mod_cast Nat.lt_log2_self⟩
  have hden : (2 ^ den.log2 : ℚ) ≤ den ∧ (den : ℚ) < 2 ^ (den.log2 + 1) :=
    ⟨by exact_mod_cast Nat.log2_self_le hd, by exact_mod_cast Nat.lt_log2_self⟩
  have hpos : (0 : ℚ) < den := by exact_mod_cast Nat.pos_of_ne_zero hd
  have hlow : (2 : ℚ) ^ ((num.log2 : ℤ) - den.log2 - 1) = 2 ^ num.log2 / 2 ^ (den.log2 + 1) := by
    rw [sub_sub, zpow_sub₀ two_ne_zero, zpow_natCast]
    norm_cast
  have hhigh : (2 : ℚ) ^ ((num.log2 : ℤ) - den.log2 + 1) = 2 ^ (num.log2 + 1) / 2 ^ den.log2 := by
    rw [sub_add_eq_add_sub, zpow_sub₀ two_ne_zero, zpow_natCast]
    norm_cast
  rw [hlow, hhigh, div_lt_div_iff₀ (by positivity) hpos, div_lt_div_iff₀ hpos (by positivity)]
  constructor
  · calc (2 ^ num.log2 * den : ℚ) ≤ num * den := by gcongr; exact hnum.1
      _ < num * 2 ^ (den.log2 + 1) := by
        have : (0 : ℚ) < num := by exact_mod_cast Nat.pos_of_ne_zero hn
        gcongr
        exact hden.2
  · calc (num * 2 ^ den.log2 : ℚ) ≤ num * den := by gcongr; exact hden.1
      _ < 2 ^ (num.log2 + 1) * den := by gcongr; exact hnum.2

/-- **The last place** of a quotient: in its units, the quotient has fifty-three binary digits, or fewer if the place
is the lowest one. -/
theorem lastPlace_spec {num den : Nat} (hn : num ≠ 0) (hd : den ≠ 0) :
    -1074 ≤ lastPlace num den ∧ (num / den : ℚ) < 2 ^ (lastPlace num den + 53) ∧
      (lastPlace num den = -1074 ∨ (2 : ℚ) ^ (lastPlace num den + 52) ≤ num / den) := by
  obtain ⟨hlow, hhigh⟩ := quotient_bracket hn hd
  obtain ⟨guess, hguess⟩ : ∃ guess : ℤ, (num.log2 : ℤ) - den.log2 - 53 = guess := ⟨_, rfl⟩
  rw [show (num.log2 : ℤ) - den.log2 - 1 = guess + 52 by omega] at hlow
  rw [show (num.log2 : ℤ) - den.log2 + 1 = guess + 1 + 53 by omega] at hhigh
  have hplace : lastPlace num den = max (-1074)
      (if (shifted num den guess).1 / (shifted num den guess).2 ≥ 2 ^ 53 then guess + 1 else guess) := by
    unfold lastPlace shifted
    dsimp only
    rw [hguess]
    split <;> rfl
  obtain ⟨hpos, hshift⟩ := shifted_spec num (Nat.pos_of_ne_zero hd) guess
  -- the guess is right, or one too low
  have hscaled : (shifted num den guess).1 / (shifted num den guess).2 ≥ 2 ^ 53 ↔
      (2 : ℚ) ^ (guess + 53) ≤ num / den := by
    have hpos' : (0 : ℚ) < (shifted num den guess).2 := by exact_mod_cast hpos
    rw [ge_iff_le, Nat.le_div_iff_mul_le hpos, ← Nat.cast_le (α := ℚ), Nat.cast_mul, ← le_div_iff₀ hpos', hshift,
      le_div_iff₀ (by positivity), add_comm, zpow_add₀ two_ne_zero]
    norm_num
  obtain ⟨place, hchosen, hlow', hhigh'⟩ : ∃ place, lastPlace num den = max (-1074) place ∧
      (2 : ℚ) ^ (place + 52) ≤ num / den ∧ (num / den : ℚ) < 2 ^ (place + 53) := by
    rw [hplace]
    split
    case isTrue h => exact ⟨guess + 1, rfl, by rw [add_assoc]; exact hscaled.mp h, hhigh⟩
    case isFalse h => exact ⟨guess, rfl, hlow.le, not_le.mp fun h' => h (hscaled.mpr h')⟩
  rw [hchosen]
  rcases Int.le_total (-1074) place with h | h
  · rw [max_eq_right h]
    exact ⟨h, hhigh', .inr hlow'⟩
  · rw [max_eq_left h]
    exact ⟨le_refl _, hhigh'.trans_le (zpow_le_zpow_right₀ one_le_two (by omega)), .inl rfl⟩

/-! ### The nearest number -/

/-- An integer at most a half away is nearest, and only from a half away there is another one. -/
theorem nearest_integer {t : ℚ} {r : Nat} (hr : |(r : ℚ) - t| ≤ 1 / 2)
    (heven : |(r : ℚ) - t| = 1 / 2 → r % 2 = 0) (k : ℤ) :
    |(r : ℚ) - t| ≤ |(k : ℚ) - t| ∧ (|(k : ℚ) - t| = |(r : ℚ) - t| → (k : ℚ) ≠ r → r % 2 = 0) := by
  rcases eq_or_ne k r with rfl | hne
  · exact ⟨le_of_eq (by rw [Int.cast_natCast]), fun _ hne => absurd (Int.cast_natCast r) hne⟩
  · have hapart : (1 : ℚ) ≤ |(k : ℚ) - r| := by
      have := Int.one_le_abs (sub_ne_zero.mpr hne)
      exact_mod_cast this
    have htriangle : |(k : ℚ) - r| ≤ |(k : ℚ) - t| + |(r : ℚ) - t| := by
      rw [abs_sub_comm (r : ℚ) t]
      exact abs_sub_le _ _ _
    exact ⟨by linarith, fun heq _ => heven (by linarith)⟩

/-- **A multiple of the last place is nearest** among all numbers of the format, if it is among the multiples. -/
theorem nearest_multiple {q : ℚ} {place : ℤ} {r : Nat}
    (hdigits : place = -1074 ∨ (2 : ℚ) ^ (place + 52) ≤ q) (hr : |(r : ℚ) - q / 2 ^ place| ≤ 1 / 2)
    (heven : |(r : ℚ) - q / 2 ^ place| = 1 / 2 → r % 2 = 0) {m e : ℤ} (hm : |m| < 2 ^ 53) (he : -1074 ≤ e) :
    |(r * 2 ^ place - q : ℚ)| ≤ |(m * 2 ^ e - q : ℚ)| ∧
      (|(m * 2 ^ e - q : ℚ)| = |(r * 2 ^ place - q : ℚ)| → (m * 2 ^ e : ℚ) ≠ r * 2 ^ place → r % 2 = 0) := by
  have hunit : (0 : ℚ) < 2 ^ place := by positivity
  have hscale (a : ℚ) : |a * 2 ^ place - q| = |a - q / 2 ^ place| * 2 ^ place := by
    rw [← abs_of_pos hunit, ← abs_mul, abs_of_pos hunit, sub_mul, div_mul_cancel₀ _ hunit.ne']
  rcases le_or_gt place e with hle | hlt
  · -- the other number is a multiple as well
    obtain ⟨k, hk⟩ := Int.eq_ofNat_of_zero_le (sub_nonneg.mpr hle)
    have hmultiple : (m * 2 ^ e : ℚ) = (m * 2 ^ k : ℤ) * 2 ^ place := by
      rw [show e = k + place by omega, zpow_add₀ two_ne_zero, zpow_natCast]
      push_cast
      ring
    obtain ⟨hnearest, htie⟩ := nearest_integer hr heven (m * 2 ^ k)
    rw [hmultiple, hscale, hscale]
    exact ⟨mul_le_mul_of_nonneg_right hnearest hunit.le, fun heq hne =>
      htie (mul_right_cancel₀ hunit.ne' heq) fun h => hne (by rw [h])⟩
  · -- the other number lies below the multiple with the fewest digits
    have hlow : (2 : ℚ) ^ 52 * 2 ^ place ≤ q := by
      have := hdigits.resolve_left (by omega)
      rwa [add_comm, zpow_add₀ two_ne_zero] at this
    have hbelow : (m * 2 ^ e : ℚ) < 2 ^ 52 * 2 ^ place := by
      have hm' : (m : ℚ) < 2 ^ 53 := by exact_mod_cast (abs_lt.mp hm).2
      calc (m * 2 ^ e : ℚ) < 2 ^ 53 * 2 ^ e := by gcongr
        _ = 2 ^ 52 * 2 ^ (e + 1) := by rw [zpow_add₀ two_ne_zero]; ring
        _ ≤ 2 ^ 52 * 2 ^ place := by gcongr; exacts [one_le_two, hlt]
    have hnearest := (nearest_integer hr heven (2 ^ 52)).1
    have hfewest := mul_le_mul_of_nonneg_right hnearest hunit.le
    rw [← hscale, ← hscale, Int.cast_pow, Int.cast_ofNat, abs_of_nonpos (sub_nonpos.mpr hlow)] at hfewest
    rw [abs_of_neg (sub_neg.mpr (hbelow.trans_le hlow))]
    exact ⟨by linarith, fun heq _ => absurd heq (by linarith)⟩

/-! ### Words -/

theorem signed_signed (negative : Bool) (q : ℚ) : signed negative (signed negative q) = q := by
  cases negative <;> simp [signed]

theorem abs_signed_sub (negative : Bool) (a b : ℚ) : |signed negative a - signed negative b| = |a - b| := by
  cases negative with
  | false => rfl
  | true => exact neg_sub_neg a b ▸ abs_sub_comm b a

/-- The value of a finite number, with any sign, as a number of the format. -/
theorem signed_exact {x : Binary64} (hx : x.isFinite = true) (negative : Bool) :
    ∃ m e : ℤ, |m| < 2 ^ 53 ∧ -1074 ≤ e ∧ signed negative x.exact = m * 2 ^ e := by
  have hsignificand : x.significand < 2 ^ 53 := by
    have := (fields hx).fraction_lt
    unfold significand
    split <;> omega
  have hexponent : -1074 ≤ x.exponent := by
    unfold exponent
    split <;> omega
  have hbound : |(x.significand : ℤ)| < 2 ^ 53 := by
    rw [abs_of_nonneg (by positivity)]
    exact_mod_cast hsignificand
  rw [exact_eq]
  rcases eq_or_ne x.negative negative with heq | hne
  · refine ⟨x.significand, x.exponent, hbound, hexponent, ?_⟩
    rw [heq]
    cases negative <;> simp [signed]
  · refine ⟨-x.significand, x.exponent, by rwa [abs_neg], hexponent, ?_⟩
    rw [Bool.eq_not.mpr hne]
    cases negative <;> simp [signed]

/-- A significand that rounds up to `2 ^ 53` carries into the exponent bits, as it should. -/
theorem Fields.carried {x : Binary64} {s : Bool} {e r : Nat} (hr : r ≤ 2 ^ 53) (he : e = 0 ∨ 2 ^ 52 ≤ r)
    (h : x.Fields s ((e * 2 ^ 52 + r) / 2 ^ 52) ((e * 2 ^ 52 + r) % 2 ^ 52)) :
    x.exact = signed s (r * 2 ^ ((e : ℤ) - 1074)) ∧ (r % 2 = 0 → x.significand % 2 = 0) := by
  have hexact : x.exact = signed s (x.significand * 2 ^ x.exponent) := by
    rw [exact_eq, h.negative]
    cases s <;> simp [signed]
  have hparts : (x.significand * 2 ^ x.exponent : ℚ) = r * 2 ^ ((e : ℤ) - 1074) ∧
      (r % 2 = 0 → x.significand % 2 = 0) := by
    unfold significand exponent
    rw [h.exponentField, h.fractionField]
    rcases Nat.lt_or_ge r (2 ^ 52) with hlow | hlow
    · obtain rfl := he.resolve_right (by omega)
      rw [show (0 * 2 ^ 52 + r) / 2 ^ 52 = 0 by omega, show (0 * 2 ^ 52 + r) % 2 ^ 52 = r by omega, if_pos rfl, if_pos rfl]
      exact ⟨rfl, id⟩
    · rcases Nat.lt_or_ge r (2 ^ 53) with hhigh | hhigh
      · rw [show (e * 2 ^ 52 + r) / 2 ^ 52 = e + 1 by omega, if_neg (Nat.succ_ne_zero e), if_neg (Nat.succ_ne_zero e),
          show (e * 2 ^ 52 + r) % 2 ^ 52 + 0x10000000000000 = r by omega]
        refine ⟨?_, id⟩
        congr 2
        push_cast
        omega
      · obtain rfl : r = 2 ^ 53 := Nat.le_antisymm hr hhigh
        rw [show (e * 2 ^ 52 + 2 ^ 53) / 2 ^ 52 = e + 2 by omega, if_neg (Nat.succ_ne_zero _), if_neg (Nat.succ_ne_zero _),
          show (e * 2 ^ 52 + 2 ^ 53) % 2 ^ 52 + 0x10000000000000 = 2 ^ 52 by omega]
        refine ⟨?_, fun _ => by decide⟩
        rw [show ((e + 2 : ℕ) : ℤ) - 1075 = (e - 1074) + 1 by push_cast; omega, zpow_add₀ two_ne_zero]
        push_cast
        ring
  exact ⟨hexact.trans (congrArg (signed s) hparts.1), hparts.2⟩

/-- A quotient in units of its last place, rounded. -/
def inPlaces (num den : Nat) : Nat :=
  divideToEven (shifted num den (lastPlace num den)).1 (shifted num den (lastPlace num den)).2

/-- The word that stands for a quotient, but for the sign; it may be too large. -/
def ratioWord (num den : Nat) : Nat := (lastPlace num den + 1074).toNat * 2 ^ 52 + inPlaces num den

theorem ofRatio_eq (s : Bool) {num den : Nat} (hn : num ≠ 0) : ofRatio s num den =
    if ratioWord num den ≥ 2047 * 2 ^ 52 then infinity s
    else ⟨UInt64.ofNat (ratioWord num den) ||| (if s then 0x8000000000000000 else 0)⟩ := by
  have hplaces : (if 0 ≤ lastPlace num den then divideToEven num (den <<< (lastPlace num den).toNat)
      else divideToEven (num <<< (-lastPlace num den).toNat) den) = inPlaces num den := by
    unfold inPlaces shifted
    split <;> rfl
  unfold ofRatio
  rw [if_neg hn]
  dsimp only
  rw [hplaces, Nat.shiftLeft_eq]
  rfl

/-- **The fields of a rounded quotient** that is not too large. -/
theorem ofRatio_fields_of_lt (s : Bool) {num den : Nat} (hn : num ≠ 0) (hw : ratioWord num den < 2047 * 2 ^ 52) :
    (ofRatio s num den).Fields s (ratioWord num den / 2 ^ 52) (ratioWord num den % 2 ^ 52) := by
  rw [ofRatio_eq s hn, if_neg (Nat.not_le.mpr hw)]
  exact word_fields s hw

/-! ### Correct rounding -/

theorem limit_eq : (2 : ℚ) ^ 1024 - 2 ^ 970 = (2 ^ 54 - 1) * 2 ^ (970 : ℤ) := by
  have hpower : (2 : ℚ) ^ 1024 = 2 ^ 54 * 2 ^ 970 := by rw [← pow_add]
  rw [hpower, zpow_ofNat, sub_mul, one_mul]

/-- **The number is a rational, correctly rounded**: the magnitude `q` with a sign. -/
structure Rounds (x : Binary64) (s : Bool) (q : ℚ) : Prop where
  negative : x.negative = s
  /-- Magnitudes from halfway past the largest finite one are too large. -/
  finite : x.isFinite = true ↔ q < 2 ^ 1024 - 2 ^ 970
  infinite : x.isFinite = false → x = infinity s
  /-- No finite number is nearer. -/
  nearest : x.isFinite = true → ∀ y : Binary64, y.isFinite = true →
    |x.exact - signed s q| ≤ |y.exact - signed s q|
  /-- If another one is as near, the last bit is zero. -/
  even : x.isFinite = true → ∀ y : Binary64, y.isFinite = true →
    |y.exact - signed s q| = |x.exact - signed s q| → y.exact ≠ x.exact → x.significand % 2 = 0

theorem Rounds.isNaN {x : Binary64} {s : Bool} {q : ℚ} (h : x.Rounds s q) : x.isNaN = false := by
  cases hx : x.isFinite with
  | true => exact isNaN_of_isFinite hx
  | false =>
    rw [h.infinite hx]
    cases s <;> decide

/-- **A finite number is correctly rounded** if it is the nearest multiple of a place in which the rational has all
digits. -/
theorem Rounds.of_multiple {x : Binary64} {s : Bool} {q : ℚ} {place : ℤ} {r : Nat} (hx : x.isFinite = true)
    (hs : x.negative = s) (hlimit : q < 2 ^ 1024 - 2 ^ 970) (hexact : x.exact = signed s (r * 2 ^ place))
    (hbit : r % 2 = 0 → x.significand % 2 = 0) (hdigits : place = -1074 ∨ (2 : ℚ) ^ (place + 52) ≤ q)
    (hr : |(r : ℚ) - q / 2 ^ place| ≤ 1 / 2) (heven : |(r : ℚ) - q / 2 ^ place| = 1 / 2 → r % 2 = 0) :
    x.Rounds s q := by
  have hunsigned : signed s x.exact = r * 2 ^ place := by rw [hexact, signed_signed]
  have hdistance (y : Binary64) : |y.exact - signed s q| = |signed s y.exact - q| := by
    rw [← abs_signed_sub s (signed s y.exact), signed_signed]
  have hnearest {y : Binary64} (hy : y.isFinite = true) :
      |(r * 2 ^ place - q : ℚ)| ≤ |signed s y.exact - q| ∧
        (|signed s y.exact - q| = |(r * 2 ^ place - q : ℚ)| → signed s y.exact ≠ r * 2 ^ place → r % 2 = 0) := by
    obtain ⟨m, e, hm, he, heq⟩ := signed_exact hy s
    rw [heq]
    exact nearest_multiple hdigits hr heven hm he
  refine ⟨hs, iff_of_true hx hlimit, fun h => absurd hx (by rw [h]; decide), fun _ y hy => ?_,
    fun _ y hy heq hne => ?_⟩
  · rw [hdistance, hdistance, hunsigned]
    exact (hnearest hy).1
  · rw [hdistance, hdistance, hunsigned] at heq
    refine hbit ((hnearest hy).2 heq fun h => hne ?_)
    rw [← signed_signed s y.exact, h, ← hunsigned, signed_signed]

/-- What is at most half the least number is rounded to zero. -/
theorem ofRatio_zero_rounds (s : Bool) (den : Nat) {q : ℚ} (h0 : 0 ≤ q) (hq : q ≤ 2 ^ (-1075 : ℤ)) :
    (ofRatio s 0 den).Rounds s q := by
  have hzero : ofRatio s 0 den = if s then negZero else zero := by
    unfold ofRatio
    rw [if_pos rfl]
  have hhalf : |((0 : ℕ) : ℚ) - q / 2 ^ (-1074 : ℤ)| ≤ 1 / 2 := by
    rw [Nat.cast_zero, zero_sub, abs_neg, abs_of_nonneg (by positivity), div_le_iff₀ (by positivity)]
    refine hq.trans_eq ?_
    rw [show (-1075 : ℤ) = -1 + -1074 by omega, zpow_add₀ two_ne_zero, zpow_neg_one, one_div]
  rw [hzero]
  refine .of_multiple (by cases s <;> decide) (by cases s <;> decide) (hq.trans_lt ?_) ?_
    (fun _ => by cases s <;> decide) (.inl rfl) hhalf fun _ => rfl
  · calc (2 : ℚ) ^ (-1075 : ℤ) ≤ 2 ^ (0 : ℤ) := zpow_le_zpow_right₀ one_le_two (by omega)
      _ = 1 := zpow_zero 2
      _ ≤ 2 ^ (970 : ℤ) := one_le_zpow₀ one_le_two (by omega)
      _ < (2 ^ 54 - 1) * 2 ^ (970 : ℤ) := lt_mul_of_one_lt_left (by positivity) (by norm_num)
      _ = 2 ^ 1024 - 2 ^ 970 := limit_eq.symm
  · rw [Nat.cast_zero, zero_mul, show signed s 0 = 0 by cases s <;> simp [signed]]
    cases s <;> exact (exact_eq_zero (by decide)).mpr (by decide)

/-- What is too large is rounded to an infinity. -/
theorem infinity_rounds (s : Bool) {q : ℚ} (hq : ¬q < 2 ^ 1024 - 2 ^ 970) : (infinity s).Rounds s q := by
  have hlarge : (infinity s).isFinite = false := by cases s <;> decide
  exact ⟨by cases s <;> decide, iff_of_false (by rw [hlarge]; decide) hq, fun _ => rfl,
    fun h => absurd h (by rw [hlarge]; decide), fun h => absurd h (by rw [hlarge]; decide)⟩

section

variable {num den : Nat}

/-- A quotient is in its places at most a half away. -/
theorem inPlaces_spec (num : Nat) (hd : 0 < den) :
    |(inPlaces num den : ℚ) - num / den / 2 ^ lastPlace num den| ≤ 1 / 2 ∧
      (|(inPlaces num den : ℚ) - num / den / 2 ^ lastPlace num den| = 1 / 2 → inPlaces num den % 2 = 0) := by
  obtain ⟨hpos, hshift⟩ := shifted_spec num hd (lastPlace num den)
  have hspec := divideToEven_spec (shifted num den (lastPlace num den)).1 hpos
  rwa [hshift] at hspec

/-- A quotient has at most fifty-three digits in its places, and no fewer but in the lowest ones. -/
theorem inPlaces_bounds (hn : num ≠ 0) (hd : 0 < den) : inPlaces num den ≤ 2 ^ 53 ∧
    (lastPlace num den = -1074 ∨ 2 ^ 52 ≤ inPlaces num den) := by
  obtain ⟨-, hhigh, hlow⟩ := lastPlace_spec hn hd.ne'
  obtain ⟨hr, -⟩ := inPlaces_spec num hd
  have hunit : (0 : ℚ) < 2 ^ lastPlace num den := by positivity
  rw [abs_le] at hr
  constructor
  · rw [add_comm, zpow_add₀ two_ne_zero, ← div_lt_iff₀ hunit] at hhigh
    norm_num at hhigh
    have : (inPlaces num den : ℚ) < (2 ^ 53 + 1 : ℕ) := by
      push_cast
      linarith
    exact Nat.le_of_lt_succ (by exact_mod_cast this)
  · refine hlow.imp_right fun hlow => ?_
    rw [add_comm, zpow_add₀ two_ne_zero, ← le_div_iff₀ hunit] at hlow
    norm_num at hlow
    have : ((2 ^ 52 : ℕ) : ℚ) < (inPlaces num den + 1 : ℕ) := by
      push_cast
      linarith
    exact Nat.le_of_lt_succ (by exact_mod_cast this)

/-- **When a quotient is too large.** -/
theorem ratioWord_lt_iff (hn : num ≠ 0) (hd : 0 < den) :
    ratioWord num den < 2047 * 2 ^ 52 ↔ (num / den : ℚ) < 2 ^ 1024 - 2 ^ 970 := by
  obtain ⟨hplace, hhigh, hlow⟩ := lastPlace_spec hn hd.ne'
  obtain ⟨hr, heven⟩ := inPlaces_spec num hd
  obtain ⟨hmost, hleast⟩ := inPlaces_bounds hn hd
  unfold ratioWord
  generalize lastPlace num den = place at *
  generalize inPlaces num den = r at *
  generalize (num / den : ℚ) = q at *
  obtain ⟨unit, hunit⟩ : ∃ unit, (2 : ℚ) ^ (970 : ℤ) = unit := ⟨_, rfl⟩
  have hpos : 0 < unit := hunit ▸ by positivity
  rw [limit_eq, hunit]
  rcases lt_trichotomy place 971 with hsmall | rfl | hlarge
  · refine iff_of_true (by omega) ?_
    calc q < 2 ^ (place + 53) := hhigh
      _ ≤ 2 ^ (53 + 970 : ℤ) := zpow_le_zpow_right₀ one_le_two (by omega)
      _ = 2 ^ 53 * unit := by rw [zpow_add₀ two_ne_zero, hunit, zpow_ofNat]
      _ < (2 ^ 54 - 1) * unit := mul_lt_mul_of_pos_right (by norm_num) hpos
  · -- in these places the limit is a half below the carry
    have hplaces : (2 : ℚ) ^ (971 : ℤ) = 2 * unit := by
      rw [show (971 : ℤ) = 1 + 970 by omega, zpow_add₀ two_ne_zero, zpow_one, hunit]
    have hbelow : q < (2 ^ 54 - 1) * unit ↔ q / 2 ^ (971 : ℤ) < 2 ^ 53 - 1 / 2 := by
      rw [hplaces, div_lt_iff₀ (by positivity), ← mul_assoc]
      norm_num
    rw [hbelow, show (971 + 1074 : ℤ).toNat = 2045 from rfl]
    generalize q / 2 ^ (971 : ℤ) = t at hr heven ⊢
    rw [abs_le] at hr
    constructor
    · intro hword
      by_contra hge
      have hlast : (r : ℚ) + 1 ≤ 2 ^ 53 := by
        have : r + 1 ≤ 2 ^ 53 := by omega
        exact_mod_cast this
      have htie : (r : ℚ) - t = -(1 / 2) := by linarith
      have hodd : ((r + 1 : ℕ) : ℚ) = (2 ^ 53 : ℕ) := by
        push_cast
        linarith
      have hodd : r + 1 = 2 ^ 53 := by exact_mod_cast hodd
      have := heven (by rw [htie, abs_neg, abs_of_pos (by norm_num)])
      omega
    · intro hlt
      have : (r : ℚ) < (2 ^ 53 : ℕ) := by
        push_cast
        linarith
      have : r < 2 ^ 53 := by exact_mod_cast this
      omega
  · refine iff_of_false (by omega) (not_lt.mpr ?_)
    calc (2 ^ 54 - 1) * unit ≤ 2 ^ 54 * unit := mul_le_mul_of_nonneg_right (by norm_num) hpos.le
      _ = 2 ^ (54 + 970 : ℤ) := by rw [zpow_add₀ two_ne_zero, hunit, zpow_ofNat]
      _ ≤ 2 ^ (place + 52) := zpow_le_zpow_right₀ one_le_two (by omega)
      _ ≤ q := hlow.resolve_left (by omega)

end

/-- **Quotients are correctly rounded.** -/
theorem ofRatio_rounds (s : Bool) (num : Nat) {den : Nat} (hd : 0 < den) :
    (ofRatio s num den).Rounds s (num / den) := by
  rcases eq_or_ne num 0 with rfl | hn
  · rw [Nat.cast_zero, zero_div]
    exact ofRatio_zero_rounds s den le_rfl (by positivity)
  · have hlimit := ratioWord_lt_iff hn hd
    by_cases hw : ratioWord num den < 2047 * 2 ^ 52
    · obtain ⟨hplace, -, hdigits⟩ := lastPlace_spec hn hd.ne'
      obtain ⟨hr, heven⟩ := inPlaces_spec num hd
      obtain ⟨hmost, hleast⟩ := inPlaces_bounds hn hd
      have hfields := ofRatio_fields_of_lt s hn hw
      obtain ⟨hexact, hbit⟩ := hfields.carried hmost (hleast.imp_left fun h => by rw [h]; rfl)
      rw [show ((lastPlace num den + 1074).toNat : ℤ) - 1074 = lastPlace num den by omega] at hexact
      exact .of_multiple hfields.isFinite hfields.negative (hlimit.mp hw) hexact hbit hdigits hr heven
    · rw [ofRatio_eq s hn, if_pos (Nat.le_of_not_lt hw)]
      exact infinity_rounds s (mt hlimit.mpr hw)

/-- A number with a count of digits. -/
theorem toDigits_length_spec {n : Nat} (hn : n ≠ 0) :
    10 ^ ((Nat.toDigits 10 n).length - 1) ≤ n ∧ n < 10 ^ (Nat.toDigits 10 n).length := by
  have hpos : 0 < (Nat.toDigits 10 n).length := List.length_pos_of_ne_nil Nat.toDigits_ne_nil
  have hiff {k : Nat} (hk : 0 < k) := Nat.length_toDigits_le_iff (b := 10) (n := n) (by decide) hk
  refine ⟨?_, (hiff hpos).mp le_rfl⟩
  rcases Nat.eq_zero_or_pos ((Nat.toDigits 10 n).length - 1) with h0 | h0
  · rw [h0, pow_zero]
    omega
  · have := mt (hiff h0).mpr (by omega)
    omega

theorem two_pow_le_ten_pow : (2 : ℚ) ^ 1024 ≤ 10 ^ 310 ∧ (2 : ℚ) ^ 1075 ≤ 10 ^ 330 := by
  constructor
  · calc (2 : ℚ) ^ 1024 ≤ (2 ^ 205) ^ 5 := by
          rw [← pow_mul]
          exact pow_le_pow_right₀ one_le_two (by decide)
      _ ≤ (10 ^ 62) ^ 5 := pow_le_pow_left₀ (by positivity) (by norm_num) 5
      _ = 10 ^ 310 := by rw [← pow_mul]
  · calc (2 : ℚ) ^ 1075 ≤ (2 ^ 219) ^ 5 := by
          rw [← pow_mul]
          exact pow_le_pow_right₀ one_le_two (by decide)
      _ ≤ (10 ^ 66) ^ 5 := pow_le_pow_left₀ (by positivity) (by norm_num) 5
      _ = 10 ^ 330 := by rw [← pow_mul]

/-- **Decimals are correctly rounded**, also those whose number of digits settles the matter. -/
theorem ofDecimal_rounds (s : Bool) (digits : Nat) (power : ℤ) :
    (ofDecimal s digits power).Rounds s (digits * 10 ^ power) := by
  unfold ofDecimal
  split
  case isTrue h =>
    rw [h, Nat.cast_zero, zero_mul]
    exact ofRatio_zero_rounds s 1 le_rfl (by positivity)
  case isFalse hne =>
    obtain ⟨hleast, hmost⟩ := toDigits_length_spec hne
    have hten : (10 : ℚ) ≠ 0 := by norm_num
    have hpower : (0 : ℚ) < 10 ^ power := by positivity
    dsimp only
    generalize (Nat.toDigits 10 digits).length = count at *
    split
    case isTrue hlarge =>
      refine infinity_rounds s (not_lt.mpr ?_)
      have hleast' : (10 : ℚ) ^ (count - 1) ≤ digits := by exact_mod_cast hleast
      calc (2 : ℚ) ^ 1024 - 2 ^ 970 ≤ 2 ^ 1024 := sub_le_self _ (by positivity)
        _ ≤ 10 ^ 310 := two_pow_le_ten_pow.1
        _ = 10 ^ (310 : ℤ) := (zpow_ofNat 10 310).symm
        _ ≤ 10 ^ (((count - 1 : ℕ) : ℤ) + power) := zpow_le_zpow_right₀ (by norm_num) (by omega)
        _ = 10 ^ (count - 1) * 10 ^ power := by rw [zpow_add₀ hten, zpow_natCast]
        _ ≤ digits * 10 ^ power := mul_le_mul_of_nonneg_right hleast' hpower.le
    case isFalse =>
      split
      case isTrue hsmall =>
        refine ofRatio_zero_rounds s 1 (by positivity) ?_
        have hmost' : (digits : ℚ) ≤ 10 ^ count := by exact_mod_cast hmost.le
        calc (digits * 10 ^ power : ℚ) ≤ 10 ^ count * 10 ^ power := mul_le_mul_of_nonneg_right hmost' hpower.le
          _ = 10 ^ ((count : ℤ) + power) := by rw [zpow_add₀ hten, zpow_natCast]
          _ ≤ 10 ^ (-330 : ℤ) := zpow_le_zpow_right₀ (by norm_num) (by omega)
          _ = (10 ^ 330)⁻¹ := by rw [zpow_neg, zpow_ofNat]
          _ ≤ (2 ^ 1075)⁻¹ := inv_anti₀ (by positivity) two_pow_le_ten_pow.2
          _ = 2 ^ (-1075 : ℤ) := by rw [zpow_neg, zpow_ofNat]
      case isFalse =>
        split
        case isTrue h =>
          obtain ⟨k, rfl⟩ := Int.eq_ofNat_of_zero_le h
          have hrounds := ofRatio_rounds s (digits * 10 ^ k) one_pos
          rw [zpow_natCast]
          push_cast at hrounds
          rwa [div_one] at hrounds
        case isFalse h =>
          obtain ⟨k, rfl⟩ : ∃ k : ℕ, power = -k := ⟨(-power).toNat, by omega⟩
          have hrounds := ofRatio_rounds s digits (Nat.pow_pos (n := k) (by decide : 0 < 10))
          rw [zpow_neg, zpow_natCast, ← div_eq_mul_inv, neg_neg]
          push_cast at hrounds
          exact hrounds

end Binary64

end ScriptMachine
