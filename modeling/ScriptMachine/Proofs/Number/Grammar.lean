import ScriptMachine.Proofs.Json.Numerals
import ScriptMachine.Proofs.Number.Rounding

/-! # The grammar of number texts

The texts that stand for numbers are those of a small grammar (`NumberText`): nothing, `Infinity` with an optional
sign, hexadecimal integers below `2 ^ 64`, and decimal literals. A text is read as a number just if it is one of
them, up to blanks at its ends, and then as the number it stands for (`Binary64.ofText_spec`), which is what it says,
correctly rounded (`NumberText.value_rounds`). After the `0x` of a hexadecimal literal there may be a plus sign. -/

namespace ScriptMachine

/-! ### Number texts -/

/-- A sign, if one is written. -/
inductive Sign where
  /-- No sign. -/
  | none
  /-- A plus sign. -/
  | plus
  /-- A minus sign. -/
  | minus
deriving DecidableEq, Repr

namespace Sign

/-- The sign as text. -/
def chars : Sign → List Char
  | .none => []
  | .plus => ['+']
  | .minus => ['-']

/-- The sign is a minus sign. -/
def negative : Sign → Bool
  | .minus => true
  | .none | .plus => false

end Sign

/-- **A decimal literal**, in parts. -/
structure DecimalText where
  /-- The sign in front. -/
  sign : Sign
  /-- The digits before the point. -/
  whole : List Char
  /-- The digits after the point, if there is one. -/
  fraction : Option (List Char)
  /-- The letter, the sign and the digits of the exponent, if there is one. -/
  exponent : Option (Char × Sign × List Char)
deriving DecidableEq, Repr

namespace DecimalText

/-- The exponent as text. -/
def exponentChars : Option (Char × Sign × List Char) → List Char
  | some (letter, sign, digits) => letter :: (sign.chars ++ digits)
  | .none => []

/-- The exponent as a number. -/
def exponentValue : Option (Char × Sign × List Char) → ℤ
  | some (_, sign, digits) => if sign.negative then -decimalNat digits else decimalNat digits
  | .none => 0

/-- The literal as text. -/
def chars (d : DecimalText) : List Char :=
  d.sign.chars ++ (d.whole ++ (Json.fractionChars d.fraction ++ exponentChars d.exponent))

/-- The digits of the literal, as one number. -/
def digits (d : DecimalText) : Nat := decimalNat (d.whole ++ d.fraction.getD [])

/-- The power of ten that the digits are multiplied with. -/
def power (d : DecimalText) : ℤ := exponentValue d.exponent - (d.fraction.getD []).length

/-- **A literal is well formed**: there are digits before or after the point, and digits in the exponent. -/
structure WellFormed (d : DecimalText) : Prop where
  whole : d.whole.all isDigit = true
  fraction : (d.fraction.getD []).all isDigit = true
  digits : d.whole ++ d.fraction.getD [] ≠ []
  exponent : ∀ letter sign digits, d.exponent = some (letter, sign, digits) →
    (letter = 'e' ∨ letter = 'E') ∧ IsDigits digits

end DecimalText

/-- The number of hexadecimal digits; characters that are no digits count as zero. -/
def hexNat (cs : List Char) : Nat := cs.foldl (fun n c => 16 * n + (hexDigit? c).getD 0) 0

/-- One or more hexadecimal digits. -/
def IsHexDigits (cs : List Char) : Prop := cs ≠ [] ∧ ∀ c ∈ cs, (hexDigit? c).isSome = true

/-- A plus sign, if one is written. -/
def plusChars (plus : Bool) : List Char := if plus then ['+'] else []

/-- **A text that stands for a number.** -/
inductive NumberText where
  /-- Nothing. -/
  | empty
  /-- The word `Infinity`. -/
  | infinity (sign : Sign)
  /-- A hexadecimal literal, with a large or small letter, and with or without a plus sign after it. -/
  | hex (large plus : Bool) (digits : List Char)
  /-- A decimal literal. -/
  | decimal (d : DecimalText)
deriving DecidableEq, Repr

namespace NumberText

/-- The text itself. -/
def chars : NumberText → List Char
  | .empty => []
  | .infinity sign => sign.chars ++ "Infinity".toList
  | .hex large plus digits =>
    '0' :: (if large then 'X' else 'x') :: (plusChars plus ++ digits)
  | .decimal d => d.chars

/-- **A text is well formed**: a literal has digits, and a hexadecimal one is below `2 ^ 64`. -/
def WellFormed : NumberText → Prop
  | .empty | .infinity _ => True
  | .hex _ _ digits => IsHexDigits digits ∧ hexNat digits < 2 ^ 64
  | .decimal d => d.WellFormed

/-- The number that the text stands for. -/
def value : NumberText → Binary64
  | .empty => .zero
  | .infinity sign => .infinity sign.negative
  | .hex _ _ digits => .ofNat (hexNat digits)
  | .decimal d => .ofDecimal d.sign.negative d.digits d.power

end NumberText

/-! ### Signs -/

theorem splitSign_append {sign : Sign} {cs : List Char} (h : ∀ c ∈ cs.head?, c ≠ '+' ∧ c ≠ '-') :
    splitSign (sign.chars ++ cs) = (sign.negative, cs) := by
  cases sign with
  | plus | minus => rfl
  | none =>
    cases cs with
    | nil => rfl
    | cons c cs =>
      obtain ⟨hplus, hminus⟩ := h c rfl
      unfold splitSign
      split <;> simp_all [Sign.chars, Sign.negative]

theorem exists_sign (cs : List Char) : ∃ sign : Sign, sign.chars ++ (splitSign cs).2 = cs ∧
    sign.negative = (splitSign cs).1 := by
  unfold splitSign
  split
  · exact ⟨.minus, rfl, rfl⟩
  · exact ⟨.plus, rfl, rfl⟩
  · exact ⟨.none, rfl, rfl⟩

/-- A digit is no other character of a literal. -/
theorem isDigit_ne {c d : Char} (hc : isDigit c = true) (hd : isDigit d = false) : c ≠ d := by
  rintro rfl
  rw [hc] at hd
  cases hd

/-! ### Decimal literals -/

namespace DecimalText

theorem exponentPart?_eq_some_iff {cs : List Char} {n : ℤ} : exponentPart? cs = some n ↔
    ∃ exponent, exponentChars exponent = cs ∧ exponentValue exponent = n ∧
      ∀ letter sign digits, exponent = some (letter, sign, digits) →
        (letter = 'e' ∨ letter = 'E') ∧ IsDigits digits := by
  constructor
  · intro h
    cases cs with
    | nil =>
      cases h
      exact ⟨.none, rfl, rfl, nofun⟩
    | cons letter cs =>
      obtain ⟨sign, hsign, hnegative⟩ := exists_sign cs
      unfold exponentPart? at h
      dsimp only at h
      split at h
      case isFalse => cases h
      case isTrue hletter =>
        split at h
        case isTrue => cases h
        case isFalse hdigits =>
          simp only [Bool.or_eq_true, Bool.not_eq_true', List.isEmpty_iff, not_or, Bool.not_eq_false] at hdigits
          simp only [Bool.or_eq_true, decide_eq_true_eq] at hletter
          refine ⟨some (letter, sign, (splitSign cs).2), congrArg (letter :: ·) hsign, ?_, ?_⟩
          · rw [exponentValue, hnegative]
            exact Option.some.inj h
          · rintro letter' sign' digits' heq
            cases heq
            exact ⟨hletter, hdigits⟩
  · rintro ⟨exponent, rfl, rfl, hwell⟩
    cases exponent with
    | none => rfl
    | some e =>
      obtain ⟨letter, sign, digits⟩ := e
      obtain ⟨hletter, hne, hall⟩ := hwell letter sign digits rfl
      have hhead : ∀ c ∈ digits.head?, c ≠ '+' ∧ c ≠ '-' := fun c hc =>
        have hdigit := List.all_eq_true.mp hall c (List.mem_of_mem_head? hc)
        ⟨isDigit_ne hdigit rfl, isDigit_ne hdigit rfl⟩
      have hletter : (decide (letter = 'e') || decide (letter = 'E')) = true := by simpa using hletter
      unfold exponentChars exponentPart?
      dsimp only
      rw [if_pos hletter, splitSign_append hhead]
      simp [hne, hall, exponentValue]

/-- What follows the digits of a literal starts with no digit, and an exponent with no point. -/
theorem head_exponentChars {exponent : Option (Char × Sign × List Char)}
    (h : ∀ letter sign digits, exponent = some (letter, sign, digits) →
      (letter = 'e' ∨ letter = 'E') ∧ IsDigits digits) :
    ∀ c ∈ (exponentChars exponent).head?, isDigit c = false ∧ c ≠ '.' := by
  rintro c hc
  cases exponent with
  | none => cases hc
  | some e =>
    obtain ⟨letter, sign, digits⟩ := e
    obtain rfl : letter = c := by simpa [exponentChars] using hc
    obtain ⟨rfl | rfl, -⟩ := h letter sign digits rfl <;> decide

theorem splitFraction_append {fraction : Option (List Char)} {cs : List Char}
    (hall : (fraction.getD []).all isDigit = true) (hcs : ∀ c ∈ cs.head?, isDigit c = false ∧ c ≠ '.') :
    splitFraction (Json.fractionChars fraction ++ cs) = (fraction.getD [], cs) := by
  cases fraction with
  | some digits =>
    rw [Option.getD_some] at hall ⊢
    obtain ⟨htake, hdrop⟩ := Json.takeWhile_digits hall fun c hc => (hcs c hc).1
    simp only [Json.fractionChars, List.cons_append, splitFraction, htake, hdrop]
  | none =>
    cases cs with
    | nil => rfl
    | cons c cs =>
      have hpoint := (hcs c rfl).2
      simp only [Json.fractionChars, List.nil_append, splitFraction]
      split
      case h_1 heq => exact absurd (List.cons.inj heq).1 hpoint
      case h_2 => rfl

theorem exists_fraction (cs : List Char) : ∃ fraction : Option (List Char),
    Json.fractionChars fraction ++ (splitFraction cs).2 = cs ∧ fraction.getD [] = (splitFraction cs).1 ∧
      (fraction.getD []).all isDigit = true := by
  unfold splitFraction
  split
  case h_1 cs => exact ⟨some (cs.takeWhile isDigit), by simp [Json.fractionChars], rfl, List.all_takeWhile⟩
  case h_2 => exact ⟨none, rfl, rfl, rfl⟩

/-- **Decimal literals** are read just from their texts. -/
theorem decimalLiteral?_eq_some_iff {cs : List Char} {x : Binary64} : decimalLiteral? cs = some x ↔
    ∃ d : DecimalText, d.WellFormed ∧ d.chars = cs ∧ .ofDecimal d.sign.negative d.digits d.power = x := by
  constructor
  · intro h
    obtain ⟨sign, hsign, hnegative⟩ := exists_sign cs
    unfold decimalLiteral? at h
    dsimp only at h
    generalize splitSign cs = split at *
    obtain ⟨negative, unsigned⟩ := split
    obtain ⟨fraction, hfraction, hdigits, hall⟩ := exists_fraction (unsigned.dropWhile isDigit)
    generalize splitFraction (unsigned.dropWhile isDigit) = split at *
    obtain ⟨fractionDigits, rest⟩ := split
    dsimp only at *
    split at h
    case isTrue => cases h
    case isFalse hne =>
      obtain ⟨n, hn, hx⟩ := Option.map_eq_some_iff.mp h
      obtain ⟨exponent, hrest, hvalue, hexponent⟩ := exponentPart?_eq_some_iff.mp hn
      simp only [Bool.and_eq_true, List.isEmpty_iff] at hne
      refine ⟨⟨sign, unsigned.takeWhile isDigit, fraction, exponent⟩, ⟨List.all_takeWhile, hall, ?_, hexponent⟩, ?_, ?_⟩
      · rw [hdigits]
        simpa using hne
      · rw [chars, hrest, hfraction, List.takeWhile_append_dropWhile, hsign]
      · rw [digits, power, hdigits, hvalue, hnegative, hx]
  · rintro ⟨⟨sign, whole, fraction, exponent⟩, hd, rfl, rfl⟩
    obtain ⟨hwhole, hfraction, hne, hexponent⟩ := hd
    have hexponentHead := head_exponentChars hexponent
    have hrest : ∀ c ∈ (Json.fractionChars fraction ++ exponentChars exponent).head?, isDigit c = false := by
      intro c hc
      cases fraction with
      | none => exact (hexponentHead c hc).1
      | some digits =>
        cases hc
        rfl
    have hunsigned : ∀ c ∈ (whole ++ (Json.fractionChars fraction ++ exponentChars exponent)).head?,
        c ≠ '+' ∧ c ≠ '-' := by
      intro c hc
      rcases whole with _ | ⟨first, whole⟩
      · cases fraction with
        | none => exact absurd rfl hne
        | some digits =>
          cases hc
          decide
      · obtain rfl : first = c := by simpa using hc
        have hdigit := List.all_eq_true.mp hwhole first List.mem_cons_self
        exact ⟨isDigit_ne hdigit rfl, isDigit_ne hdigit rfl⟩
    obtain ⟨htake, hdrop⟩ := Json.takeWhile_digits hwhole hrest
    unfold decimalLiteral? chars
    dsimp only at *
    rw [splitSign_append hunsigned]
    dsimp only
    rw [htake, hdrop, splitFraction_append hfraction hexponentHead]
    dsimp only
    rw [if_neg (by simpa using hne), exponentPart?_eq_some_iff.mpr ⟨exponent, rfl, rfl, hexponent⟩]
    rfl

end DecimalText

/-! ### Hexadecimal literals -/

theorem hexNat?_eq_some_iff {cs : List Char} {n : Nat} :
    hexNat? cs = some n ↔ IsHexDigits cs ∧ hexNat cs = n := by
  have hfold (cs : List Char) (start : Nat) : cs.foldlM (fun n c => (hexDigit? c).map (16 * n + ·)) start = some n ↔
      (∀ c ∈ cs, (hexDigit? c).isSome = true) ∧
        cs.foldl (fun n c => 16 * n + (hexDigit? c).getD 0) start = n := by
    induction cs generalizing start with
    | nil => simp
    | cons c cs ih =>
      rw [List.foldlM_cons, List.foldl_cons, List.forall_mem_cons]
      cases hexDigit? c with
      | none => simp
      | some digit => simpa using ih (16 * start + digit)
  unfold hexNat? hexNat IsHexDigits
  split
  case isTrue h => simp [List.isEmpty_iff.mp h]
  case isFalse h => rw [hfold, and_iff_right fun heq => h (List.isEmpty_iff.mpr heq)]

/-- The digits of a hexadecimal literal are those of a 64-bit integer. -/
def hexDigits? (digits : List Char) : Option Binary64 :=
  (hexNat? digits).bind fun n => if n < UInt64.size then some (.ofNat n) else none

theorem hexDigits?_eq_some_iff {digits : List Char} {x : Binary64} : hexDigits? digits = some x ↔
    IsHexDigits digits ∧ hexNat digits < 2 ^ 64 ∧ .ofNat (hexNat digits) = x := by
  simp only [hexDigits?, Option.bind_eq_some_iff, hexNat?_eq_some_iff, Option.ite_none_right_eq_some,
    Option.some.injEq]
  constructor
  · rintro ⟨n, ⟨hdigits, rfl⟩, hlt, hx⟩
    exact ⟨hdigits, hlt, hx⟩
  · rintro ⟨hdigits, hlt, hx⟩
    exact ⟨_, ⟨hdigits, rfl⟩, hlt, hx⟩

theorem hexLiteral?_plus (digits : List Char) : hexLiteral? ('+' :: digits) = hexDigits? digits := by
  cases h : hexNat? digits <;> simp [hexLiteral?, hexDigits?, h]

theorem hexLiteral?_plain {digits : List Char} (h : ∀ rest, digits ≠ '+' :: rest) :
    hexLiteral? digits = hexDigits? digits := by
  unfold hexLiteral? hexDigits?
  split
  case h_1 rest => exact absurd rfl (h rest)
  case h_2 => cases hn : hexNat? digits <;> simp [hn]

/-- **Hexadecimal literals** are read just from their digits, with a plus sign or without. -/
theorem hexLiteral?_eq_some_iff {cs : List Char} {x : Binary64} : hexLiteral? cs = some x ↔
    ∃ plus digits, IsHexDigits digits ∧ hexNat digits < 2 ^ 64 ∧ plusChars plus ++ digits = cs ∧
      .ofNat (hexNat digits) = x := by
  have hplus {digits : List Char} (hd : IsHexDigits digits) (rest : List Char) : digits ≠ '+' :: rest := by
    rintro rfl
    exact absurd (hd.2 '+' List.mem_cons_self) (by decide)
  constructor
  · intro h
    by_cases hsign : ∃ rest, cs = '+' :: rest
    · obtain ⟨rest, rfl⟩ := hsign
      obtain ⟨hd, hlt, hx⟩ := hexDigits?_eq_some_iff.mp (hexLiteral?_plus rest ▸ h)
      exact ⟨true, rest, hd, hlt, rfl, hx⟩
    · rw [hexLiteral?_plain fun rest heq => hsign ⟨rest, heq⟩] at h
      obtain ⟨hd, hlt, hx⟩ := hexDigits?_eq_some_iff.mp h
      exact ⟨false, cs, hd, hlt, rfl, hx⟩
  · rintro ⟨plus, digits, hd, hlt, rfl, hx⟩
    have hread := hexDigits?_eq_some_iff.mpr ⟨hd, hlt, hx⟩
    cases plus with
    | true => exact (hexLiteral?_plus digits).trans hread
    | false => exact (hexLiteral?_plain (hplus hd)).trans hread

/-! ### Texts -/

/-- The number that a text without blanks around it stands for. -/
def Binary64.ofChars? : List Char → Option Binary64
  | [] => some zero
  | '0' :: 'x' :: hex | '0' :: 'X' :: hex => hexLiteral? hex
  | cs =>
    if cs = "Infinity".toList || cs = "+Infinity".toList then some (infinity false)
    else if cs = "-Infinity".toList then some (infinity true)
    else decimalLiteral? cs

theorem Binary64.ofText_eq (s : String) : ofText s = (ofChars? (trimBlanks s.toList)).getD nan := by
  unfold ofText
  generalize trimBlanks s.toList = cs
  split
  case h_1 | h_2 | h_3 => rfl
  case h_4 hempty hx hX =>
    rw [ofChars?.eq_4 cs hempty hx hX]
    split
    · rfl
    · split <;> rfl

/-- No other text is a decimal literal. -/
theorem Binary64.ofChars?_of_decimal {cs : List Char} {x : Binary64} (h : decimalLiteral? cs = some x) :
    ofChars? cs = some x := by
  have hhex (hex : List Char) : decimalLiteral? ('0' :: 'x' :: hex) = none ∧
      decimalLiteral? ('0' :: 'X' :: hex) = none := ⟨rfl, rfl⟩
  unfold ofChars?
  split
  case h_1 => cases h
  case h_2 hex => cases (hhex hex).1.symm.trans h
  case h_3 hex => cases (hhex hex).2.symm.trans h
  case h_4 =>
    split
    case isTrue hword =>
      simp only [Bool.or_eq_true, decide_eq_true_eq] at hword
      rcases hword with rfl | rfl <;> cases h
    case isFalse =>
      split
      case isTrue hword =>
        subst hword
        cases h
      case isFalse => exact h

/-- **A text stands for a number** just if it is in the grammar. -/
theorem Binary64.ofChars?_eq_some_iff {cs : List Char} {x : Binary64} :
    ofChars? cs = some x ↔ ∃ t : NumberText, t.WellFormed ∧ t.chars = cs ∧ t.value = x := by
  constructor
  · intro h
    unfold ofChars? at h
    split at h
    case h_1 => exact ⟨.empty, trivial, rfl, Option.some.inj h⟩
    case h_2 hex =>
      obtain ⟨plus, digits, hd, hlt, rfl, hx⟩ := hexLiteral?_eq_some_iff.mp h
      exact ⟨.hex false plus digits, ⟨hd, hlt⟩, rfl, hx⟩
    case h_3 hex =>
      obtain ⟨plus, digits, hd, hlt, rfl, hx⟩ := hexLiteral?_eq_some_iff.mp h
      exact ⟨.hex true plus digits, ⟨hd, hlt⟩, rfl, hx⟩
    case h_4 =>
      split at h
      case isTrue hword =>
        simp only [Bool.or_eq_true, decide_eq_true_eq] at hword
        rcases hword with rfl | rfl
        · exact ⟨.infinity .none, trivial, rfl, Option.some.inj h⟩
        · exact ⟨.infinity .plus, trivial, rfl, Option.some.inj h⟩
      case isFalse =>
        split at h
        case isTrue hword =>
          subst hword
          exact ⟨.infinity .minus, trivial, rfl, Option.some.inj h⟩
        case isFalse =>
          obtain ⟨d, hd, hchars, hx⟩ := DecimalText.decimalLiteral?_eq_some_iff.mp h
          exact ⟨.decimal d, hd, hchars, hx⟩
  · rintro ⟨t, ht, rfl, rfl⟩
    cases t with
    | empty => rfl
    | infinity sign => cases sign <;> rfl
    | hex large plus digits =>
      have hhex := hexLiteral?_eq_some_iff.mpr ⟨plus, digits, ht.1, ht.2, rfl, rfl⟩
      cases large with
      | false => exact hhex
      | true => exact hhex
    | decimal d => exact ofChars?_of_decimal (DecimalText.decimalLiteral?_eq_some_iff.mpr ⟨d, ht, rfl, rfl⟩)

/-- The rational that a text stands for, up to its sign; an infinity is none. -/
def NumberText.magnitude? : NumberText → Option ℚ
  | .empty => some 0
  | .infinity _ => none
  | .hex _ _ digits => some (hexNat digits)
  | .decimal d => some (d.digits * 10 ^ d.power)

/-- The text starts with a minus sign. -/
def NumberText.negative : NumberText → Bool
  | .empty | .hex .. => false
  | .infinity sign => sign.negative
  | .decimal d => d.sign.negative

theorem NumberText.value_rounds (t : NumberText) {q : ℚ} (hq : t.magnitude? = some q) :
    t.value.Rounds t.negative q := by
  cases t with
  | empty =>
    cases hq
    exact Binary64.ofRatio_zero_rounds false 1 le_rfl (by positivity)
  | infinity sign => cases hq
  | hex large plus digits =>
    cases hq
    have hrounds := Binary64.ofRatio_rounds false (hexNat digits) one_pos
    rwa [Nat.cast_one, div_one] at hrounds
  | decimal d =>
    cases hq
    exact Binary64.ofDecimal_rounds _ _ _

theorem NumberText.isNaN_value (t : NumberText) : t.value.isNaN = false := by
  cases hq : t.magnitude? with
  | some q => exact (t.value_rounds hq).isNaN
  | none =>
    cases t with
    | infinity sign => cases sign <;> decide
    | empty | hex _ _ _ | decimal _ => cases hq

/-- **Texts stand for numbers** just if they are in the grammar, up to blanks around them, and the number is what the
text says, correctly rounded. -/
theorem Binary64.ofText_spec (s : String) :
    ((ofText s).isNaN = false ↔ ∃ t : NumberText, t.WellFormed ∧ t.chars = trimBlanks s.toList) ∧
    ∀ t : NumberText, t.WellFormed → t.chars = trimBlanks s.toList → ofText s = t.value := by
  rw [ofText_eq]
  have hvalue (t : NumberText) (ht : t.WellFormed) (hchars : t.chars = trimBlanks s.toList) :
      (ofChars? (trimBlanks s.toList)).getD nan = t.value := by
    rw [ofChars?_eq_some_iff.mpr ⟨t, ht, hchars, rfl⟩, Option.getD_some]
  refine ⟨⟨fun h => ?_, fun ⟨t, ht, hchars⟩ => by rw [hvalue t ht hchars, t.isNaN_value]⟩, hvalue⟩
  cases hx : ofChars? (trimBlanks s.toList) with
  | none =>
    rw [hx] at h
    exact absurd h (by decide)
  | some x =>
    obtain ⟨t, ht, hchars, -⟩ := ofChars?_eq_some_iff.mp hx
    exact ⟨t, ht, hchars⟩

/-- A plus sign may stand after the letter, but not before the literal. -/
example : Binary64.ofText "0x+1f" = .ofNat 31 ∧ (Binary64.ofText "+0x1f").isNaN = true := by decide

end ScriptMachine
