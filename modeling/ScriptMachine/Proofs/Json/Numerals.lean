import ScriptMachine.Json.Printer
import ScriptMachine.Proofs.Atom

/-! # Numerals as text

A numeral is well formed when its parts are what a literal can hold (`Numeral.WellFormed`): every
numeral that is read is (`readNumeral?_wellFormed`), and so is the literal of a natural number. The text
of a well-formed numeral is read as that numeral, before any text that does not go on with it
(`readNumeral?_chars`). -/

namespace ScriptMachine

/-! ### Well-formed numerals -/

/-- One or more digits. -/
def IsDigits (cs : List Char) : Prop := cs ≠ [] ∧ cs.all isDigit = true

/-- **A numeral is well formed**: its parts are those of a literal. -/
structure Numeral.WellFormed (n : Numeral) : Prop where
  /-- There are digits before the point. -/
  whole : IsDigits n.whole
  /-- They start with a zero only when it stands alone. -/
  leading : ∀ c rest, n.whole ≠ '0' :: c :: rest
  /-- There are digits after the point. -/
  fraction : ∀ digits, n.fraction = some digits → IsDigits digits
  /-- There are digits in the exponent. -/
  exponent : ∀ negative digits, n.exponent = some (negative, digits) → IsDigits digits

theorem isDigits_takeWhile {cs : List Char} (h : cs.takeWhile isDigit ≠ []) :
    IsDigits (cs.takeWhile isDigit) :=
  ⟨h, List.all_takeWhile⟩

/-- The literal of a natural number is well formed. -/
theorem Numeral.wellFormed_ofNat (n : Nat) : (Numeral.ofNat n).WellFormed where
  whole := ⟨Nat.toDigits_ne_nil, (toDigits_spec n).1⟩
  leading := (toDigits_spec n).2.2
  fraction := nofun
  exponent := nofun

/-- The text of a numeral starts with a sign or a digit. -/
theorem Numeral.WellFormed.chars_cons {n : Numeral} (hn : n.WellFormed) :
    ∃ c cs, n.chars = c :: cs ∧ (c = '-' ∨ isDigit c = true) := by
  obtain ⟨hne, hall⟩ := hn.whole
  obtain ⟨d, ds, hds⟩ := List.exists_cons_of_ne_nil hne
  have hd : isDigit d = true := List.all_eq_true.mp hall d (by simp [hds])
  cases hneg : n.negative with
  | true => exact ⟨'-', _, by simp [Numeral.chars, hneg]; rfl, .inl rfl⟩
  | false => exact ⟨d, _, by simp [Numeral.chars, hneg, hds]; rfl, .inr hd⟩

namespace Json

theorem readWhole?_eq_some {cs digits rest : List Char} (h : readWhole? cs = some (digits, rest)) :
    IsDigits digits ∧ ∀ c ds, digits ≠ '0' :: c :: ds := by
  unfold readWhole? at h
  split at h
  case h_1 => cases h
  case h_2 => cases h
  case h_3 hne hzero =>
    obtain ⟨rfl, -⟩ := Prod.mk.inj (Option.some.inj h)
    exact ⟨isDigits_takeWhile hne, hzero⟩

theorem readFraction?_eq_some {cs rest : List Char} {fraction : Option (List Char)}
    (h : readFraction? cs = some (fraction, rest)) :
    ∀ digits, fraction = some digits → IsDigits digits := by
  rintro digits rfl
  unfold readFraction? at h
  split at h
  · split at h
    case h_1 => cases h
    case h_2 hne =>
      obtain ⟨hdigits, -⟩ := Prod.mk.inj (Option.some.inj h)
      obtain rfl := Option.some.inj hdigits
      exact isDigits_takeWhile hne
  · cases h

theorem readExponent?_eq_some {cs rest : List Char} {exponent : Option (Bool × List Char)}
    (h : readExponent? cs = some (exponent, rest)) :
    ∀ negative digits, exponent = some (negative, digits) → IsDigits digits := by
  rintro negative digits rfl
  unfold readExponent? at h
  split at h
  · split at h
    · dsimp only at h
      split at h
      case h_1 => cases h
      case h_2 hne =>
        obtain ⟨hdigits, -⟩ := Prod.mk.inj (Option.some.inj h)
        obtain ⟨-, rfl⟩ := Prod.mk.inj (Option.some.inj hdigits)
        exact isDigits_takeWhile hne
    · cases h
  · cases h

/-- **A numeral that is read is well formed.** -/
theorem readNumeral?_wellFormed {cs rest : List Char} {n : Numeral}
    (h : readNumeral? cs = some (n, rest)) : n.WellFormed := by
  simp only [readNumeral?, Option.bind_eq_bind, Option.bind_eq_some_iff, Option.pure_def] at h
  obtain ⟨⟨whole, rest₁⟩, hwhole, ⟨fraction, rest₂⟩, hfraction, ⟨exponent, rest₃⟩, hexponent,
    heq⟩ := h
  obtain ⟨rfl, -⟩ := Prod.mk.inj (Option.some.inj heq)
  exact ⟨(readWhole?_eq_some hwhole).1, (readWhole?_eq_some hwhole).2,
    readFraction?_eq_some hfraction, readExponent?_eq_some hexponent⟩

/-! ### Reading a numeral back -/

/-- The text does not go on with a number: it is empty, or starts with a character that stands in no
literal. -/
def Stops (rest : List Char) : Prop :=
  ∀ c ∈ rest.head?, isDigit c = false ∧ c ≠ '.' ∧ c ≠ 'e' ∧ c ≠ 'E'

theorem takeWhile_digits {digits rest : List Char} (hd : digits.all isDigit = true)
    (hr : ∀ c ∈ rest.head?, isDigit c = false) :
    (digits ++ rest).takeWhile isDigit = digits ∧ (digits ++ rest).dropWhile isDigit = rest := by
  have hall : ∀ c ∈ digits, isDigit c = true := List.all_eq_true.mp hd
  rw [List.takeWhile_append_of_pos hall, List.dropWhile_append_of_pos hall]
  cases rest with
  | nil => simp
  | cons c rest => simp [hr c rfl]

theorem readWhole?_append {digits rest : List Char} (hd : IsDigits digits)
    (hz : ∀ c ds, digits ≠ '0' :: c :: ds) (hr : ∀ c ∈ rest.head?, isDigit c = false) :
    readWhole? (digits ++ rest) = some (digits, rest) := by
  obtain ⟨htake, hdrop⟩ := takeWhile_digits hd.2 hr
  unfold readWhole?
  rw [htake, hdrop]
  split
  case h_1 => exact absurd rfl hd.1
  case h_2 => exact absurd rfl (hz _ _)
  case h_3 => rfl

/-- The fraction part as text. -/
def fractionChars : Option (List Char) → List Char
  | some digits => '.' :: digits
  | none => []

/-- The exponent part as text. -/
def exponentChars : Option (Bool × List Char) → List Char
  | some (negative, digits) => 'e' :: (if negative then '-' else '+') :: digits
  | none => []

theorem readFraction?_append {fraction : Option (List Char)} {rest : List Char}
    (hd : ∀ digits, fraction = some digits → IsDigits digits)
    (hr : ∀ c ∈ rest.head?, isDigit c = false ∧ c ≠ '.') :
    readFraction? (fractionChars fraction ++ rest) = some (fraction, rest) := by
  cases fraction with
  | none =>
    cases rest with
    | nil => rfl
    | cons c rest =>
      have hpoint := (hr c rfl).2
      simp only [fractionChars, List.nil_append, readFraction?]
      split
      case h_1 heq => exact absurd (List.cons.inj heq).1 hpoint
      case h_2 => rfl
  | some digits =>
    obtain ⟨hne, hall⟩ := hd digits rfl
    obtain ⟨htake, hdrop⟩ := takeWhile_digits hall fun c hc => (hr c hc).1
    simp only [fractionChars, List.cons_append, readFraction?]
    rw [htake, hdrop]
    split
    case h_1 => exact absurd rfl hne
    case h_2 => rfl

theorem readExponent?_append {exponent : Option (Bool × List Char)} {rest : List Char}
    (hd : ∀ negative digits, exponent = some (negative, digits) → IsDigits digits)
    (hr : Stops rest) :
    readExponent? (exponentChars exponent ++ rest) = some (exponent, rest) := by
  cases exponent with
  | none =>
    cases rest with
    | nil => rfl
    | cons c rest =>
      have hletter := (hr c rfl).2.2
      simp [exponentChars, readExponent?, hletter.1, hletter.2]
  | some e =>
    obtain ⟨negative, digits⟩ := e
    obtain ⟨hne, hall⟩ := hd negative digits rfl
    obtain ⟨htake, hdrop⟩ := takeWhile_digits hall fun c hc => (hr c hc).1
    have hsign : splitSign ((if negative then '-' else '+') :: (digits ++ rest)) =
        (negative, digits ++ rest) := by cases negative <;> rfl
    simp only [exponentChars, List.cons_append, readExponent?, hsign, htake, hdrop, decide_true,
      Bool.true_or, if_true]

/-- What follows the whole part of a literal does not start with a digit. -/
theorem Stops.append_exponent {rest : List Char} (hr : Stops rest)
    (exponent : Option (Bool × List Char)) :
    ∀ c ∈ (exponentChars exponent ++ rest).head?, isDigit c = false ∧ c ≠ '.' := by
  cases exponent with
  | none => exact fun c hc => ⟨(hr c hc).1, (hr c hc).2.1⟩
  | some e =>
    rintro c hc
    obtain rfl : 'e' = c := by simpa [exponentChars] using hc
    decide

theorem Stops.append_fraction {rest : List Char} (hr : Stops rest)
    (fraction : Option (List Char)) (exponent : Option (Bool × List Char)) :
    ∀ c ∈ (fractionChars fraction ++ (exponentChars exponent ++ rest)).head?,
      isDigit c = false := by
  cases fraction with
  | none => exact fun c hc => (hr.append_exponent exponent c hc).1
  | some digits =>
    rintro c hc
    obtain rfl : '.' = c := by simpa [fractionChars] using hc
    decide

/-- **A well-formed numeral is read back** from its text. -/
theorem readNumeral?_chars {n : Numeral} (hn : n.WellFormed) {rest : List Char} (hr : Stops rest) :
    readNumeral? (n.chars ++ rest) = some (n, rest) := by
  obtain ⟨negative, whole, fraction, exponent⟩ := n
  have htail : ∀ cs, cs = whole ++ (fractionChars fraction ++ (exponentChars exponent ++ rest)) →
      (readWhole? cs).bind (fun p => (readFraction? p.2).bind fun q =>
        (readExponent? q.2).bind fun r =>
          some ((⟨negative, p.1, q.1, r.1⟩ : Numeral), r.2)) =
        some (⟨negative, whole, fraction, exponent⟩, rest) := by
    rintro cs rfl
    rw [readWhole?_append hn.whole hn.leading (hr.append_fraction fraction exponent)]
    simp only [Option.bind_some]
    rw [readFraction?_append hn.fraction (hr.append_exponent exponent)]
    simp only [Option.bind_some]
    rw [readExponent?_append hn.exponent hr]
    rfl
  have hchars : Numeral.chars ⟨negative, whole, fraction, exponent⟩ ++ rest =
      (if negative then ['-'] else []) ++
        (whole ++ (fractionChars fraction ++ (exponentChars exponent ++ rest))) := by
    cases fraction <;> cases exponent <;> simp [Numeral.chars, fractionChars, exponentChars]
  rw [hchars]
  cases negative with
  | true => exact htail _ rfl
  | false =>
    -- an unsigned literal starts with a digit, which is no sign
    obtain ⟨hne, hall⟩ := hn.whole
    obtain ⟨d, ds, rfl⟩ := List.exists_cons_of_ne_nil hne
    have hd : d ≠ '-' := by
      rintro rfl
      exact absurd (List.all_eq_true.mp hall '-' (by simp)) (by decide)
    refine Eq.trans ?_ (htail _ rfl)
    simp only [readNumeral?, Bool.false_eq_true, if_false, List.nil_append, List.cons_append]
    split
    case h_1 heq => exact absurd (List.cons.inj heq).1 hd
    case h_2 => rfl

end Json

end ScriptMachine
