import ScriptMachine.Atom
import Mathlib.Data.List.Induction
import Mathlib.Tactic.IntervalCases

/-! # The order of interned names

An array index has one name, the text of its decimal digits (`eq_indexName`,
`arrayIndexOf?_indexName`). A table of names is in order (`AtomTable.Ordered`) when each name is found
at its position; interning keeps this and changes no earlier entry. So at most one atom names an index
(`get?_indexName`), and it is the one that interning its name yields (`arrayIndex?_intern`). -/

namespace ScriptMachine

/-! ### The names of indices -/

theorem decimalNat_append (cs : List Char) (c : Char) :
    decimalNat (cs ++ [c]) = 10 * decimalNat cs + (decimalDigit? c).getD 0 := by
  simp [decimalNat]

/-- The value of a digit, and the digit of that value. -/
theorem digit_spec {c : Char} (hc : isDigit c = true) :
    (decimalDigit? c).getD 0 < 10 ∧ ((decimalDigit? c).getD 0).digitChar = c := by
  have hrange : 48 ≤ c.toNat ∧ c.toNat ≤ 57 := by
    simp only [isDigit, Bool.and_eq_true, decide_eq_true_eq] at hc
    exact ⟨hc.1, hc.2⟩
  have hd : (decimalDigit? c).getD 0 = c.toNat - 48 := by
    have : ('0' ≤ c && c ≤ '9') = true := hc
    simp [decimalDigit?, this]
  rw [hd]
  refine ⟨by omega, ?_⟩
  have hof : Char.ofNat c.toNat = c := Char.ofNat_toNat c
  generalize c.toNat = n at *
  rw [← hof]
  obtain ⟨h1, h2⟩ := hrange
  interval_cases n <;> rfl

/-- Digits without a leading zero are the digits of their number. -/
theorem toDigits_decimalNat {cs : List Char} (hd : cs.all isDigit = true) (hne : cs ≠ [])
    (hz : ∀ c rest, cs ≠ '0' :: c :: rest) : Nat.toDigits 10 (decimalNat cs) = cs := by
  induction cs using List.reverseRecOn with
  | nil => exact absurd rfl hne
  | append_singleton cs c ih =>
    simp only [List.all_append, List.all_cons, List.all_nil, Bool.and_true, Bool.and_eq_true] at hd
    obtain ⟨hlt, hchar⟩ := digit_spec hd.2
    rw [decimalNat_append]
    cases cs with
    | nil =>
      rw [Nat.toDigits_of_lt_base (by simpa [decimalNat] using hlt)]
      simpa [decimalNat] using hchar
    | cons first rest =>
      have hrec := ih hd.1 (by simp) fun d rest' h => by
        rw [h] at hz
        exact hz d (rest' ++ [c]) rfl
      have hpos : 0 < decimalNat (first :: rest) := by
        rcases Nat.eq_zero_or_pos (decimalNat (first :: rest)) with h0 | h0
        · rw [h0, Nat.toDigits_zero] at hrec
          obtain ⟨rfl, rfl⟩ := List.cons.inj hrec
          exact absurd rfl (hz c [])
        · exact h0
      rw [← Nat.toDigits_append_toDigits (by omega) hpos hlt, hrec, Nat.toDigits_of_lt_base hlt,
        hchar]

/-- **An array index has one name.** -/
theorem eq_indexName {name : String} {index : UInt32} (h : arrayIndexOf? name = some index) :
    name = indexName index := by
  have hdigits : Nat.toDigits 10 index.toNat = name.toList := by
    unfold arrayIndexOf? at h
    dsimp only at h
    split at h
    case h_1 => cases h
    case h_2 => cases h
    case h_3 hne hz =>
      split at h
      case isFalse => cases h
      case isTrue hd =>
        split at h
        case isFalse => cases h
        case isTrue hlt =>
          obtain rfl := Option.some.inj h
          rw [UInt32.toNat_ofNat', Nat.mod_eq_of_lt (by unfold UInt32.size at hlt; omega)]
          exact toDigits_decimalNat hd hne fun c rest => hz c rest
  rw [indexName, Nat.toString_eq_ofList_toDigits, hdigits, String.ofList_toList]

theorem indexName_injective : Function.Injective indexName := by
  intro i j h
  have hdigits : Nat.toDigits 10 i.toNat = Nat.toDigits 10 j.toNat := by
    rw [indexName, indexName, Nat.toString_eq_ofList_toDigits,
      Nat.toString_eq_ofList_toDigits] at h
    simpa using congrArg String.toList h
  have := congrArg (fun cs => Nat.ofDigitChars 10 cs 0) hdigits
  simp only [Nat.ofDigitChars_ten_toDigits] at this
  exact UInt32.toNat_inj.mp this

theorem digitChar_spec {n : Nat} (hn : n < 10) :
    isDigit n.digitChar = true ∧ (decimalDigit? n.digitChar).getD 0 = n := by
  interval_cases n <;> decide

/-- **The digits of a number** are digits, stand for the number and have no leading zero. -/
theorem toDigits_spec (n : Nat) : (Nat.toDigits 10 n).all isDigit = true ∧
    decimalNat (Nat.toDigits 10 n) = n ∧ ∀ c rest, Nat.toDigits 10 n ≠ '0' :: c :: rest := by
  induction n using Nat.strongRecOn with
  | ind n ih =>
    by_cases hn : n < 10
    · rw [Nat.toDigits_of_lt_base hn]
      obtain ⟨hd, hv⟩ := digitChar_spec hn
      exact ⟨by simpa using hd, by simpa [decimalNat] using hv, by simp⟩
    · have hlast : n % 10 < 10 := Nat.mod_lt n (by omega)
      obtain ⟨hd, hv, hz⟩ := ih (n / 10) (by omega)
      obtain ⟨hd', hv'⟩ := digitChar_spec hlast
      have heq : Nat.toDigits 10 n = Nat.toDigits 10 (n / 10) ++ [(n % 10).digitChar] := by
        rw [Nat.toDigits_eq_if (by omega), if_neg hn]
      rw [heq]
      refine ⟨by simp [hd, hd'], by rw [decimalNat_append, hv, hv']; omega, fun c rest hc => ?_⟩
      cases hfirst : Nat.toDigits 10 (n / 10) with
      | nil => simp [hfirst] at hc
      | cons d ds =>
        rw [hfirst] at hc
        obtain ⟨rfl, hc⟩ := List.cons.inj hc
        cases ds with
        | nil =>
          rw [hfirst] at hv
          have : n / 10 = 0 := hv.symm
          omega
        | cons e es => exact hz e es hfirst

/-- **The name of an array index** names it. -/
theorem arrayIndexOf?_indexName {index : UInt32} (hlt : index.toNat < UInt32.size - 1) :
    arrayIndexOf? (indexName index) = some index := by
  obtain ⟨hd, hv, hz⟩ := toDigits_spec index.toNat
  have hname : (indexName index).toList = Nat.toDigits 10 index.toNat := by
    rw [indexName, Nat.toString_eq_ofList_toDigits, String.toList_ofList]
  unfold arrayIndexOf?
  dsimp only
  rw [hname]
  split
  case h_1 hnil => exact absurd hnil Nat.toDigits_ne_nil
  case h_2 c rest hzero => exact absurd hzero (hz c rest)
  case h_3 => rw [if_pos hd, hv, if_pos hlt, UInt32.ofNat_toNat]

namespace AtomTable

/-- **A table of names in order**: every name is found at its position, with the index it names. -/
structure Ordered (t : AtomTable) : Prop where
  /-- Entries are found by their name. -/
  listed : ∀ (i : Nat) (entry : AtomEntry), t.entries[i]? = some entry →
    t.lookup[entry.name]? = some ⟨i.toUInt32⟩
  /-- Entries know the index they name. -/
  index : ∀ (i : Nat) (entry : AtomEntry), t.entries[i]? = some entry →
    entry.arrayIndex = arrayIndexOf? entry.name
  /-- Names that are found have an entry. -/
  found : ∀ (name : String) atom, t.lookup[name]? = some atom →
    ∃ (i : Nat) (entry : AtomEntry), t.entries[i]? = some entry ∧ entry.name = name ∧ atom = ⟨i.toUInt32⟩

/-- The table has all entries of another one at their positions. -/
def Extends (t' t : AtomTable) : Prop :=
  ∀ (i : Nat) entry, t.entries[i]? = some entry → t'.entries[i]? = some entry

/-- The atom has been interned. -/
def Knows (t : AtomTable) (atom : Atom) : Prop := atom.index.toNat < t.entries.size

/-- The names can be told apart by numbers of 32 bits. -/
def Fits (t : AtomTable) : Prop := t.entries.size ≤ UInt32.size

variable {t t' t'' : AtomTable} {atom : Atom}

theorem Ordered.empty : ({} : AtomTable).Ordered where
  listed i entry h := by simp at h
  index i entry h := by simp at h
  found name atom h := by simp at h

theorem Extends.refl (t : AtomTable) : t.Extends t := fun _ _ h => h

theorem Extends.trans (h' : t''.Extends t') (h : t'.Extends t) : t''.Extends t :=
  fun i entry hi => h' i entry (h i entry hi)

theorem Extends.size_le (h : t'.Extends t) : t.entries.size ≤ t'.entries.size := by
  rcases Nat.eq_zero_or_pos t.entries.size with h0 | h0
  · omega
  · have hlast := h (t.entries.size - 1) _ (Array.getElem?_eq_getElem (by omega))
    have := (Array.getElem?_eq_some_iff.mp hlast).1
    omega

theorem Extends.fits (h : t'.Extends t) (hf : t'.Fits) : t.Fits := Nat.le_trans h.size_le hf

theorem Extends.knows (h : t'.Extends t) (hk : t.Knows atom) : t'.Knows atom :=
  Nat.lt_of_lt_of_le hk h.size_le

/-- What is known of an atom stays true. -/
theorem Extends.entry (h : t'.Extends t) (hk : t.Knows atom) :
    t'.entries[atom.index.toNat]? = t.entries[atom.index.toNat]? := by
  have he := Array.getElem?_eq_getElem hk
  rw [he]
  exact h _ _ he

theorem Extends.name (h : t'.Extends t) (hk : t.Knows atom) : t'.name atom = t.name atom := by
  unfold AtomTable.name
  rw [h.entry hk]

theorem Extends.arrayIndex? (h : t'.Extends t) (hk : t.Knows atom) :
    t'.arrayIndex? atom = t.arrayIndex? atom := by
  unfold AtomTable.arrayIndex?
  rw [h.entry hk]

theorem toNat_toUInt32_le (n : Nat) : n.toUInt32.toNat ≤ n := by
  rw [Nat.toUInt32, UInt32.toNat_ofNat']
  exact Nat.mod_le _ _

theorem Ordered.knows (ho : t.Ordered) {name : String} (h : t.lookup[name]? = some atom) :
    t.Knows atom := by
  obtain ⟨i, entry, hi, -, rfl⟩ := ho.found name atom h
  exact Nat.lt_of_le_of_lt (toNat_toUInt32_le i) (Array.getElem?_eq_some_iff.mp hi).1

/-- **Interning** finds or adds a name and keeps the table in order. -/
theorem intern_spec (ho : t.Ordered) (name : String) :
    (t.intern name).2.Ordered ∧ (t.intern name).2.Extends t ∧
      (t.intern name).2.lookup[name]? = some (t.intern name).1 := by
  unfold intern
  cases hl : t.lookup[name]? with
  | some atom => exact ⟨ho, .refl t, hl⟩
  | none =>
    have hfresh {i : Nat} {entry : AtomEntry} (hi : t.entries[i]? = some entry) :
        name ≠ entry.name := by
      rintro rfl
      rw [ho.listed i entry hi] at hl
      cases hl
    refine ⟨⟨fun i entry h => ?_, fun i entry h => ?_, fun name' atom h => ?_⟩,
      fun i entry h => ?_, by simp⟩
    · rw [Array.getElem?_push] at h
      split at h
      case isTrue hi =>
        obtain rfl := Option.some.inj h
        simp [hi]
      case isFalse =>
        rw [Std.HashMap.getElem?_insert, if_neg (by simpa using hfresh h)]
        exact ho.listed i entry h
    · rw [Array.getElem?_push] at h
      split at h
      case isTrue => rw [← Option.some.inj h]
      case isFalse => exact ho.index i entry h
    · rw [Std.HashMap.getElem?_insert] at h
      split at h
      case isTrue hname =>
        exact ⟨t.entries.size, ⟨name, arrayIndexOf? name⟩, by simp, by simpa using hname,
          (Option.some.inj h).symm⟩
      case isFalse =>
        obtain ⟨i, entry, hi, hn, ha⟩ := ho.found name' atom h
        have := (Array.getElem?_eq_some_iff.mp hi).1
        exact ⟨i, entry, by rw [Array.getElem?_push, if_neg (by omega)]; exact hi, hn, ha⟩
    · have := (Array.getElem?_eq_some_iff.mp h).1
      rw [Array.getElem?_push, if_neg (by omega)]
      exact h

/-- An atom names the index that its name stands for. -/
theorem arrayIndex?_of_get? (ho : t.Ordered) (hf : t.Fits) {name : String}
    (hn : t.get? name = some atom) : t.arrayIndex? atom = arrayIndexOf? name := by
  obtain ⟨i, entry, hi, rfl, rfl⟩ := ho.found name atom hn
  have hlt := (Array.getElem?_eq_some_iff.mp hi).1
  have hsame : i.toUInt32.toNat = i := UInt32.toNat_ofNat_of_lt' (Nat.lt_of_lt_of_le hlt hf)
  simp only [arrayIndex?, hsame, hi]
  exact ho.index i entry hi

theorem arrayIndex?_intern (ho : t.Ordered) {name : String} (hf : (t.intern name).2.Fits) :
    (t.intern name).2.arrayIndex? (t.intern name).1 = arrayIndexOf? name := by
  obtain ⟨ho', -, hl⟩ := intern_spec ho name
  exact arrayIndex?_of_get? ho' hf hl

/-- The atom of an index names no other one. -/
theorem arrayIndex?_internIndex (ho : t.Ordered) {index i : UInt32}
    (hf : (t.internIndex index).2.Fits)
    (hi : (t.internIndex index).2.arrayIndex? (t.internIndex index).1 = some i) : i = index :=
  (indexName_injective (eq_indexName ((arrayIndex?_intern ho hf).symm.trans hi))).symm

theorem knows_intern (ho : t.Ordered) (name : String) :
    (t.intern name).2.Knows (t.intern name).1 := by
  obtain ⟨ho', -, hl⟩ := intern_spec ho name
  exact ho'.knows hl

/-- A name keeps its atom. -/
theorem Extends.get? (h : t'.Extends t) (ho : t.Ordered) (ho' : t'.Ordered) {name : String}
    (hn : t.get? name = some atom) : t'.get? name = some atom := by
  obtain ⟨i, entry, hi, rfl, rfl⟩ := ho.found name atom hn
  exact ho'.listed i entry (h i entry hi)

/-- **The atom that names an index** is the one its name is interned as. -/
theorem get?_indexName (ho : t.Ordered) {index : UInt32} (h : t.arrayIndex? atom = some index) :
    t.get? (indexName index) = some atom := by
  unfold arrayIndex? at h
  split at h
  case h_2 => cases h
  case h_1 entry he =>
    have hname := eq_indexName ((ho.index _ _ he).symm.trans h)
    have := ho.listed _ _ he
    rw [hname] at this
    rw [get?, this]
    simp

end AtomTable

end ScriptMachine
