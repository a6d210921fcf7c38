import ScriptMachine.Proofs.Number.Integer

/-! # Words and the types of values

The sixteen highest bits of a word are its tag, and the tag alone decides what a word is unpacked to
(`Value.decode_eq`) and, for most types, what the predicates say of it (`Value.is_iff`): the words of
undefined, null and the hole must have no payload as well (`Value.predicates_agree`).

A value that was built is unpacked to what it was built from (`Decoded.decode_encode`), the predicate of
its type holds of it and no other (`Decoded.onlyIs_encode`), and so values built from different parts have
different words, but for NaNs (`Decoded.encode_inj`). -/

namespace ScriptMachine

/-! ### Types -/

/-- The types of values. -/
inductive ValueType where
  | number | boolean | undefined | null | hole | cell
deriving DecidableEq, Repr

namespace ValueType

/-- The only word of the type has no payload. -/
def isSingle : ValueType → Bool
  | .undefined | .null | .hole => true
  | .number | .boolean | .cell => false

end ValueType

namespace Decoded

/-- The type of an unpacked value. -/
def type : Decoded → ValueType
  | .number _ => .number
  | .boolean _ => .boolean
  | .null => .null
  | .undefined => .undefined
  | .cell _ => .cell
  | .hole => .hole

/-- Packs a value. -/
def encode : Decoded → Value
  | .number x => .number x
  | .boolean b => .boolean b
  | .null => .null
  | .undefined => .undefined
  | .cell h => .cell h
  | .hole => .hole

/-- What is left of an unpacked value after packing: every NaN becomes the one NaN. -/
def canonical : Decoded → Decoded
  | .number x => .number (if x.isNaN then .nan else x)
  | d => d

end Decoded

namespace Value

variable {v w : Value}

/-- The predicate of a type. -/
def is (v : Value) : ValueType → Bool
  | .number => v.isNumber
  | .boolean => v.isBoolean
  | .undefined => v.isUndefined
  | .null => v.isNull
  | .hole => v.isHole
  | .cell => v.isCell

/-- The predicate of one type holds of a value, and no other. -/
def OnlyIs (v : Value) (t : ValueType) : Prop := ∀ s, v.is s = true ↔ s = t

/-! ### Tags -/

/-- The sixteen bits of the tag. -/
def tag (v : Value) : Nat := v.word.toNat / 2 ^ 48

/-- The forty-eight bits below the tag. -/
def payload (v : Value) : Nat := v.word.toNat % 2 ^ 48

theorem toNat_word (v : Value) : v.word.toNat = v.tag * 2 ^ 48 + v.payload := by
  have := Nat.div_add_mod v.word.toNat (2 ^ 48)
  rw [tag, payload]
  omega

theorem payload_lt (v : Value) : v.payload < 2 ^ 48 := Nat.mod_lt _ (by decide)

/-- The masked word is a tag exactly if the tag is. -/
theorem and_tagMask_beq {n : Nat} {t : UInt64} (ht : t.toNat = n * 2 ^ 48) (v : Value) :
    (v.word &&& tagMask == t) = decide (v.tag = n) := by
  rw [Bool.eq_iff_iff, beq_iff_eq, decide_eq_true_iff, ← UInt64.toNat_inj, toNat_and_tagMask, ht, tag]
  omega

/-- The whole word is a tag exactly if the tag is, and there is no payload. -/
theorem word_beq {n : Nat} {t : UInt64} (ht : t.toNat = n * 2 ^ 48) (v : Value) :
    (v.word == t) = decide (v.tag = n ∧ v.payload = 0) := by
  have hpayload := v.payload_lt
  rw [Bool.eq_iff_iff, beq_iff_eq, decide_eq_true_iff, ← UInt64.toNat_inj, toNat_word, ht]
  omega

theorem word_lt {n : Nat} {t : UInt64} (ht : t.toNat = n * 2 ^ 48) (v : Value) :
    v.word < t ↔ v.tag < n := by
  rw [UInt64.lt_iff_toNat_lt, ht, tag]
  omega

theorem isBoolean_eq (v : Value) : v.isBoolean = decide (v.tag = 0xFFFB) := and_tagMask_beq rfl v

theorem isCell_eq (v : Value) : v.isCell = decide (v.tag = 0xFFFC) := and_tagMask_beq rfl v

/-- **Unpacking goes by the tag.** -/
theorem decode_eq (v : Value) : v.decode =
    if v.tag < 0xFFF9 then .number ⟨v.word⟩
    else if v.tag = 0xFFF9 then .undefined
    else if v.tag = 0xFFFA then .null
    else if v.tag = 0xFFFB then .boolean (v.word &&& 1 == 1)
    else if v.tag = 0xFFFC then .cell (Handle.ofPayload (v.word &&& payloadMask))
    else if v.tag = 0xFFFD then .hole
    else .number .nan := by
  have hnumber : v.word < undefinedTag ↔ v.tag < 0xFFF9 := word_lt rfl v
  have hundefined : (v.word &&& tagMask == undefinedTag) = decide (v.tag = 0xFFF9) :=
    and_tagMask_beq rfl v
  have hnull : (v.word &&& tagMask == nullTag) = decide (v.tag = 0xFFFA) := and_tagMask_beq rfl v
  have hboolean : (v.word &&& tagMask == booleanTag) = decide (v.tag = 0xFFFB) :=
    and_tagMask_beq rfl v
  have hcell : (v.word &&& tagMask == cellTag) = decide (v.tag = 0xFFFC) := and_tagMask_beq rfl v
  have hhole : (v.word &&& tagMask == holeTag) = decide (v.tag = 0xFFFD) := and_tagMask_beq rfl v
  simp only [decode, hnumber, hundefined, hnull, hboolean, hcell, hhole, decide_eq_true_eq]

theorem type_decode (v : Value) : v.decode.type =
    if v.tag < 0xFFF9 then .number
    else if v.tag = 0xFFF9 then .undefined
    else if v.tag = 0xFFFA then .null
    else if v.tag = 0xFFFB then .boolean
    else if v.tag = 0xFFFC then .cell
    else if v.tag = 0xFFFD then .hole
    else .number := by
  rw [decode_eq]
  split_ifs <;> rfl

/-- **The predicates go by the tag**, and those of the types with a single word by the payload too. -/
theorem is_iff (v : Value) (t : ValueType) :
    v.is t = true ↔ v.decode.type = t ∧ (t.isSingle = true → v.payload = 0) := by
  have hnumber : v.isNumber = decide (v.tag < 0xFFF9 ∨ 0xFFFE ≤ v.tag) := by
    have hlow : v.word < undefinedTag ↔ v.tag < 0xFFF9 := word_lt rfl v
    have hhigh : v.word < tagsEnd ↔ v.tag < 0xFFFE := word_lt rfl v
    rw [isNumber, Bool.eq_iff_iff, Bool.or_eq_true, decide_eq_true_iff, decide_eq_true_iff,
      decide_eq_true_iff, hlow, ge_iff_le, ← UInt64.not_lt, hhigh]
    omega
  have hundefined : v.isUndefined = decide (v.tag = 0xFFF9 ∧ v.payload = 0) := word_beq rfl v
  have hnull : v.isNull = decide (v.tag = 0xFFFA ∧ v.payload = 0) := word_beq rfl v
  have hhole : v.isHole = decide (v.tag = 0xFFFD ∧ v.payload = 0) := word_beq rfl v
  rw [type_decode]
  cases t <;>
    simp only [is, hnumber, isBoolean_eq, isCell_eq, hundefined, hnull, hhole, ValueType.isSingle,
      decide_eq_true_eq] <;>
    grind

theorem boolean?_eq_some {b : Bool} : v.boolean? = some b ↔ v.decode = .boolean b := by
  rw [boolean?, isBoolean_eq, decode_eq]
  simp only [decide_eq_true_eq]
  split_ifs <;> simp_all

theorem number?_eq_some {x : Binary64} : v.number? = some x ↔ v.decode = .number x := by
  rw [number?]
  cases v.decode <;> simp

theorem cell?_eq_some_iff {h : Handle} : v.cell? = some h ↔ v.decode = .cell h := by
  rw [cell?, isCell_eq, decode_eq]
  simp only [decide_eq_true_eq]
  split_ifs <;> simp_all

/-- **Predicates agree with unpacking**, as far as they do: none holds of a word that is unpacked to
another type; the parts of a number, a boolean and a cell are those that unpacking finds; and the
predicate of the type holds of every word but those that are unpacked to undefined, null or the hole in
spite of a payload. -/
theorem predicates_agree (v : Value) :
    (∀ t, v.is t = true → v.decode.type = t) ∧
    (v.OnlyIs v.decode.type ↔ (v.decode.type.isSingle = true → v.payload = 0)) ∧
    (∀ x, v.number? = some x ↔ v.decode = .number x) ∧
    (∀ b, v.boolean? = some b ↔ v.decode = .boolean b) ∧
    ∀ h, v.cell? = some h ↔ v.decode = .cell h := by
  refine ⟨fun t ht => ((is_iff v t).mp ht).1, ⟨fun honly => ?_, fun hpayload t => ?_⟩,
    fun _ => number?_eq_some, fun _ => boolean?_eq_some, fun _ => cell?_eq_some_iff⟩
  · exact ((is_iff v _).mp ((honly _).mpr rfl)).2
  · constructor
    · exact fun ht => ((is_iff v t).mp ht).1.symm
    · rintro rfl
      exact (is_iff v _).mpr ⟨rfl, hpayload⟩

/-- A word of the tag of undefined with a payload: unpacked to undefined, and no predicate holds. -/
example : let v : Value := ⟨0xFFF9000000000001⟩
    v.decode = .undefined ∧ ∀ t, v.is t = false := by
  refine ⟨by decide, fun t => ?_⟩
  cases t <;> decide

end Value

/-! ### Building and unpacking -/

namespace Decoded

/-- **A value is unpacked to what it was built from.** -/
theorem decode_encode (d : Decoded) : d.encode.decode = d.canonical := by
  cases d with
  | number x =>
    have hlt : (Value.number x).tag < 0xFFF9 := (Value.word_lt rfl _).mp
      (UInt64.lt_iff_toNat_lt.mpr (Value.toNat_number_lt x))
    rw [encode, Value.decode_eq, if_pos hlt]
    cases hx : x.isNaN <;> simp [Value.number, canonical, hx]
  | boolean b => cases b <;> decide
  | null | undefined | hole => decide
  | cell h =>
    have hcell := Value.cell?_cell h
    have htag : (Value.cell h).tag = 0xFFFC := by
      have := h.toPayload_lt
      rw [Value.tag, Value.toNat_cell]
      omega
    rw [Value.cell?, if_pos (Value.isCell_cell h)] at hcell
    rw [encode, Value.decode_eq, htag, Option.some.inj hcell]
    rfl

theorem type_canonical (d : Decoded) : d.canonical.type = d.type := by
  cases d <;> rfl

/-- **The predicate of its type holds of a value that was built**, and no other. -/
theorem onlyIs_encode (d : Decoded) : d.encode.OnlyIs d.type := by
  intro t
  rw [Value.is_iff, decode_encode, type_canonical]
  constructor
  · exact fun h => h.1.symm
  · rintro rfl
    refine ⟨rfl, fun hsingle => ?_⟩
    cases d with
    | null | undefined | hole => decide
    | number _ | boolean _ | cell _ => cases hsingle

/-- **Different values have different words**, but for NaNs. -/
theorem encode_inj (a b : Decoded) : a.encode = b.encode ↔
    a = b ∨ ∃ x y, a = .number x ∧ b = .number y ∧ x.isNaN = true ∧ y.isNaN = true := by
  constructor
  · intro h
    have hcanonical : a.canonical = b.canonical := by rw [← decode_encode, ← decode_encode, h]
    have htype : a.type = b.type := by rw [← type_canonical a, ← type_canonical b, hcanonical]
    cases a <;> cases b <;> try exact .inl hcanonical
    case number.number x y =>
      simp only [canonical, number.injEq] at hcanonical
      cases hx : x.isNaN with
      | true =>
        cases hy : y.isNaN with
        | true => exact .inr ⟨x, y, rfl, rfl, hx, hy⟩
        | false =>
          rw [hx, hy, if_pos rfl, if_neg Bool.false_ne_true] at hcanonical
          rw [← hcanonical] at hy
          exact absurd hy (by decide)
      | false =>
        cases hy : y.isNaN with
        | true =>
          rw [hx, hy, if_pos rfl, if_neg Bool.false_ne_true] at hcanonical
          rw [hcanonical] at hx
          exact absurd hx (by decide)
        | false =>
          rw [hx, hy, if_neg Bool.false_ne_true, if_neg Bool.false_ne_true] at hcanonical
          exact .inl (congrArg number hcanonical)
    all_goals cases htype
  · rintro (rfl | ⟨x, y, rfl, rfl, hx, hy⟩)
    · rfl
    · simp [encode, Value.number, hx, hy]

end Decoded

namespace Value

theorem decode_number (x : Binary64) :
    (number x).decode = .number (if x.isNaN then .nan else x) :=
  Decoded.decode_encode (.number x)

theorem decode_cell (h : Handle) : (cell h).decode = .cell h := Decoded.decode_encode (.cell h)

@[simp] theorem number?_cell (h : Handle) : (cell h).number? = none := by simp [number?, decode_cell]

@[simp] theorem isTruthy_cell (h : Handle) : (cell h).isTruthy = true := by
  simp [isTruthy, decode_cell]

theorem isNullish_of_onlyIs {v : Value} {t : ValueType} (h : v.OnlyIs t) :
    v.isNullish = true ↔ t = .undefined ∨ t = .null := by
  have hundefined := h .undefined
  have hnull := h .null
  rw [isNullish, Bool.or_eq_true]
  exact (or_congr hundefined hnull).trans (or_congr eq_comm eq_comm)

/-- A handle made of any word is packed into its lower bits. -/
theorem toPayload_ofPayload_and (w : UInt64) :
    (Handle.ofPayload w).toPayload = w &&& payloadMask := by
  have hlow : (w &&& payloadMask).toNat < 2 ^ 48 := by
    rw [toNat_and_payloadMask]
    exact Nat.mod_lt _ (by decide)
  have hsame : Handle.ofPayload w = Handle.ofPayload (w &&& payloadMask) := by
    have hmod := toNat_and_payloadMask w
    simp only [Handle.ofPayload, Handle.mk.injEq, ← UInt32.toNat_inj, ← UInt16.toNat_inj,
      UInt64.toNat_toUInt32, UInt64.toNat_toUInt16, UInt64.toNat_shiftRight, hmod,
      show UInt64.toNat 32 % 64 = 32 from rfl, Nat.shiftRight_eq_div_pow]
    omega
  rw [hsame, Handle.toPayload_ofPayload hlow]

/-- **Encoding loses nothing, and types never overlap.** A number is unpacked to the same number, a NaN to
the one NaN; a handle survives as a value and as a payload; of a number and of a cell only the predicate
of its type holds; and two values share a word only if they are one value, or both NaNs. -/
theorem encoding_is_faithful :
    (∀ x : Binary64, (number x).decode = .number (if x.isNaN then .nan else x) ∧
      (number x).OnlyIs .number ∧ (number x).isNullish = false) ∧
    (∀ h : Handle, (cell h).decode = .cell h ∧ (cell h).cell? = some h ∧
      Handle.ofPayload h.toPayload = h ∧ (cell h).OnlyIs .cell ∧ (cell h).isNullish = false) ∧
    (∀ v h, v.cell? = some h ↔ v = cell h) ∧
    (∀ w, (Handle.ofPayload w).toPayload = w &&& payloadMask) ∧
    ∀ a b : Decoded, a.encode = b.encode ↔
      a = b ∨ ∃ x y, a = .number x ∧ b = .number y ∧ x.isNaN = true ∧ y.isNaN = true := by
  have hnullish (d : Decoded) (hd : d.type = .number ∨ d.type = .cell) :
      d.encode.isNullish = false := by
    rw [Bool.eq_false_iff, ne_eq, isNullish_of_onlyIs d.onlyIs_encode]
    rcases hd with hd | hd <;> simp [hd]
  refine ⟨fun x => ?_, fun h => ?_, fun _ _ => cell?_eq_some, toPayload_ofPayload_and,
    Decoded.encode_inj⟩
  · exact ⟨decode_number x, Decoded.onlyIs_encode (.number x), hnullish (.number x) (.inl rfl)⟩
  · exact ⟨decode_cell h, cell?_cell h, Handle.ofPayload_toPayload h,
      Decoded.onlyIs_encode (.cell h), hnullish (.cell h) (.inr rfl)⟩

end Value

end ScriptMachine
