import ScriptMachine.Value
import Mathlib.Data.Nat.Bitwise

/-! # Words and handles

A handle survives the way into the payload of a word and back, and the word of a cell has the tag of
cells. So the words that refer to a cell are exactly the words `Value.cell` builds
(`Value.cell?_eq_some`). -/

namespace ScriptMachine
namespace Handle

theorem toNat_toPayload (h : Handle) :
    h.toPayload.toNat = h.generation.toNat * 2 ^ 32 + h.index.toNat := by
  have hi := h.index.toNat_lt
  have hg := h.generation.toNat_lt
  simp only [toPayload, UInt64.toNat_or, UInt64.toNat_shiftLeft, UInt16.toNat_toUInt64,
    UInt32.toNat_toUInt64]
  rw [show UInt64.toNat 32 % 64 = 32 from rfl, Nat.mod_eq_of_lt (by rw [Nat.shiftLeft_eq]; omega),
    ← Nat.shiftLeft_add_eq_or_of_lt hi, Nat.shiftLeft_eq]

theorem toPayload_lt (h : Handle) : h.toPayload.toNat < 2 ^ 48 := by
  have hi := h.index.toNat_lt
  have hg := h.generation.toNat_lt
  rw [toNat_toPayload]
  omega

theorem ofPayload_toPayload (h : Handle) : ofPayload h.toPayload = h := by
  have hi := h.index.toNat_lt
  have hg := h.generation.toNat_lt
  obtain ⟨index, generation⟩ := h
  simp only [ofPayload, Handle.mk.injEq]
  refine ⟨UInt32.toNat_inj.mp ?_, UInt16.toNat_inj.mp ?_⟩
  · rw [UInt64.toNat_toUInt32, toNat_toPayload]
    simp only at *
    omega
  · rw [UInt64.toNat_toUInt16, UInt64.toNat_shiftRight, toNat_toPayload,
      show UInt64.toNat 32 % 64 = 32 from rfl, Nat.shiftRight_eq_div_pow]
    simp only at *
    omega

theorem toPayload_ofPayload {w : UInt64} (h : w.toNat < 2 ^ 48) : (ofPayload w).toPayload = w := by
  apply UInt64.toNat_inj.mp
  rw [toNat_toPayload, ofPayload, UInt64.toNat_toUInt32, UInt64.toNat_toUInt16,
    UInt64.toNat_shiftRight, show UInt64.toNat 32 % 64 = 32 from rfl, Nat.shiftRight_eq_div_pow]
  omega

end Handle

namespace Value

theorem toNat_and_payloadMask (w : UInt64) : (w &&& payloadMask).toNat = w.toNat % 2 ^ 48 := by
  rw [UInt64.toNat_and, show payloadMask.toNat = 2 ^ 48 - 1 from rfl, Nat.and_two_pow_sub_one_eq_mod]

theorem and_payloadMask {w : UInt64} (h : w.toNat < 2 ^ 48) : w &&& payloadMask = w := by
  apply UInt64.toNat_inj.mp
  rw [toNat_and_payloadMask, Nat.mod_eq_of_lt h]

/-- The word of a cell: the tag above the handle. -/
theorem toNat_cell (h : Handle) :
    (cell h).word.toNat = 0xFFFC * 2 ^ 48 + h.toPayload.toNat := by
  have hp := h.toPayload_lt
  simp only [cell, and_payloadMask hp, UInt64.toNat_or]
  rw [show cellTag.toNat = 0xFFFC <<< 48 from rfl, ← Nat.shiftLeft_add_eq_or_of_lt hp,
    Nat.shiftLeft_eq]

theorem toNat_and_tagMask (w : UInt64) : (w &&& tagMask).toNat = w.toNat / 2 ^ 48 * 2 ^ 48 := by
  have hw := w.toNat_lt
  rw [UInt64.toNat_and, show tagMask.toNat = (2 ^ 16 - 1) <<< 48 from rfl, ← Nat.shiftRight_eq_div_pow,
    ← Nat.shiftLeft_eq]
  apply Nat.eq_of_testBit_eq
  intro i
  simp only [Nat.testBit_and, Nat.testBit_shiftLeft, Nat.testBit_shiftRight,
    Nat.testBit_two_pow_sub_one]
  by_cases h48 : 48 ≤ i
  · by_cases h64 : i < 64
    · simp [h48, show i - 48 < 16 by omega, show 48 + (i - 48) = i by omega]
    · have : w.toNat.testBit i = false :=
        Nat.testBit_lt_two_pow (lt_of_lt_of_le hw (Nat.pow_le_pow_right (by omega) (by omega)))
      simp [h48, this, show 48 + (i - 48) = i by omega]
  · simp [h48]

theorem isCell_cell (h : Handle) : (cell h).isCell = true := by
  have hp := h.toPayload_lt
  simp only [isCell, beq_iff_eq]
  apply UInt64.toNat_inj.mp
  rw [toNat_and_tagMask, toNat_cell, show cellTag.toNat = 0xFFFC * 2 ^ 48 from rfl]
  omega

@[simp] theorem cell?_cell (h : Handle) : (cell h).cell? = some h := by
  have hp := h.toPayload_lt
  have : (cell h).word &&& payloadMask = h.toPayload := by
    apply UInt64.toNat_inj.mp
    rw [toNat_and_payloadMask, toNat_cell]
    omega
  simp [cell?, isCell_cell, this, Handle.ofPayload_toPayload]

/-- **The words that refer to a cell** are the ones built from its handle. -/
theorem cell?_eq_some {v : Value} {h : Handle} : v.cell? = some h ↔ v = cell h := by
  refine ⟨fun hv => ?_, fun hv => by rw [hv, cell?_cell]⟩
  unfold cell? at hv
  split at hv
  case isFalse => exact absurd hv (by simp)
  case isTrue tagged =>
    obtain rfl := Option.some.inj hv
    have tag := congrArg UInt64.toNat (beq_iff_eq.mp tagged)
    rw [toNat_and_tagMask, show cellTag.toNat = 0xFFFC * 2 ^ 48 from rfl] at tag
    have payload := Handle.toPayload_ofPayload (w := v.word &&& payloadMask) (by
      rw [toNat_and_payloadMask]; omega)
    obtain ⟨w⟩ := v
    rw [Value.mk.injEq]
    apply UInt64.toNat_inj.mp
    rw [toNat_cell, payload, toNat_and_payloadMask]
    simp only at tag ⊢
    omega

@[simp] theorem cell_inj {a b : Handle} : cell a = cell b ↔ a = b :=
  ⟨fun h => by simpa using congrArg cell? h, congrArg cell⟩

@[simp] theorem cell?_undefined : undefined.cell? = none := by decide

@[simp] theorem cell?_null : null.cell? = none := by decide

@[simp] theorem cell?_hole : hole.cell? = none := by decide

end Value

end ScriptMachine
