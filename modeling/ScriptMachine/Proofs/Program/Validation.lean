import ScriptMachine.Program.Validation
import ScriptMachine.Tier.Lowering

/-! # What validation accepts

Validation accepts a block just if it is well formed, and so are all functions nested in it
(`Block.validate_eq_ok_iff`). A range of registers is well formed by its two ends, and the last one is
computed in 32 bits: a range that does not wrap lies in the frame as a whole
(`Operand.fits_registerRange_iff`), and one that wraps names no register, so that no instruction of a
valid block ever names a register outside its frame (`Operand.Fits.registerList_lt`). -/

namespace ScriptMachine

variable {b : Block} {first count : UInt32}

/-! ### Checks in sequence -/

theorem except_bind_eq_ok_iff {ε α : Type} {x : Except ε Unit} {next : Unit → Except ε α} {a : α} :
    (x >>= next) = .ok a ↔ x = .ok () ∧ next () = .ok a := by
  cases x with
  | error e => simp [Bind.bind, Except.bind]
  | ok u => simp [Bind.bind, Except.bind]

theorem forM_eq_ok_iff {ε α : Type} {f : α → Except ε Unit} {xs : List α} :
    xs.forM f = .ok () ↔ ∀ x ∈ xs, f x = .ok () := by
  induction xs with
  | nil => simp [List.forM, pure, Except.pure]
  | cons x xs ih =>
    change (f x >>= fun _ => xs.forM f) = _ ↔ _
    rw [except_bind_eq_ok_iff, ih, List.forall_mem_cons]

/-! ### Well-formed blocks -/

/-- **An operand points into the frame, its table or the code** of a block. The last register of a range
is computed in 32 bits. -/
def Operand.Fits (b : Block) : Operand → Prop
  | .register r => r < b.registerCount
  | .registerRange first count =>
    count = 0 ∨ first < b.registerCount ∧ first + count - 1 < b.registerCount
  | .constant i => i.toNat < b.constants.size
  | .identifier i => i.toNat < b.identifiers.size
  | .function i => i.toNat < b.functions.length
  | .scopeLayout i => i.toNat < b.scopeLayouts.size
  | .propertyCache i => i < b.propertyCacheCount
  | .callCache i => i < b.callCacheCount
  | .target i => i.toNat < b.instructions.size

/-- **What a block says of itself is consistent**, whatever its nested functions are. -/
structure Block.Consistent (b : Block) : Prop where
  /-- The counts of the frame are in order, and every variable has a name. -/
  params : b.paramCount ≤ b.varCount
  vars : b.varCount ≤ b.registerCount
  named : b.variableIds.size.toUInt32 = b.varCount
  /-- The names of the variables and of the scope layouts are identifiers. -/
  variableNames : ∀ i ∈ b.variableIds, i.toNat < b.identifiers.size
  layoutNames : ∀ layout ∈ b.scopeLayouts, ∀ i ∈ layout, i.toNat < b.identifiers.size
  /-- Control does not run past the end. -/
  terminated : ∃ last, b.instructions.back? = some last ∧ last.opcode.isTerminator
  operands : ∀ instruction ∈ b.instructions, ∀ operand ∈ instruction.opcode.operands, operand.Fits b
  /-- Handlers cover and enter instructions of the block. -/
  handlers : ∀ h ∈ b.handlers, h.start ≤ h.stop ∧ h.stop.toNat ≤ b.instructions.size ∧
    h.target.toNat < b.instructions.size

/-- **A well-formed block**: it is consistent, and the functions nested in it are well formed. -/
inductive Block.WellFormed : Block → Prop
  /-- The block itself and its nested functions. -/
  | intro {b : Block} : b.Consistent → (∀ function ∈ b.functions, WellFormed function) → WellFormed b

/-! ### Single checks -/

namespace Block

variable {pc i : UInt32} {table : String} {len : Nat}

theorem checkIndex_eq_ok_iff : b.checkIndex pc table i len = .ok () ↔ i.toNat < len := by
  unfold checkIndex
  split <;> simp [*]

theorem checkRegister_eq_ok_iff : b.checkRegister pc i = .ok () ↔ i < b.registerCount := by
  unfold checkRegister
  split <;> simp [*]

theorem checkTarget_eq_ok_iff : b.checkTarget i = .ok () ↔ i.toNat < b.instructions.size := by
  unfold checkTarget
  split <;> simp [*]

theorem checkFrame_eq_ok_iff : b.checkFrame = .ok () ↔
    b.paramCount ≤ b.varCount ∧ b.varCount ≤ b.registerCount ∧
      b.variableIds.size.toUInt32 = b.varCount := by
  unfold checkFrame
  split
  case isTrue h => simpa [and_assoc] using h
  case isFalse h => simpa [and_assoc] using h

theorem checkEnd_eq_ok_iff : b.checkEnd = .ok () ↔
    ∃ last, b.instructions.back? = some last ∧ last.opcode.isTerminator := by
  unfold checkEnd
  cases b.instructions.back? with
  | none => simp
  | some last =>
    dsimp only
    split <;> simp [*]

/-- **The check of an operand.** -/
theorem checkOperand_eq_ok_iff {operand : Operand} :
    b.checkOperand pc operand = .ok () ↔ operand.Fits b := by
  cases operand with
  | register r => exact checkRegister_eq_ok_iff
  | registerRange first count =>
    by_cases hzero : count = 0
    · simp [checkOperand, Operand.Fits, hzero]
    · have hpos : count > 0 := UInt32.pos_iff_ne_zero.mpr hzero
      simp only [checkOperand, if_pos hpos, Operand.Fits, hzero, false_or]
      rw [except_bind_eq_ok_iff, checkRegister_eq_ok_iff, checkRegister_eq_ok_iff]
  | constant i | identifier i | function i | scopeLayout i => exact checkIndex_eq_ok_iff
  | propertyCache i | callCache i =>
    exact checkIndex_eq_ok_iff.trans UInt32.lt_iff_toNat_lt.symm
  | target i => exact checkTarget_eq_ok_iff

theorem checkHandler_eq_ok_iff {h : Handler} : b.checkHandler h = .ok () ↔
    h.start ≤ h.stop ∧ h.stop.toNat ≤ b.instructions.size ∧
      h.target.toNat < b.instructions.size := by
  unfold checkHandler
  split
  case isTrue hrange =>
    simp only [Bool.and_eq_true, decide_eq_true_eq] at hrange
    rw [checkTarget_eq_ok_iff]
    simp [hrange]
  case isFalse hrange =>
    simp only [Bool.and_eq_true, decide_eq_true_eq] at hrange
    simp only [reduceCtorEq, false_iff]
    exact fun hall => hrange ⟨hall.1, hall.2.1⟩

/-! ### All checks -/

/-- **The checks of a block by itself.** -/
theorem checkOwn_eq_ok_iff : b.checkOwn = .ok () ↔ b.Consistent := by
  unfold checkOwn
  simp only [except_bind_eq_ok_iff, forM_eq_ok_iff, checkFrame_eq_ok_iff, checkIndex_eq_ok_iff,
    checkEnd_eq_ok_iff, checkOperand_eq_ok_iff, checkHandler_eq_ok_iff]
  constructor
  · rintro ⟨⟨hparams, hvars, hnamed⟩, hvariables, hlayouts, hend, hoperands, hhandlers⟩
    refine ⟨hparams, hvars, hnamed, fun i hi => hvariables i (Array.mem_toList_iff.mpr hi),
      fun layout hl => hlayouts layout (Array.mem_toList_iff.mpr hl), hend, fun ins hins => ?_,
      hhandlers⟩
    obtain ⟨pc, hpc, rfl⟩ := Array.mem_iff_getElem.mp hins
    exact hoperands (_, pc) (List.mem_zipIdx_iff_getElem?.mpr (by simp [hpc]))
  · rintro ⟨hparams, hvars, hnamed, hvariables, hlayouts, hend, hoperands, hhandlers⟩
    refine ⟨⟨hparams, hvars, hnamed⟩, fun i hi => hvariables i (Array.mem_toList_iff.mp hi),
      fun layout hl => hlayouts layout (Array.mem_toList_iff.mp hl), hend, fun ins hins => ?_,
      hhandlers⟩
    exact hoperands _ (Array.mem_toList_iff.mp (List.fst_mem_of_mem_zipIdx hins))

mutual

/-- **Validation accepts just the well-formed blocks.** -/
theorem validate_eq_ok_iff (b : Block) : b.validate = .ok () ↔ b.WellFormed := by
  cases b with
  | mk name instructions constants identifiers functions scopeLayouts handlers variableIds
      paramCount varCount registerCount needsActivation propertyCacheCount callCacheCount =>
    rw [validate_eq, except_bind_eq_ok_iff, checkOwn_eq_ok_iff, validateAll_eq_ok_iff functions]
    exact ⟨fun h => ⟨h.1, h.2⟩, fun ⟨hown, hall⟩ => ⟨hown, hall⟩⟩

theorem validateAll_eq_ok_iff (blocks : List Block) :
    validateAll blocks = .ok () ↔ ∀ b ∈ blocks, b.WellFormed := by
  cases blocks with
  | nil => simp [validateAll]
  | cons b blocks =>
    rw [validateAll, except_bind_eq_ok_iff, validate_eq_ok_iff b, validateAll_eq_ok_iff blocks,
      List.forall_mem_cons]

end

end Block

/-! ### Ranges of registers -/

namespace Operand

/-- A range whose end does not wrap fits just if all its registers lie in the frame. -/
theorem fits_registerRange_iff (hwrap : first.toNat + count.toNat < UInt32.size) :
    (Operand.registerRange first count).Fits b ↔
      ∀ i < count.toNat, first.toNat + i < b.registerCount.toNat := by
  unfold Fits
  rcases Nat.eq_zero_or_pos count.toNat with hzero | hpos
  · have : count = 0 := by rw [← UInt32.toNat_inj, hzero]; rfl
    simp [this]
  · have hne : count ≠ 0 := fun h => by simp [h] at hpos
    have hlast : (first + count - 1).toNat = first.toNat + count.toNat - 1 := by
      have hsum : (first + count).toNat = first.toNat + count.toNat := by
        rw [UInt32.toNat_add]
        exact Nat.mod_eq_of_lt hwrap
      rw [UInt32.toNat_sub_of_le _ _ (by rw [UInt32.le_iff_toNat_le, hsum]; simp; omega), hsum]
      rfl
    simp only [hne, false_or, UInt32.lt_iff_toNat_lt, hlast]
    constructor
    · rintro ⟨-, hend⟩ i hi
      omega
    · intro hall
      exact ⟨hall 0 hpos, by have := hall (count.toNat - 1) (by omega); omega⟩

/-- **The registers that a range names** lie in the frame, also when its end wraps. -/
theorem Fits.registerList_lt (hf : (Operand.registerRange first count).Fits b) {r : Register}
    (hr : r ∈ registerList first count) : r < b.registerCount := by
  unfold registerList at hr
  obtain ⟨i, hi, rfl⟩ := List.mem_map.mp hr
  rw [List.mem_range, UInt32.toNat_add] at hi
  have hfirst := first.toNat_lt
  have hcount := count.toNat_lt
  rcases Nat.lt_or_ge (first.toNat + count.toNat) (2 ^ 32) with hwrap | hwrap
  · rw [Nat.mod_eq_of_lt hwrap] at hi
    have := (fits_registerRange_iff hwrap).mp hf i (by omega)
    rw [UInt32.lt_iff_toNat_lt, UInt32.toNat_add]
    refine Nat.lt_of_le_of_lt (Nat.mod_le _ _) ?_
    rwa [show i.toUInt32.toNat = i from Nat.mod_eq_of_lt (by omega)]
  · -- the end lies before the first register, and the range is empty
    rw [Nat.mod_eq_sub_mod hwrap, Nat.mod_eq_of_lt (by omega)] at hi
    omega

end Operand

/-- A range whose end wraps passes with registers that the frame does not have. -/
example : Block.validate { instructions := #[⟨.newArray 0 5 0xFFFFFFFF, none⟩, ⟨.ret 0, none⟩]
                           registerCount := 6 } = .ok () := by rfl

end ScriptMachine
