import ScriptMachine.Proofs.Progress.Variables
import ScriptMachine.Proofs.Tier.Arguments
import ScriptMachine.Proofs.Tier.Flow

/-! # Lowered code mirrors its block

Lowering changes the numbers of everything that is jumped to, since a comparison may be fused with the branch after
it. The control flow stays the same nevertheless (`Block.Mirrors`): operations come in the order of their
instructions, each instruction starts an operation or is the branch of one, nothing jumps to such a branch, and an
operation jumps to the operation at the target of its instruction. What is left to the stub table gets the operands
of its instruction. All registered code has tier code that mirrors it (`registered_code_mirrored`). -/

namespace ScriptMachine

/-- **An operation starts at an instruction.** -/
def Lowered.Starts (l : Lowered) (k pc : Nat) : Prop :=
  ∃ start, l.opPcs[k]? = some start ∧ start.toNat = pc

/-- **An operation absorbs an instruction**, the branch that it was fused with. -/
def Lowered.Absorbs (l : Lowered) (k pc : Nat) : Prop :=
  ∃ cmp dst lhs rhs sense target half,
    l.ops[k]? = some (.compareAndBranch cmp dst lhs rhs sense target half) ∧ half.toNat = pc

/-- **Lowered code has the control flow and the operands of its block.** -/
structure Block.Mirrors (b : Block) (t : CodeTables) (l : Lowered) : Prop where
  /-- Each operation has its first instruction. -/
  paired : l.opPcs.size = l.ops.size
  /-- Operations are in order. -/
  increasing : ∀ (j k : Nat) (s s' : UInt32), j < k → l.opPcs[j]? = some s → l.opPcs[k]? = some s' → s < s'
  /-- The table of the operations that start at instructions is right. -/
  table : ∀ pc k, l.pcToOp.getD pc none = some k ↔ l.Starts k pc
  /-- An instruction starts exactly one operation, or exactly one operation absorbs it. -/
  shared : ∀ pc < b.instructions.size,
    ((∃! k, l.Starts k pc) ∧ ∀ k, ¬ l.Absorbs k pc) ∨ ((∃! k, l.Absorbs k pc) ∧ ∀ k, ¬ l.Starts k pc)
  /-- No target of a jump is absorbed. -/
  jumps : ∀ instruction ∈ b.instructions, ∀ target, instruction.opcode.jumpTarget? = some target →
    ∀ k, ¬ l.Absorbs k target.toNat
  /-- No target of a handler is absorbed. -/
  handlers : ∀ h ∈ b.handlers, ∀ k, ¬ l.Absorbs k h.target.toNat
  /-- An operation jumps if the last of its instructions does, to the operation that starts at the target, and goes
  on to the next one if that instruction does. -/
  flow : ∀ k start op, l.At k start op → ∃ last, b.instructions[start.toNat + op.width - 1]? = some last ∧
    op.target?.map (fun index => l.opPcs[index]?) = last.opcode.jumpTarget?.map some ∧
    op.fallsThrough = !last.opcode.isTerminator
  /-- A fused operation is a comparison, with its operator and its registers, and the branch after it, with its
  sense, on the result of the comparison. -/
  fused : ∀ k start cmp dst lhs rhs sense index half,
    l.At k start (.compareAndBranch cmp dst lhs rhs sense index half) →
      cmp.isComparison ∧ half.toNat = start.toNat + 1 ∧ ∃ target position position',
        b.instructions[start.toNat]? = some ⟨.binary cmp dst lhs rhs, position⟩ ∧
        b.instructions[half.toNat]? = some ⟨.jumpIf sense dst target, position'⟩
  /-- On the words of its arguments, the routine of an operation does the work of the instruction. -/
  stubs : ∀ k start routine dst args, l.At k start (.stub routine dst args) →
    ∃ instruction, b.instructions[start.toNat]? = some instruction ∧
      ∀ m, ∃ x, delegatedWork t m instruction.opcode = some (dst, x) ∧
        runRoutine (m.stubFrame (args.map (TierOperand.word m))) routine = do return .ofValue (← x)

namespace Block

variable {b : Block} {t : CodeTables} {l : Lowered} {opcode : Opcode} {op op' : TierOp} {stop width j k q : Nat}
  {start start' half target : UInt32}

/-! ### The parts of a tiling -/

/-- A fused operation is a comparison and the branch after it, which nothing jumps to. -/
theorem Lowers.compareAndBranch {pc index : Nat} {cmp : BinaryOp} {dst lhs rhs : Register} {sense : Bool}
    (h : b.Lowers t pc opcode (.compareAndBranch cmp dst lhs rhs sense index half) width)
    (hsize : b.instructions.size ≤ UInt32.size) :
    opcode = .binary cmp dst lhs rhs ∧ cmp.isComparison ∧ half.toNat = pc + 1 ∧ b.isJumpTarget half = false ∧
      ∃ target position, b.instructions[pc + 1]? = some ⟨.jumpIf sense dst target, position⟩ := by
  cases h with
  | single hop => exact absurd (width_of_lowerOpcode hop) (Nat.succ_ne_self 1)
  | fused hi hfree hopcode hcmp =>
    have hlt := (Array.getElem?_eq_some_iff.mp hi).1
    exact ⟨hopcode, hcmp, UInt32.toNat_ofNat_of_lt' (by omega), hfree, _, _, hi⟩

namespace Tiled

theorem exists_at_of_start (h : b.Tiled t stop l) (hk : l.opPcs[k]? = some start) : ∃ op, l.At k start op := by
  have hlt := (Array.getElem?_eq_some_iff.mp hk).1
  rw [h.paired] at hlt
  exact ⟨_, hk, Array.getElem?_eq_getElem hlt⟩

theorem exists_at_of_op (h : b.Tiled t stop l) (hk : l.ops[k]? = some op) : ∃ start, l.At k start op := by
  have hlt := (Array.getElem?_eq_some_iff.mp hk).1
  rw [← h.paired] at hlt
  exact ⟨_, Array.getElem?_eq_getElem hlt, hk⟩

theorem starts_iff (h : b.Tiled t stop l) : l.Starts k q ↔ ∃ start op, l.At k start op ∧ start.toNat = q := by
  constructor
  · rintro ⟨start, hk, hq⟩
    obtain ⟨op, hat⟩ := h.exists_at_of_start hk
    exact ⟨start, op, hat, hq⟩
  · rintro ⟨start, op, hat, hq⟩
    exact ⟨start, hat.1, hq⟩

/-- Operations that share an instruction are the same. -/
theorem eq_of_overlap (h : b.Tiled t stop l) (hj : l.At j start op) (hk : l.At k start' op')
    (hq : start.toNat ≤ q ∧ q < start.toNat + op.width) (hq' : start'.toNat ≤ q ∧ q < start'.toNat + op'.width) :
    j = k ∧ start = start' ∧ op = op' := by
  rcases Nat.lt_trichotomy j k with hjk | rfl | hjk
  · have := h.apart j k start start' op op' hjk hj hk
    omega
  · exact ⟨rfl, Option.some.inj (hj.1.symm.trans hk.1), Option.some.inj (hj.2.symm.trans hk.2)⟩
  · have := h.apart k j start' start op' op hjk hk hj
    omega

/-- An absorbed instruction comes right after the start of its operation. -/
theorem of_absorbs (h : b.Tiled t stop l) (hsize : b.instructions.size ≤ UInt32.size) (ha : l.Absorbs k q) :
    ∃ start op, l.At k start op ∧ op.width = 2 ∧ start.toNat + 1 = q := by
  obtain ⟨cmp, dst, lhs, rhs, sense, index, half, hop, rfl⟩ := ha
  obtain ⟨start, hat⟩ := h.exists_at_of_op hop
  obtain ⟨_, -, hlowers⟩ := h.source k start _ hat
  exact ⟨start, _, hat, rfl, (hlowers.compareAndBranch hsize).2.2.1.symm⟩

/-- **Nothing jumps to an absorbed instruction.** -/
theorem not_absorbs (h : b.Tiled t stop l) (hsize : b.instructions.size ≤ UInt32.size) (ht : b.isJumpTarget target)
    (k : Nat) : ¬ l.Absorbs k target.toNat := by
  rintro ⟨cmp, dst, lhs, rhs, sense, index, half, hop, heq⟩
  obtain ⟨start, hat⟩ := h.exists_at_of_op hop
  obtain ⟨_, -, hlowers⟩ := h.source k start _ hat
  obtain ⟨-, -, -, hfree, -⟩ := hlowers.compareAndBranch hsize
  rw [UInt32.toNat_inj.mp heq, ht] at hfree
  cases hfree

/-- Operations are in the order of their instructions. -/
theorem increasing (h : b.Tiled t stop l) (hjk : j < k) (hj : l.opPcs[j]? = some start)
    (hk : l.opPcs[k]? = some start') : start < start' := by
  obtain ⟨op, hj⟩ := h.exists_at_of_start hj
  obtain ⟨op', hk⟩ := h.exists_at_of_start hk
  have := h.apart j k start start' op op' hjk hj hk
  have := op.width_pos
  rw [UInt32.lt_iff_toNat_lt]
  omega

/-- **Each instruction starts one operation or is absorbed by one.** -/
theorem shared (h : b.Tiled t stop l) (hsize : b.instructions.size ≤ UInt32.size) (hq : q < stop) :
    ((∃! k, l.Starts k q) ∧ ∀ k, ¬ l.Absorbs k q) ∨ ((∃! k, l.Absorbs k q) ∧ ∀ k, ¬ l.Starts k q) := by
  obtain ⟨k, start, op, hat, hle, hlt⟩ := h.covers q hq
  have hstarts {j : Nat} (hj : l.Starts j q) : j = k ∧ start.toNat = q := by
    obtain ⟨start', op', hat', rfl⟩ := h.starts_iff.mp hj
    obtain ⟨rfl, rfl, -⟩ := h.eq_of_overlap hat' hat ⟨Nat.le_refl _, Nat.lt_add_of_pos_right op'.width_pos⟩ ⟨hle, hlt⟩
    exact ⟨rfl, rfl⟩
  have habsorbs {j : Nat} (hj : l.Absorbs j q) : j = k ∧ start.toNat + 1 = q := by
    obtain ⟨start', op', hat', hwidth, hq'⟩ := h.of_absorbs hsize hj
    obtain ⟨rfl, rfl, -⟩ := h.eq_of_overlap hat' hat ⟨by omega, by omega⟩ ⟨hle, hlt⟩
    exact ⟨rfl, hq'⟩
  rcases Nat.eq_or_lt_of_le hle with heq | hpast
  · refine .inl ⟨⟨k, h.starts_iff.mpr ⟨start, op, hat, heq⟩, fun j hj => (hstarts hj).1⟩, fun j hj => ?_⟩
    have := (habsorbs hj).2
    omega
  · obtain ⟨instruction, hi, hlowers⟩ := h.source k start op hat
    have habs : l.Absorbs k q := by
      cases op with
      | compareAndBranch cmp dst lhs rhs sense index half =>
        obtain ⟨-, -, hhalf, -⟩ := hlowers.compareAndBranch hsize
        refine ⟨cmp, dst, lhs, rhs, sense, index, half, hat.2, ?_⟩
        simp only [TierOp.width] at hlt
        omega
      | _ =>
        simp only [TierOp.width] at hlt
        omega
    refine .inr ⟨⟨k, habs, fun j hj => (habsorbs hj).1⟩, fun j hj => ?_⟩
    have := (hstarts hj).2
    omega

/-- **What something jumps to starts an operation**, which the table has. -/
theorem starts_target (h : b.Tiled t stop l) (hsize : b.instructions.size ≤ UInt32.size)
    (ht : b.isJumpTarget target) (hlt : target.toNat < stop) :
    l.opPcs[(l.pcToOp.getD target.toNat none).getD l.ops.size]? = some target := by
  rcases h.shared hsize hlt with ⟨⟨k, hk, -⟩, -⟩ | ⟨⟨k, hk, -⟩, -⟩
  · obtain ⟨start, op, hat, heq⟩ := h.starts_iff.mp hk
    obtain rfl := UInt32.toNat_inj.mp heq
    rw [(h.starts start.toNat k).mpr ⟨start, op, hat, rfl⟩]
    exact hat.1
  · exact absurd hk (h.not_absorbs hsize ht k)

end Tiled

/-! ### Resolved targets -/

variable {raw : Lowered}

theorem at_resolved : (resolved raw).At k start op ↔ ∃ op', raw.At k start op' ∧
    resolveTarget (fun pc => (raw.pcToOp.getD pc none).getD raw.ops.size) op' = op := by
  simp only [Lowered.At, resolved, Array.getElem?_map, Option.map_eq_some_iff]
  constructor
  · rintro ⟨hs, op', hop, rfl⟩
    exact ⟨op', ⟨hs, hop⟩, rfl⟩
  · rintro ⟨op', ⟨hs, hop⟩, rfl⟩
    exact ⟨hs, op', hop, rfl⟩

theorem resolveTarget_eq_compareAndBranch {resolve : Nat → Nat} {cmp : BinaryOp} {dst lhs rhs : Register} {sense : Bool}
    {index : Nat} : resolveTarget resolve op = .compareAndBranch cmp dst lhs rhs sense index half ↔
      ∃ pc, op = .compareAndBranch cmp dst lhs rhs sense pc half ∧ resolve pc = index := by
  cases op <;> simp [resolveTarget]
  grind

theorem absorbs_resolved : (resolved raw).Absorbs k q ↔ raw.Absorbs k q := by
  simp only [Lowered.Absorbs, resolved, Array.getElem?_map, Option.map_eq_some_iff, resolveTarget_eq_compareAndBranch]
  constructor
  · rintro ⟨cmp, dst, lhs, rhs, sense, _, half, ⟨_, hop, pc, rfl, -⟩, hq⟩
    exact ⟨cmp, dst, lhs, rhs, sense, pc, half, hop, hq⟩
  · rintro ⟨cmp, dst, lhs, rhs, sense, pc, half, hop, hq⟩
    exact ⟨cmp, dst, lhs, rhs, sense, _, half, ⟨_, hop, pc, rfl, rfl⟩, hq⟩

/-- **Jumps lead to the operations at their targets.** -/
theorem Tiled.flow (h : b.Tiled t stop raw) (hsize : b.instructions.size ≤ UInt32.size)
    (htargets : ∀ target, b.isJumpTarget target → target.toNat < stop) (hl : (resolved raw).At k start op) :
    ∃ last, b.instructions[start.toNat + op.width - 1]? = some last ∧
      op.target?.map (fun index => raw.opPcs[index]?) = last.opcode.jumpTarget?.map some ∧
      op.fallsThrough = !last.opcode.isTerminator := by
  have htarget {pc : Nat} {instruction : Instruction} {target : UInt32} (hi : b.instructions[pc]? = some instruction)
      (hjump : instruction.opcode.jumpTarget? = some target) :
      raw.opPcs[(raw.pcToOp.getD target.toNat none).getD raw.ops.size]? = some target := by
    have ht := isJumpTarget_of_mem (Array.mem_of_getElem? hi) hjump
    exact h.starts_target hsize ht (htargets target ht)
  obtain ⟨op, hat, rfl⟩ := at_resolved.mp hl
  obtain ⟨instruction, hi, hlowers⟩ := h.source k start op hat
  rw [width_resolveTarget, target?_resolveTarget, fallsThrough_resolveTarget]
  generalize op.width = width at hlowers
  cases hlowers with
  | single hop =>
    obtain ⟨hjump, hfalls, -⟩ := lowerOpcode_spec (P := fun _ => True) hop
    refine ⟨instruction, hi, ?_, hfalls⟩
    rw [hjump]
    cases hto : instruction.opcode.jumpTarget? with
    | none => rfl
    | some target => exact congrArg some (htarget hi hto)
  | fused hbranch => exact ⟨_, hbranch, congrArg some (htarget hbranch rfl), rfl⟩

/-- **A fused operation** is a comparison and the branch after it. -/
theorem Tiled.fused {cmp : BinaryOp} {dst lhs rhs : Register} {sense : Bool} {index : Nat} (h : b.Tiled t stop raw)
    (hsize : b.instructions.size ≤ UInt32.size)
    (hl : (resolved raw).At k start (.compareAndBranch cmp dst lhs rhs sense index half)) :
    cmp.isComparison ∧ half.toNat = start.toNat + 1 ∧ ∃ target position position',
      b.instructions[start.toNat]? = some ⟨.binary cmp dst lhs rhs, position⟩ ∧
      b.instructions[half.toNat]? = some ⟨.jumpIf sense dst target, position'⟩ := by
  obtain ⟨op, hat, hop⟩ := at_resolved.mp hl
  obtain ⟨pc, rfl, -⟩ := resolveTarget_eq_compareAndBranch.mp hop
  obtain ⟨⟨opcode, position⟩, hi, hlowers⟩ := h.source k start _ hat
  obtain ⟨rfl, hcmp, hhalf, -, target, position', hbranch⟩ := hlowers.compareAndBranch hsize
  rw [hhalf]
  exact ⟨hcmp, rfl, target, position, position', hi, hbranch⟩

/-- **The words of an operation** that is left to a routine. -/
theorem Tiled.stubs {routine : Routine} {dst : Option Register} {args : List TierOperand} (h : b.Tiled t stop raw)
    (hoperands : ∀ instruction ∈ b.instructions, ∀ operand ∈ instruction.opcode.operands, operand.Fits b)
    (hl : (resolved raw).At k start (.stub routine dst args)) :
    ∃ instruction, b.instructions[start.toNat]? = some instruction ∧
      ∀ m, ∃ x, delegatedWork t m instruction.opcode = some (dst, x) ∧
        runRoutine (m.stubFrame (args.map (TierOperand.word m))) routine = do return .ofValue (← x) := by
  obtain ⟨op, hat, hop⟩ := at_resolved.mp hl
  have hstub : op = .stub routine dst args := by
    cases op <;> simp_all [resolveTarget]
  subst hstub
  obtain ⟨instruction, hi, hlowers⟩ := h.source k start _ hat
  cases hlowers with
  | single hopcode => exact ⟨instruction, hi, runRoutine_args hopcode (hoperands _ (Array.mem_of_getElem? hi))⟩

/-! ### The whole -/

/-- What is jumped to in a consistent block is an instruction. -/
theorem Consistent.isJumpTarget_lt (hb : b.Consistent) (ht : b.isJumpTarget target) :
    target.toNat < b.instructions.size := by
  simp only [isJumpTarget, Bool.or_eq_true, Array.any_eq_true', List.any_eq_true, beq_iff_eq] at ht
  rcases ht with ⟨instruction, hmem, hjump⟩ | ⟨handler, hmem, rfl⟩
  · exact hb.operands instruction hmem _ (target_mem_operands hjump)
  · exact (hb.handlers handler hmem).2.2

/-- **The lowering of a consistent block mirrors it.** -/
theorem Consistent.lower_mirrors (hb : b.Consistent) (hsize : b.instructions.size ≤ UInt32.size)
    (h : b.lower t = .ok l) : b.Mirrors t l := by
  obtain ⟨raw, stop, hstop, ht, rfl⟩ := lower_tiled hsize h
  have hfree {target : UInt32} (hjump : b.isJumpTarget target) (k : Nat) : ¬ (resolved raw).Absorbs k target.toNat :=
    fun ha => ht.not_absorbs hsize hjump k (absorbs_resolved.mp ha)
  exact {
    paired := by simp [resolved, ht.paired]
    increasing := fun j k s s' => ht.increasing
    table := fun pc k => (ht.starts pc k).trans ht.starts_iff.symm
    shared := fun pc hpc => by
      simp only [absorbs_resolved]
      exact ht.shared hsize (by omega)
    jumps := fun instruction hmem target hjump => hfree (isJumpTarget_of_mem hmem hjump)
    handlers := fun handler hmem => hfree (isJumpTarget_of_handler hmem)
    flow := fun k start op => ht.flow hsize fun target hjump => Nat.lt_of_lt_of_le (hb.isJumpTarget_lt hjump) hstop
    fused := fun k start cmp dst lhs rhs sense index half => ht.fused hsize
    stubs := fun k start routine dst args => ht.stubs hb.operands }

end Block

/-- **Registered code has tier code that mirrors it.** In all machines that a host can get at, registered code can be
lowered. Its instructions are numbered with 32 bits; unless there are too many for that, the tier code has its control
flow, and routines find the operands of their instructions. -/
theorem registered_code_mirrored :
    (∀ m : Machine, m.Visited → m.Intact) ∧
    ∀ (m : Machine) (entry : CodeEntry), m.Intact → entry ∈ m.codes → ∃ l, entry.lower = .ok l ∧
      (entry.block.instructions.size ≤ UInt32.size → entry.block.Mirrors entry.tables l) := by
  refine ⟨fun _ => Machine.Visited.intact, fun m entry hm hmem => ?_⟩
  have hc := hm.codes entry hmem
  obtain ⟨l, hl⟩ := hc.exists_lower
  refine ⟨l, hl, fun hsize => ?_⟩
  obtain ⟨functions, -, hb⟩ := hc.consistent
  obtain ⟨h₁, h₂, h₃, h₄, h₅, h₆, h₇, h₈, h₉⟩ :=
    hb.lower_mirrors hsize ((Block.lower_functions entry.block functions).trans hl)
  exact ⟨h₁, h₂, h₃, h₄, h₅, h₆, h₇, h₈, h₉⟩

/-- A program that compares two registers and leaves its loop if one is less, or else makes an array of them. The
comparison is fused with the branch. -/
def looping : Machine :=
  { capturing with
    codes := #[.fresh { instructions := #[⟨.binary .less 2 0 1, none⟩, ⟨.jumpIf true 2 4, none⟩, ⟨.newArray 2 0 2, none⟩,
                          ⟨.loop 0, none⟩, ⟨.ret 2, none⟩]
                        handlers := [⟨0, 4, 4, 0⟩], registerCount := 3 } #[] #[] []]
    frames := #[] }

theorem intact_looping : looping.Intact := by
  refine ⟨intact_capturing.white, intact_capturing.listed, fun id c hc => ?_, fun f hf => ?_, fun entry hentry => ?_⟩
  · simp [looping, capturing, Heap.new, Heap.cell?] at hc
  · cases Array.mem_def.mp hf
  · obtain rfl := List.mem_singleton.mp (Array.mem_def.mp hentry)
    exact Machine.complete_fresh (Block.checkOwn_eq_ok_iff.mp (by decide)) rfl rfl rfl (by simp)

/-- The comparison absorbs the branch, which leads to the last of four operations. -/
theorem registered_code_mirrored_looping : looping.Intact ∧ ∃ entry ∈ looping.codes, ∃ l,
    entry.lower = .ok l ∧ entry.block.Mirrors entry.tables l ∧ l.ops.size = 4 ∧ l.Absorbs 0 1 ∧ l.Starts 3 4 := by
  have hmem : looping.codes[0] ∈ looping.codes := Array.getElem_mem _
  obtain ⟨l, hl, hmirrors⟩ := registered_code_mirrored.2 looping _ intact_looping hmem
  have hcode : looping.codes[0].lower.toOption.map (fun l => (l.ops.size, l.ops[0]?, l.opPcs[3]?)) =
      some (4, some (.compareAndBranch .less 2 0 1 true 3 1), some 4) := by decide +kernel
  rw [hl] at hcode
  obtain ⟨hsize, hcode⟩ := Prod.mk.inj (Option.some.inj hcode)
  obtain ⟨hop, hstart⟩ := Prod.mk.inj hcode
  exact ⟨intact_looping, _, hmem, l, hl, hmirrors (by decide), hsize, ⟨_, _, _, _, _, _, _, hop, rfl⟩, ⟨_, hstart, rfl⟩⟩

end ScriptMachine
