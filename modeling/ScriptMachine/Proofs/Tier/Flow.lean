import ScriptMachine.Proofs.Program.Validation
import ScriptMachine.Proofs.Tier.Lowering

/-! # Where tier code goes

The lowering of a consistent block has no way out (`Block.Consistent.encloses`): its last operation does
not go on to a next one, every jump leads to an operation, and so does every handler. The operands of
its operations are in the tables of the block (`Block.Consistent.takes`), and lowering fails only for an
identifier without an atom (`Block.exists_lower`). -/

namespace ScriptMachine

namespace TierOp

/-- The operation may go on to the next one. -/
def fallsThrough : TierOp → Bool
  | .jump _ | .loop _ | .ret _ | .stub .throw _ _ => false
  | _ => true

/-- Where the operation may jump to. -/
def target? : TierOp → Option Nat
  | .jump target | .branch _ _ target | .loop target | .compareAndBranch _ _ _ _ _ target _ => some target
  | _ => none

/-- What holds of the operands of the operation that are indices of tables. -/
def Takes (P : Operand → Prop) : TierOp → Prop
  | .loadConstant _ index => P (.constant index)
  | .stub .newFunction _ args => ∃ i, args = [.index i] ∧ P (.function i)
  | .stub .pushScope _ args => ∃ i, args = [.index i] ∧ P (.scopeLayout i)
  | _ => True

theorem Takes.mono {P P' : Operand → Prop} (hP : ∀ operand, P operand → P' operand) {op : TierOp}
    (h : op.Takes P) : op.Takes P' := by
  unfold Takes at h ⊢
  split
  · exact hP _ h
  · exact h.imp fun _ h => ⟨h.1, hP _ h.2⟩
  · exact h.imp fun _ h => ⟨h.1, hP _ h.2⟩
  · trivial

end TierOp

/-- **Lowered code of a block that control does not leave.** -/
structure Block.Encloses (b : Block) (l : Lowered) : Prop where
  /-- There is a first operation. -/
  start : 0 < l.ops.size
  /-- There is an operation after one that may go on to it. -/
  next : ∀ index op, l.ops[index]? = some op → op.fallsThrough → index + 1 < l.ops.size
  /-- Jumps lead to operations. -/
  targets : ∀ op ∈ l.ops, ∀ target, op.target? = some target → target < l.ops.size
  /-- Handlers start at operations. -/
  handlers : ∀ h ∈ b.handlers, ∃ op, l.StartsAt h.target.toNat op

namespace Block

variable {b : Block} {t : CodeTables} {l acc : Lowered} {opcode : Opcode} {op : TierOp}
  {pc fuel width : Nat}

/-! ### Single instructions -/

/-- What the operation of an instruction takes over from the instruction. -/
theorem lowerOpcode_spec {P : Operand → Prop} (h : lowerOpcode t opcode = .ok op) :
    op.target? = opcode.jumpTarget?.map UInt32.toNat ∧ op.fallsThrough = !opcode.isTerminator ∧
      ((∀ operand ∈ opcode.operands, P operand) → op.Takes P) := by
  cases opcode with
  | loadConst dst index =>
    obtain rfl := Except.ok.inj h
    refine ⟨by split <;> rfl, by split <;> rfl, fun hp => ?_⟩
    split
    · exact hp (.constant index) (by simp [Opcode.operands])
    · trivial
  | newFunction dst function =>
    obtain rfl := Except.ok.inj h
    exact ⟨rfl, rfl, fun hp => ⟨function, rfl, hp _ (by simp [Opcode.operands])⟩⟩
  | pushScope layout =>
    obtain rfl := Except.ok.inj h
    exact ⟨rfl, rfl, fun hp => ⟨layout, rfl, hp _ (by simp [Opcode.operands])⟩⟩
  | getById _ _ _ _ | putById _ _ _ _ | deleteById _ _ _ | getGlobal _ _ _ | putGlobal _ _ _
  | resolveName _ _ | callMethod _ _ _ _ _ _ _ =>
    obtain ⟨a, -, rfl⟩ := atom_bind_cases h
    exact ⟨rfl, rfl, fun _ => trivial⟩
  | _ =>
    obtain rfl := Except.ok.inj h
    exact ⟨rfl, rfl, fun _ => trivial⟩

theorem target_mem_operands {target : UInt32} (h : opcode.jumpTarget? = some target) :
    .target target ∈ opcode.operands := by
  cases opcode with
  | jump _ | loop _ | jumpIf _ _ _ =>
    obtain rfl := Option.some.inj h
    simp [Opcode.operands]
  | _ => cases h

theorem isJumpTarget_of_mem {instruction : Instruction} {target : UInt32}
    (hmem : instruction ∈ b.instructions) (h : instruction.opcode.jumpTarget? = some target) :
    b.isJumpTarget target := by
  simp only [isJumpTarget, Bool.or_eq_true, Array.any_eq_true']
  exact .inl ⟨instruction, hmem, by simp [h]⟩

/-! ### All instructions -/

/-- **Every operation comes from an instruction of the block.** -/
theorem lowerFrom_mem (h : b.lowerFrom t fuel pc acc = .ok l) (hop : op ∈ l.ops) :
    op ∈ acc.ops ∨ ∃ pc instruction width, b.instructions[pc]? = some instruction ∧
      b.lowerAt t pc instruction.opcode = .ok (op, width) := by
  induction fuel generalizing pc acc with
  | zero =>
    obtain rfl := Except.ok.inj h
    exact .inl hop
  | succ fuel ih =>
    cases hi : b.instructions[pc]? with
    | none =>
      unfold lowerFrom at h
      rw [hi] at h
      obtain rfl := Except.ok.inj h
      exact .inl hop
    | some instruction =>
      obtain ⟨op', width, ha, hrest⟩ := lowerFrom_succ hi h
      rcases ih hrest with hmem | hsource
      · rcases Array.mem_push.mp hmem with hmem | rfl
        · exact .inl hmem
        · exact .inr ⟨pc, instruction, width, hi, ha⟩
      · exact .inr hsource

/-- Past the last instruction, nothing is added. -/
theorem lowerFrom_of_size_le (h : b.lowerFrom t fuel pc acc = .ok l) (hpc : b.instructions.size ≤ pc) :
    l = acc := by
  cases fuel with
  | zero => exact (Except.ok.inj h).symm
  | succ fuel =>
    unfold lowerFrom at h
    rw [Array.getElem?_eq_none hpc] at h
    exact (Except.ok.inj h).symm

/-- **The last operation does not go on** to a next one. -/
theorem lowerFrom_back (h : b.lowerFrom t fuel pc acc = .ok l)
    (hend : ∃ last, b.instructions.back? = some last ∧ last.opcode.isTerminator)
    (hpc : pc < b.instructions.size) (hfuel : b.instructions.size ≤ pc + fuel) :
    ∃ op, l.ops.back? = some op ∧ op.fallsThrough = false := by
  induction fuel generalizing pc acc with
  | zero => exact absurd hpc (by omega)
  | succ fuel ih =>
    obtain ⟨op, width, ha, hrest⟩ := lowerFrom_succ (Array.getElem?_eq_getElem hpc) h
    rcases Nat.lt_or_ge (pc + width) b.instructions.size with hnext | hlast
    · refine ih hrest hnext ?_
      have := (lowers_of_lowerAt ha).width_pos
      omega
    · obtain rfl := lowerFrom_of_size_le hrest hlast
      refine ⟨op, Array.back?_push, ?_⟩
      obtain ⟨last, hback, hterminator⟩ := hend
      rw [Array.back?_eq_getElem?] at hback
      cases lowers_of_lowerAt ha with
      | single hop =>
        rw [show b.instructions.size - 1 = pc by omega, Array.getElem?_eq_getElem hpc] at hback
        rw [(lowerOpcode_spec (P := fun _ => True) hop).2.1, Option.some.inj hback, hterminator]
        rfl
      | fused hbranch _ =>
        -- the branch that was fused is no terminator
        have := (Array.getElem?_eq_some_iff.mp hbranch).1
        rw [show b.instructions.size - 1 = pc + 1 by omega, hbranch] at hback
        rw [← Option.some.inj hback] at hterminator
        cases hterminator

theorem target?_resolveTarget (resolve : Nat → Nat) (op : TierOp) :
    (resolveTarget resolve op).target? = op.target?.map resolve := by
  cases op <;> rfl

theorem fallsThrough_resolveTarget (resolve : Nat → Nat) (op : TierOp) :
    (resolveTarget resolve op).fallsThrough = op.fallsThrough := by
  cases op <;> rfl

theorem takes_resolveTarget {resolve : Nat → Nat} {P : Operand → Prop} (h : op.Takes P) :
    (resolveTarget resolve op).Takes P := by
  cases op <;> exact h

/-- **The lowering of a consistent block has no way out.** -/
theorem Consistent.encloses (hb : b.Consistent) (h : b.lower t = .ok l) : b.Encloses l := by
  obtain ⟨raw, hraw, rfl⟩ := lower_cases h
  obtain ⟨last, hlast, -⟩ := hb.terminated
  have hpos : 0 < b.instructions.size := Array.size_pos_of_mem (Array.mem_of_back? hlast)
  obtain ⟨final, hfinal, hfalls⟩ := lowerFrom_back hraw hb.terminated hpos (by omega)
  have hsource {op : TierOp} (hop : op ∈ raw.ops) :=
    (lowerFrom_mem hraw hop).resolve_left (by simp)
  have hoperands {pc : Nat} {instruction : Instruction} (hi : b.instructions[pc]? = some instruction) :=
    hb.operands instruction (Array.mem_of_getElem? hi)
  refine ⟨?_, fun index op hop hnext => ?_, fun op hop target htarget => ?_, fun handler hmem => ?_⟩
  · rw [Array.size_map]
    exact Array.size_pos_of_mem (Array.mem_of_back? hfinal)
  · rw [Array.getElem?_map] at hop
    obtain ⟨op, hat, rfl⟩ := Option.map_eq_some_iff.mp hop
    have hlt := (Array.getElem?_eq_some_iff.mp hat).1
    rw [Array.size_map]
    refine Nat.lt_of_le_of_ne hlt fun heq => ?_
    rw [Array.back?_eq_getElem?, ← heq, Nat.add_sub_cancel, hat] at hfinal
    obtain rfl := Option.some.inj hfinal
    rw [fallsThrough_resolveTarget, hfalls] at hnext
    cases hnext
  · obtain ⟨op, hmem, rfl⟩ := Array.mem_map.mp hop
    rw [target?_resolveTarget] at htarget
    obtain ⟨source, hjump, rfl⟩ := Option.map_eq_some_iff.mp htarget
    -- the target of an instruction starts at an operation
    have hbranch {pc : Nat} {instruction : Instruction} {target : UInt32}
        (hi : b.instructions[pc]? = some instruction)
        (ht : instruction.opcode.jumpTarget? = some target) :
        (raw.pcToOp.getD target.toNat none).getD raw.ops.size < raw.ops.size := by
      have hlt : target.toNat < b.instructions.size := hoperands hi _ (target_mem_operands ht)
      obtain ⟨_, _, -, k, hk, hop⟩ := lowerFrom_isJumpTarget hraw (by simp) (Nat.zero_le _)
        (by omega) (isJumpTarget_of_mem (Array.mem_of_getElem? hi) ht)
        (Array.getElem?_eq_getElem hlt)
      rw [hk]
      exact (Array.getElem?_eq_some_iff.mp hop).1
    rw [Array.size_map]
    obtain ⟨pc, instruction, width, hi, ha⟩ := hsource hmem
    cases lowers_of_lowerAt ha with
    | single hopcode =>
      rw [(lowerOpcode_spec (P := fun _ => True) hopcode).1] at hjump
      obtain ⟨target, ht, rfl⟩ := Option.map_eq_some_iff.mp hjump
      exact hbranch hi ht
    | fused hnext _ =>
      obtain rfl := Option.some.inj hjump
      exact hbranch hnext rfl
  · have hlt := (hb.handlers handler hmem).2.2
    obtain ⟨_, _, _, -, hstarts⟩ := startsAt_of_isJumpTarget h (isJumpTarget_of_handler hmem)
      (Array.getElem?_eq_getElem hlt)
    exact ⟨_, hstarts⟩

/-- The operands of operations are in their tables. -/
theorem Consistent.takes (hb : b.Consistent) (h : b.lower t = .ok l) :
    ∀ op ∈ l.ops, op.Takes (Operand.Fits b) := by
  obtain ⟨raw, hraw, rfl⟩ := lower_cases h
  intro op hop
  obtain ⟨op, hmem, rfl⟩ := Array.mem_map.mp hop
  obtain ⟨pc, instruction, width, hi, ha⟩ := (lowerFrom_mem hraw hmem).resolve_left (by simp)
  refine takes_resolveTarget ?_
  cases lowers_of_lowerAt ha with
  | single hopcode =>
    exact (lowerOpcode_spec hopcode).2.2 (hb.operands instruction (Array.mem_of_getElem? hi))
  | fused _ _ => trivial

/-- Lowering does not depend on the nested functions. -/
theorem lower_functions (b : Block) (functions : List Block) :
    Block.lower { b with functions } t = b.lower t := by
  have hfrom (fuel pc : Nat) (acc : Lowered) :
      Block.lowerFrom { b with functions } t fuel pc acc = b.lowerFrom t fuel pc acc := by
    induction fuel generalizing pc acc with
    | zero => rfl
    | succ fuel ih =>
      unfold lowerFrom
      simp only [ih]
      rfl
  unfold lower
  simp only [hfrom]

/-! ### Lowering succeeds -/

/-- An instruction whose identifiers have atoms has an operation. -/
theorem exists_lowerOpcode (h : ∀ i, .identifier i ∈ opcode.operands → ∃ a, t.identifier i = some a) :
    ∃ op, lowerOpcode t opcode = .ok op := by
  have hname (index : UInt32) (k : Atom → TierOp) (hmem : .identifier index ∈ opcode.operands) :
      ∃ op, (do .ok (k (← lowerOpcode.atom t index)) : Except LoweringFault TierOp) = .ok op := by
    obtain ⟨a, ha⟩ := h index hmem
    refine ⟨k a, ?_⟩
    simp only [lowerOpcode.atom, ha]
    rfl
  cases opcode with
  | getById _ _ _ _ | putById _ _ _ _ | deleteById _ _ _ | getGlobal _ _ _ | putGlobal _ _ _
  | resolveName _ _ | callMethod _ _ _ _ _ _ _ => exact hname _ _ (by simp [Opcode.operands])
  | _ => exact ⟨_, rfl⟩

theorem exists_lowerAt (pc : Nat)
    (h : ∀ i, .identifier i ∈ opcode.operands → ∃ a, t.identifier i = some a) :
    ∃ result, b.lowerAt t pc opcode = .ok result := by
  unfold lowerAt
  split
  · split <;> exact ⟨_, rfl⟩
  · obtain ⟨op, hop⟩ := exists_lowerOpcode h
    exact ⟨(op, 1), by rw [hop]; rfl⟩

/-- **A block whose identifiers have atoms can be lowered.** -/
theorem exists_lower (hb : b.Consistent)
    (h : ∀ i : UInt32, i.toNat < b.identifiers.size → ∃ a, t.identifier i = some a) :
    ∃ l, b.lower t = .ok l := by
  have hfrom (fuel pc : Nat) (acc : Lowered) : ∃ l, b.lowerFrom t fuel pc acc = .ok l := by
    induction fuel generalizing pc acc with
    | zero => exact ⟨acc, rfl⟩
    | succ fuel ih =>
      unfold lowerFrom
      cases hi : b.instructions[pc]? with
      | none => exact ⟨acc, rfl⟩
      | some instruction =>
        obtain ⟨⟨op, width⟩, hop⟩ := exists_lowerAt (b := b) (t := t) pc fun i hmem =>
          h i (hb.operands instruction (Array.mem_of_getElem? hi) _ hmem)
        simp only [hop, bind, Except.bind]
        exact ih _ _
  obtain ⟨last, hlast, -⟩ := hb.terminated
  have hpos : b.instructions.size ≠ 0 :=
    Nat.ne_of_gt (Array.size_pos_of_mem (Array.mem_of_back? hlast))
  unfold lower
  dsimp only
  rw [if_neg hpos]
  obtain ⟨raw, hraw⟩ := hfrom b.instructions.size 0 ⟨#[], #[], Array.replicate b.instructions.size none⟩
  simp only [hraw, bind, Except.bind]
  exact ⟨_, rfl⟩

end Block

/-! ## The instructions that operations stand for

An operation of tier code stands for one instruction, or for two if it is a comparison that was fused with the
branch after it (`TierOp.width`). While a block is lowered, the operations tile the instructions so far
(`Block.Tiled`): they are in order, no two of them overlap and none is left out, and the table of the operations
that start at instructions is true. So they tile the whole block in the end (`Block.lower_tiled`). -/

/-- The number of instructions that an operation stands for. -/
def TierOp.width : TierOp → Nat
  | .compareAndBranch .. => 2
  | _ => 1

theorem TierOp.width_pos (op : TierOp) : 0 < op.width := by
  unfold width
  split <;> decide

/-- **An operation of lowered code**, with its number and the instruction it starts at. -/
def Lowered.At (l : Lowered) (k : Nat) (start : UInt32) (op : TierOp) : Prop :=
  l.opPcs[k]? = some start ∧ l.ops[k]? = some op

namespace Block

variable {b : Block} {t : CodeTables} {l acc : Lowered} {opcode : Opcode} {op : TierOp} {instruction : Instruction}
  {pc fuel width k : Nat} {start : UInt32}

theorem width_of_lowerOpcode (h : lowerOpcode t opcode = .ok op) : op.width = 1 := by
  cases opcode with
  | loadConst dst index =>
    obtain rfl := Except.ok.inj h
    split <;> rfl
  | getById _ _ _ _ | putById _ _ _ _ | deleteById _ _ _ | getGlobal _ _ _ | putGlobal _ _ _
  | resolveName _ _ | callMethod _ _ _ _ _ _ _ =>
    obtain ⟨a, -, rfl⟩ := atom_bind_cases h
    rfl
  | _ =>
    obtain rfl := Except.ok.inj h
    rfl

theorem Lowers.width_eq (h : b.Lowers t pc opcode op width) : width = op.width := by
  cases h with
  | single hop => exact (width_of_lowerOpcode hop).symm
  | fused => rfl

theorem width_resolveTarget (resolve : Nat → Nat) (op : TierOp) : (resolveTarget resolve op).width = op.width := by
  cases op <;> rfl

/-- **The operations so far tile the instructions before one.** -/
structure Tiled (b : Block) (t : CodeTables) (pc : Nat) (l : Lowered) : Prop where
  /-- Each operation has its first instruction. -/
  paired : l.opPcs.size = l.ops.size
  /-- The table has an entry for each instruction. -/
  marked : l.pcToOp.size = b.instructions.size
  /-- An operation is the one of its instructions. -/
  source : ∀ k start op, l.At k start op → ∃ instruction, b.instructions[start.toNat]? = some instruction ∧
    b.Lowers t start.toNat instruction.opcode op op.width
  /-- Its instructions are among those before. -/
  within : ∀ k start op, l.At k start op → start.toNat + op.width ≤ pc
  /-- They come before those of later operations. -/
  apart : ∀ j k s s' op op', j < k → l.At j s op → l.At k s' op' → s.toNat + op.width ≤ s'.toNat
  /-- No instruction is left out. -/
  covers : ∀ q < pc, ∃ k start op, l.At k start op ∧ start.toNat ≤ q ∧ q < start.toNat + op.width
  /-- The table of operations is true. -/
  starts : ∀ q k, l.pcToOp.getD q none = some k ↔ ∃ start op, l.At k start op ∧ start.toNat = q

/-- The operations after one more, which is the last. -/
theorem at_push (hp : acc.opPcs.size = acc.ops.size) {table : Array (Option Nat)} {first : UInt32} {last : TierOp} :
    Lowered.At ⟨acc.ops.push last, acc.opPcs.push first, table⟩ k start op ↔
      acc.At k start op ∨ k = acc.ops.size ∧ start = first ∧ op = last := by
  simp only [Lowered.At, Array.getElem?_push, hp]
  by_cases hk : k = acc.ops.size
  · subst hk
    simp [eq_comm]
  · simp [hk]

theorem lt_of_at (h : l.At k start op) : k < l.ops.size := (Array.getElem?_eq_some_iff.mp h.2).1

/-- An operation starts at one of the instructions before. -/
theorem Tiled.start_lt (h : b.Tiled t pc l) (hat : l.At k start op) : start.toNat < pc := by
  have := h.within k start op hat
  have := op.width_pos
  omega

/-- The table knows of one more operation. -/
theorem Tiled.starts_push (h : b.Tiled t pc acc) (hlt : pc < b.instructions.size) {first : UInt32}
    (hfirst : first.toNat = pc) (q : Nat) :
    (acc.pcToOp.setIfInBounds pc (some acc.ops.size)).getD q none = some k ↔
      ∃ start last, (acc.At k start last ∨ k = acc.ops.size ∧ start = first ∧ last = op) ∧ start.toNat = q := by
  by_cases hq : q = pc
  · -- the new operation, and no other, starts there
    subst hq
    rw [Array.getD_eq_getD_getElem?, Array.getElem?_setIfInBounds_self_of_lt (by rw [h.marked]; exact hlt)]
    constructor
    · intro hk
      exact ⟨_, _, .inr ⟨(Option.some.inj hk).symm, rfl, rfl⟩, hfirst⟩
    · rintro ⟨start, last, hat | ⟨rfl, -, -⟩, heq⟩
      · exact absurd heq (Nat.ne_of_lt (h.start_lt hat))
      · rfl
  · rw [Array.getD_eq_getD_getElem?, Array.getElem?_setIfInBounds_ne (Ne.symm hq), ← Array.getD_eq_getD_getElem?,
      h.starts]
    constructor
    · rintro ⟨start, last, hat, hs⟩
      exact ⟨start, last, .inl hat, hs⟩
    · rintro ⟨start, last, hat | ⟨-, rfl, -⟩, hs⟩
      · exact ⟨start, last, hat, hs⟩
      · exact absurd (hs.symm.trans hfirst) hq

/-- **One more operation.** -/
theorem Tiled.push (h : b.Tiled t pc acc) (hsize : b.instructions.size ≤ UInt32.size)
    (hi : b.instructions[pc]? = some instruction) (hop : b.Lowers t pc instruction.opcode op width) :
    b.Tiled t (pc + width) ⟨acc.ops.push op, acc.opPcs.push pc.toUInt32,
      acc.pcToOp.setIfInBounds pc (some acc.ops.size)⟩ := by
  obtain rfl := hop.width_eq
  have hlt := (Array.getElem?_eq_some_iff.mp hi).1
  have hpc : pc.toUInt32.toNat = pc := UInt32.toNat_ofNat_of_lt' (by omega)
  refine ⟨by simp [h.paired], by simp [h.marked], fun k start op' hat => ?_, fun k start op' hat => ?_,
    fun j k s s' op₁ op₂ hjk hj hk => ?_, fun q hq => ?_, fun q k => ?_⟩
  · rcases (at_push h.paired).mp hat with hat | ⟨-, rfl, rfl⟩
    · exact h.source k start op' hat
    · rw [hpc]
      exact ⟨instruction, hi, hop⟩
  · rcases (at_push h.paired).mp hat with hat | ⟨-, rfl, rfl⟩
    · exact (h.within k start op' hat).trans (Nat.le_add_right _ _)
    · rw [hpc]
  · rcases (at_push h.paired).mp hk with hk | ⟨rfl, rfl, rfl⟩
    · rcases (at_push h.paired).mp hj with hj | ⟨rfl, -, -⟩
      · exact h.apart j k s s' op₁ op₂ hjk hj hk
      · exact absurd (lt_of_at hk) (Nat.not_lt.mpr hjk.le)
    · rcases (at_push h.paired).mp hj with hj | ⟨rfl, -, -⟩
      · rw [hpc]
        exact h.within j s op₁ hj
      · exact absurd hjk (Nat.lt_irrefl _)
  · by_cases hold : q < pc
    · obtain ⟨k, start, op', hat, hle, hlt⟩ := h.covers q hold
      exact ⟨k, start, op', (at_push h.paired).mpr (.inl hat), hle, hlt⟩
    · exact ⟨_, _, _, (at_push h.paired).mpr (.inr ⟨rfl, rfl, rfl⟩), by omega, by omega⟩
  · simp only [at_push h.paired]
    exact h.starts_push hlt hpc q

theorem tiled_empty (b : Block) (t : CodeTables) :
    b.Tiled t 0 ⟨#[], #[], Array.replicate b.instructions.size none⟩ where
  paired := rfl
  marked := by simp
  source k start op hat := by simp [Lowered.At] at hat
  within k start op hat := by simp [Lowered.At] at hat
  apart j k s s' op op' _ hat := by simp [Lowered.At] at hat
  covers q hq := absurd hq (Nat.not_lt_zero q)
  starts q k := by
    rw [Array.getD_eq_getD_getElem?, Array.getElem?_replicate]
    split <;> simp [Lowered.At]

/-- **Operation by operation**, to the end of the block. -/
theorem lowerFrom_tiled (hsize : b.instructions.size ≤ UInt32.size) (h : b.lowerFrom t fuel pc acc = .ok l)
    (ht : b.Tiled t pc acc) (hfuel : b.instructions.size ≤ pc + fuel) :
    ∃ stop, b.instructions.size ≤ stop ∧ b.Tiled t stop l := by
  induction fuel generalizing pc acc with
  | zero =>
    obtain rfl := Except.ok.inj h
    exact ⟨pc, hfuel, ht⟩
  | succ fuel ih =>
    rcases Nat.lt_or_ge pc b.instructions.size with hlt | hge
    · obtain ⟨op, width, ha, hrest⟩ := lowerFrom_succ (Array.getElem?_eq_getElem hlt) h
      have hop := lowers_of_lowerAt ha
      have := hop.width_pos
      exact ih hrest (ht.push hsize (Array.getElem?_eq_getElem hlt) hop) (by omega)
    · obtain rfl := lowerFrom_of_size_le h hge
      exact ⟨pc, hge, ht⟩

/-- Lowered code whose branches lead to operations. -/
def resolved (raw : Lowered) : Lowered :=
  { raw with ops := raw.ops.map (resolveTarget fun pc => (raw.pcToOp.getD pc none).getD raw.ops.size) }

/-- **The operations of lowered code tile the block**, but for the targets of branches, which become operations. -/
theorem lower_tiled (hsize : b.instructions.size ≤ UInt32.size) (h : b.lower t = .ok l) :
    ∃ raw stop, b.instructions.size ≤ stop ∧ b.Tiled t stop raw ∧ l = resolved raw := by
  obtain ⟨raw, hraw, rfl⟩ := lower_cases h
  obtain ⟨stop, hstop, ht⟩ := lowerFrom_tiled hsize hraw (b.tiled_empty t) (by omega)
  exact ⟨raw, stop, hstop, ht, rfl⟩

end Block

end ScriptMachine
