import ScriptMachine.Machine.Call
import ScriptMachine.Proofs.Atom
import ScriptMachine.Proofs.Number.Integer

/-! # What lowering produces

Every operation of lowered code is the operation of one instruction, or a comparison fused with the
branch after it, up to the targets of branches (`lower_forall`). So the names in tier code are the
names of the identifier table, and no value in it refers to a cell (`known_lower`). -/

namespace ScriptMachine

/-- The argument of a routine that is a property name. -/
def Routine.nameAt? : Routine → Option Nat
  | .getById | .putById | .deleteById => some 1
  | .getGlobal | .putGlobal => some 0
  | _ => none

/-- The names an operation uses are interned, and the value it stores refers to no cell. -/
def TierOp.Known (t : AtomTable) : TierOp → Prop
  | .loadValue _ value => value.cell? = none
  | .stub routine _ args =>
    ∀ i, routine.nameAt? = some i → ∃ a, args[i]? = some (.atom a) ∧ t.Knows a
  | .callMethod _ _ name _ _ _ => t.Knows name
  | _ => True

/-- The operation does not ask for variables to be moved; the routines that need it do it themselves. -/
def TierOp.Modest : TierOp → Prop
  | .stub routine _ _ => routine ≠ .tearOffActivation
  | _ => True

/-- No operation asks for variables to be moved. -/
def Lowered.Modest (l : Lowered) : Prop := ∀ op ∈ l.ops, op.Modest

/-- The names of registered code are interned, also in its tier code. -/
structure CodeEntry.Known (t : AtomTable) (entry : CodeEntry) : Prop where
  atoms : ∀ a ∈ entry.atoms, t.Knows a
  compiled : ∀ lowered, entry.compiled = some lowered → ∀ op ∈ lowered.ops, op.Known t

theorem TierOp.Known.extends {t t' : AtomTable} {op : TierOp} (hk : op.Known t)
    (he : t'.Extends t) : op.Known t' := by
  cases op with
  | stub routine dst args =>
    intro i hi
    obtain ⟨a, ha, hknown⟩ := hk i hi
    exact ⟨a, ha, he.knows hknown⟩
  | callMethod dst base name _ _ _ => exact he.knows hk
  | loadValue _ _ => exact hk
  | _ => trivial

theorem CodeEntry.Known.extends {t t' : AtomTable} {entry : CodeEntry} (hk : entry.Known t)
    (he : t'.Extends t) : entry.Known t' :=
  ⟨fun a ha => he.knows (hk.atoms a ha),
    fun lowered hl op hop => (hk.compiled lowered hl op hop).extends he⟩

namespace Block

variable {b : Block} {t : CodeTables} {P : TierOp → Prop}

/-- **What an operation stands for**: one instruction, or a comparison and the branch after it, which
nothing jumps to. -/
inductive Lowers (b : Block) (t : CodeTables) (pc : Nat) (opcode : Opcode) : TierOp → Nat → Prop
  | single {op : TierOp} : lowerOpcode t opcode = .ok op → Lowers b t pc opcode op 1
  | fused {cmp : BinaryOp} {dst lhs rhs : Register} {sense : Bool} {target : UInt32}
      {position : Option SourcePosition} :
    b.instructions[pc + 1]? = some ⟨.jumpIf sense dst target, position⟩ →
    b.isJumpTarget (pc + 1).toUInt32 = false →
    opcode = .binary cmp dst lhs rhs → cmp.isComparison = true →
    Lowers b t pc opcode (.compareAndBranch cmp dst lhs rhs sense target.toNat (pc + 1).toUInt32) 2

theorem Lowers.width_pos {pc width : Nat} {opcode : Opcode} {op : TierOp}
    (h : b.Lowers t pc opcode op width) : 0 < width := by
  cases h <;> decide

theorem fusedBranch?_eq_some {pc : Nat} {dst : Register} {sense : Bool} {target : UInt32}
    (h : b.fusedBranch? pc dst = some (sense, target)) :
    b.isJumpTarget (pc + 1).toUInt32 = false ∧
      ∃ position, b.instructions[pc + 1]? = some ⟨.jumpIf sense dst target, position⟩ := by
  unfold fusedBranch? at h
  split at h
  case h_2 => cases h
  case h_1 cond _ position hi =>
    split at h
    case isFalse => cases h
    case isTrue hfree =>
      obtain ⟨rfl, rfl⟩ := Prod.mk.inj (Option.some.inj h)
      simp only [Bool.and_eq_true, beq_iff_eq, Bool.not_eq_true'] at hfree
      obtain ⟨rfl, hfree⟩ := hfree
      exact ⟨hfree, position, hi⟩

theorem lowers_of_lowerAt {pc : Nat} {opcode : Opcode} {op : TierOp} {width : Nat}
    (h : b.lowerAt t pc opcode = .ok (op, width)) : b.Lowers t pc opcode op width := by
  unfold lowerAt at h
  split at h
  case h_1 cmp dst lhs rhs =>
    split at h
    case h_1 sense target hfused =>
      obtain ⟨rfl, rfl⟩ := Prod.mk.inj (Except.ok.inj h)
      split at hfused
      case isFalse => cases hfused
      case isTrue hcmp =>
        obtain ⟨hfree, _, hi⟩ := fusedBranch?_eq_some hfused
        exact .fused hi hfree rfl hcmp
    case h_2 =>
      obtain ⟨rfl, rfl⟩ := Prod.mk.inj (Except.ok.inj h)
      exact .single rfl
  case h_2 =>
    cases hl : lowerOpcode t opcode with
    | error fault =>
      rw [hl] at h
      cases h
    | ok op' =>
      rw [hl] at h
      obtain ⟨rfl, rfl⟩ := Prod.mk.inj (Except.ok.inj h)
      exact .single hl

/-- One more operation of the lowering. -/
theorem lowerFrom_succ {fuel pc : Nat} {acc lowered : Lowered} {instruction : Instruction}
    (hi : b.instructions[pc]? = some instruction)
    (h : b.lowerFrom t (fuel + 1) pc acc = .ok lowered) :
    ∃ op width, b.lowerAt t pc instruction.opcode = .ok (op, width) ∧
      b.lowerFrom t fuel (pc + width)
        { ops := acc.ops.push op
          opPcs := acc.opPcs.push pc.toUInt32
          pcToOp := acc.pcToOp.setIfInBounds pc (some acc.ops.size) } = .ok lowered := by
  unfold lowerFrom at h
  rw [hi] at h
  cases ha : b.lowerAt t pc instruction.opcode with
  | error fault =>
    simp only [ha, bind, Except.bind] at h
    cases h
  | ok result =>
    obtain ⟨op, width⟩ := result
    simp only [ha, bind, Except.bind] at h
    exact ⟨op, width, rfl, h⟩

theorem lowerFrom_forall (hop : ∀ opcode op, lowerOpcode t opcode = .ok op → P op)
    (hfused : ∀ cmp dst lhs rhs sense target branchPc,
      P (.compareAndBranch cmp dst lhs rhs sense target branchPc))
    (fuel pc : Nat) (acc : Lowered) (hacc : ∀ op ∈ acc.ops, P op) {lowered : Lowered}
    (h : b.lowerFrom t fuel pc acc = .ok lowered) : ∀ op ∈ lowered.ops, P op := by
  induction fuel generalizing pc acc with
  | zero =>
    obtain rfl := Except.ok.inj h
    exact hacc
  | succ fuel ih =>
    cases hi : b.instructions[pc]? with
    | none =>
      unfold lowerFrom at h
      rw [hi] at h
      obtain rfl := Except.ok.inj h
      exact hacc
    | some instruction =>
      obtain ⟨op, width, ha, hrest⟩ := lowerFrom_succ hi h
      refine ih (pc + width) _ (fun op' hmem => ?_) hrest
      rcases Array.mem_push.mp hmem with hmem | rfl
      · exact hacc op' hmem
      · cases lowers_of_lowerAt ha with
        | single hl => exact hop _ _ hl
        | fused => exact hfused _ _ _ _ _ _ _

/-- Lowered code has the operations of its instructions, with their targets resolved. -/
theorem lower_cases {lowered : Lowered} (h : b.lower t = .ok lowered) :
    ∃ raw, b.lowerFrom t b.instructions.size 0
        ⟨#[], #[], Array.replicate b.instructions.size none⟩ = .ok raw ∧
      lowered = { raw with
        ops := raw.ops.map (resolveTarget fun pc => (raw.pcToOp.getD pc none).getD raw.ops.size) } := by
  unfold lower at h
  dsimp only at h
  split at h
  case isTrue => cases h
  case isFalse =>
    cases hl : b.lowerFrom t b.instructions.size 0
        ⟨#[], #[], Array.replicate b.instructions.size none⟩ with
    | error fault =>
      simp only [hl, bind, Except.bind] at h
      cases h
    | ok raw =>
      simp only [hl, bind, Except.bind] at h
      exact ⟨raw, rfl, (Except.ok.inj h).symm⟩

/-- **A property of all operations** of lowered code. -/
theorem lower_forall (hop : ∀ opcode op, lowerOpcode t opcode = .ok op → P op)
    (hfused : ∀ cmp dst lhs rhs sense target branchPc,
      P (.compareAndBranch cmp dst lhs rhs sense target branchPc))
    (hresolve : ∀ resolve op, P op → P (resolveTarget resolve op)) {lowered : Lowered}
    (h : b.lower t = .ok lowered) : ∀ op ∈ lowered.ops, P op := by
  obtain ⟨raw, hraw, rfl⟩ := lower_cases h
  intro op hmem
  obtain ⟨op', hmem', rfl⟩ := Array.mem_map.mp hmem
  exact hresolve _ _ (lowerFrom_forall hop hfused _ _ _ (by simp) hraw op' hmem')

theorem atom_cases {index : UInt32} {atom : Atom} (h : lowerOpcode.atom t index = .ok atom) :
    t.identifier index = some atom := by
  unfold lowerOpcode.atom at h
  split at h
  case h_1 heq =>
    rw [heq, Except.ok.inj h]
  case h_2 => cases h

/-- The operation of an instruction with a name. -/
theorem atom_bind_cases {k : Atom → TierOp} {index : UInt32} {op : TierOp}
    (h : (do .ok (k (← lowerOpcode.atom t index)) : Except LoweringFault TierOp) = .ok op) :
    ∃ a, t.identifier index = some a ∧ op = k a := by
  cases ha : lowerOpcode.atom t index with
  | error fault =>
    rw [ha] at h
    cases h
  | ok a =>
    rw [ha] at h
    exact ⟨a, atom_cases ha, (Except.ok.inj h).symm⟩

/-- The operation of one instruction. -/
theorem known_lowerOpcode {table : AtomTable} (ht : ∀ i a, t.identifier i = some a → table.Knows a)
    {opcode : Opcode} {op : TierOp} (h : lowerOpcode t opcode = .ok op) : op.Known table := by
  cases opcode with
  | loadConst dst index =>
    obtain rfl := Except.ok.inj h
    split
    case isTrue => trivial
    case isFalse hcell => simpa [TierOp.Known, Value.cell?] using hcell
  | loadUndefined dst =>
    obtain rfl := Except.ok.inj h
    exact Value.cell?_undefined
  | loadNull dst =>
    obtain rfl := Except.ok.inj h
    exact Value.cell?_null
  | loadBool dst value =>
    obtain rfl := Except.ok.inj h
    exact Value.cell?_boolean value
  | getById dst base name cache | putById base name value cache | deleteById dst base name
  | getGlobal dst name cache | putGlobal name value cache | resolveName dst name =>
    obtain ⟨a, ha, rfl⟩ := atom_bind_cases h
    intro i hi
    cases hi <;> exact ⟨a, rfl, ht _ a ha⟩
  | callMethod dst base name firstArg argc propertyCache cache =>
    obtain ⟨a, ha, rfl⟩ := atom_bind_cases h
    exact ht _ a ha
  | loadThis _ | move _ _ | binary _ _ _ _ | unary _ _ _ | jump _ | jumpIf _ _ _ | loop _ | ret _
  | catchInto _ =>
    obtain rfl := Except.ok.inj h
    trivial
  | _ =>
    obtain rfl := Except.ok.inj h
    intro i hi
    cases hi

theorem known_resolveTarget {table : AtomTable} (resolve : Nat → Nat) {op : TierOp}
    (h : op.Known table) : (resolveTarget resolve op).Known table := by
  cases op <;> exact h

/-- No instruction is lowered to a request to move variables. -/
theorem modest_lowerOpcode {opcode : Opcode} {op : TierOp} (h : lowerOpcode t opcode = .ok op) :
    op.Modest := by
  cases opcode with
  | getById _ _ _ _ | putById _ _ _ _ | deleteById _ _ _ | getGlobal _ _ _ | putGlobal _ _ _
  | resolveName _ _ | callMethod _ _ _ _ _ _ _ =>
    obtain ⟨a, -, rfl⟩ := atom_bind_cases h
    simp [TierOp.Modest]
  | loadConst dst index =>
    obtain rfl := Except.ok.inj h
    split <;> trivial
  | _ =>
    obtain rfl := Except.ok.inj h
    simp [TierOp.Modest]

end Block

/-- The tier code that compiling leaves, if the code lowers. -/
def CodeEntry.tierCode? (entry : CodeEntry) : Option Lowered :=
  match entry.lower with
  | .ok lowered => some lowered
  | .error _ => none

theorem CodeEntry.lower_of_tierCode? {entry : CodeEntry} {lowered : Lowered}
    (h : entry.tierCode? = some lowered) : entry.lower = .ok lowered := by
  unfold tierCode? at h
  cases hl : entry.lower with
  | ok found =>
    rw [hl] at h
    exact congrArg _ (Option.some.inj h)
  | error _ =>
    rw [hl] at h
    cases h

/-- **Lowered code never asks for variables to be moved.** -/
theorem CodeEntry.modest_lower {entry : CodeEntry} {lowered : Lowered} (h : entry.lower = .ok lowered) :
    lowered.Modest :=
  Block.lower_forall (fun _ _ => Block.modest_lowerOpcode) (fun _ _ _ _ _ _ _ => trivial)
    (fun _ op hop => by cases op <;> exact hop) h

/-- **The names in lowered code are interned.** -/
theorem CodeEntry.known_lower {table : AtomTable} {entry : CodeEntry}
    (ha : ∀ a ∈ entry.atoms, table.Knows a) {lowered : Lowered} (h : entry.lower = .ok lowered) :
    ∀ op ∈ lowered.ops, op.Known table := by
  refine Block.lower_forall (fun opcode op hop => ?_) (fun _ _ _ _ _ _ _ => trivial)
    (fun resolve op => Block.known_resolveTarget resolve) h
  exact Block.known_lowerOpcode (fun i a hi => ha a (Array.mem_of_getElem? hi)) hop

/-! ## Where instructions start in tier code

Lowering leaves the operation of an instruction out only if the instruction is a branch that is fused
with the comparison before it, and it fuses no branch that something jumps to. So tier code can go on at
every target of a jump or a handler (`Block.startsAt_of_isJumpTarget`). -/

/-- **An instruction starts at an operation** of the code. -/
def Lowered.StartsAt (l : Lowered) (pc : Nat) (op : TierOp) : Prop :=
  ∃ k, l.pcToOp.getD pc none = some k ∧ l.ops[k]? = some op

namespace Block

variable {b : Block} {t : CodeTables}

/-- What has been lowered stays. -/
theorem lowerFrom_startsAt {fuel pc q : Nat} {acc lowered : Lowered} {op : TierOp}
    (h : b.lowerFrom t fuel pc acc = .ok lowered) (hq : q < pc) (hs : acc.StartsAt q op) :
    lowered.StartsAt q op := by
  induction fuel generalizing pc acc with
  | zero =>
    obtain rfl := Except.ok.inj h
    exact hs
  | succ fuel ih =>
    cases hi : b.instructions[pc]? with
    | none =>
      unfold lowerFrom at h
      rw [hi] at h
      obtain rfl := Except.ok.inj h
      exact hs
    | some instruction =>
      obtain ⟨op', width, -, hrest⟩ := lowerFrom_succ hi h
      refine ih hrest (by omega) ?_
      obtain ⟨k, hk, hop⟩ := hs
      refine ⟨k, ?_, ?_⟩
      · simp only [Array.getD_eq_getD_getElem?] at hk ⊢
        rwa [Array.getElem?_setIfInBounds_ne (Nat.ne_of_gt hq)]
      · have hlt := (Array.getElem?_eq_some_iff.mp hop).1
        rwa [Array.getElem?_push, if_neg (Nat.ne_of_lt hlt)]

/-- **What something jumps to is lowered on its own.** -/
theorem lowerFrom_isJumpTarget {fuel pc : Nat} {acc lowered : Lowered} {target : UInt32}
    {instruction : Instruction} (h : b.lowerFrom t fuel pc acc = .ok lowered)
    (hsize : acc.pcToOp.size = b.instructions.size) (hpc : pc ≤ target.toNat)
    (hfuel : target.toNat < pc + fuel) (ht : b.isJumpTarget target)
    (hi : b.instructions[target.toNat]? = some instruction) :
    ∃ op width, b.lowerAt t target.toNat instruction.opcode = .ok (op, width) ∧
      lowered.StartsAt target.toNat op := by
  induction fuel generalizing pc acc with
  | zero => exact absurd hfuel (by omega)
  | succ fuel ih =>
    have hlt := (Array.getElem?_eq_some_iff.mp hi).1
    obtain ⟨op, width, ha, hrest⟩ :=
      lowerFrom_succ (Array.getElem?_eq_getElem (Nat.lt_of_le_of_lt hpc hlt)) h
    have hwidth := (lowers_of_lowerAt ha).width_pos
    rcases Nat.eq_or_lt_of_le hpc with rfl | hpc
    · rw [Array.getElem?_eq_getElem hlt] at hi
      obtain rfl := Option.some.inj hi
      refine ⟨op, width, ha, lowerFrom_startsAt hrest (by omega) ⟨acc.ops.size, ?_, ?_⟩⟩
      · rw [Array.getD_eq_getD_getElem?, Array.getElem?_setIfInBounds_self_of_lt (by omega)]
        rfl
      · exact Array.getElem?_push_size
    · -- the lowering cannot step over the target
      have hnext : pc + width ≤ target.toNat := by
        cases lowers_of_lowerAt ha with
        | single _ => exact hpc
        | fused _ hfree =>
          rcases Nat.eq_or_lt_of_le hpc with heq | hlt
          · have hsame : (pc + 1).toUInt32 = target := by
              rw [show pc + 1 = target.toNat from heq]
              exact UInt32.ofNat_toNat
            rw [hsame, ht] at hfree
            cases hfree
          · exact hlt
      exact ih hrest (by simp [hsize]) hnext (by omega)

/-- **Tier code can go on at every target**, with the operation of the instruction there. -/
theorem startsAt_of_isJumpTarget {l : Lowered} {target : UInt32} {instruction : Instruction}
    (h : b.lower t = .ok l) (ht : b.isJumpTarget target)
    (hi : b.instructions[target.toNat]? = some instruction) :
    ∃ op width resolve, b.lowerAt t target.toNat instruction.opcode = .ok (op, width) ∧
      l.StartsAt target.toNat (resolveTarget resolve op) := by
  have hlt := (Array.getElem?_eq_some_iff.mp hi).1
  obtain ⟨raw, hraw, rfl⟩ := lower_cases h
  obtain ⟨op, width, ha, k, hk, hop⟩ := lowerFrom_isJumpTarget hraw (by simp) (Nat.zero_le _)
    (by omega) ht hi
  exact ⟨op, width, _, ha, k, hk, by rw [Array.getElem?_map, hop]; rfl⟩

/-- The target of a handler is a jump target. -/
theorem isJumpTarget_of_handler {h : Handler} (hmem : h ∈ b.handlers) :
    b.isJumpTarget h.target := by
  simp only [isJumpTarget, Bool.or_eq_true, List.any_eq_true]
  exact .inr ⟨h, hmem, beq_self_eq_true _⟩

/-- **A handler that catches** starts with the operation that takes the exception. -/
theorem startsAt_catchInto {l : Lowered} {h : Handler} {dst : Register}
    {position : Option SourcePosition} (hl : b.lower t = .ok l) (hmem : h ∈ b.handlers)
    (hi : b.instructions[h.target.toNat]? = some ⟨.catchInto dst, position⟩) :
    l.StartsAt h.target.toNat (.catchInto dst) := by
  obtain ⟨op, width, resolve, ha, hs⟩ := startsAt_of_isJumpTarget hl (isJumpTarget_of_handler hmem) hi
  obtain ⟨rfl, -⟩ := Prod.mk.inj (Except.ok.inj ha)
  exact hs

end Block

end ScriptMachine
