import ScriptMachine.Program.Block
import ScriptMachine.Stub.Routine

/-! # Lowering to tier code

A hot code block is lowered once to a flat list of operations: identifiers become atoms, constants
that are no cells become values, register ranges are spelled out, and branch targets become
positions in the list. A comparison whose result feeds the conditional jump right after it is fused
with that jump, unless something else jumps to the branch. -/

namespace ScriptMachine

/-- Where an argument word of a stub comes from. -/
inductive TierOperand where
  /-- A register, read when the operation runs. -/
  | register (r : Register)
  /-- An interned name. -/
  | atom (a : Atom)
  /-- An integer. -/
  | index (i : UInt32)
deriving DecidableEq, Repr, Inhabited

/-- An operation of tier code. -/
inductive TierOp where
  /-- Stores a value known beforehand. -/
  | loadValue (dst : Register) (value : Value)
  /-- Stores a constant that is a cell. -/
  | loadConstant (dst : Register) (index : UInt32)
  /-- Stores the receiver. -/
  | loadThis (dst : Register)
  /-- Copies a register. -/
  | move (dst src : Register)
  /-- Applies a binary operator. -/
  | binary (op : BinaryOp) (dst lhs rhs : Register)
  /-- Applies a unary operator. -/
  | unary (op : UnaryOp) (dst src : Register)
  /-- Compares and jumps when the result is `sense`; `branchPc` is the jump's own instruction. -/
  | compareAndBranch (op : BinaryOp) (dst lhs rhs : Register) (sense : Bool) (target : Nat)
      (branchPc : UInt32)
  /-- Jumps. -/
  | jump (target : Nat)
  /-- Jumps when the truth of a register is `sense`. -/
  | branch (cond : Register) (sense : Bool) (target : Nat)
  /-- Checks for interruption, then jumps. -/
  | loop (target : Nat)
  /-- Calls a stub. -/
  | stub (routine : Routine) (dst : Option Register) (args : List TierOperand)
  /-- Reads a method and calls it on its base. -/
  | callMethod (dst base : Register) (name : Atom) (propertySite callSite : UInt32)
      (args : List Register)
  /-- Takes the pending exception. -/
  | catchInto (dst : Register)
  /-- Returns. -/
  | ret (src : Register)
deriving DecidableEq, Repr, Inhabited

/-- The operation goes through the stub table. -/
def TierOp.callsStubs : TierOp → Bool
  | .stub .. | .callMethod .. | .loop _ | .binary .. | .unary .. | .compareAndBranch .. => true
  | _ => false

/-- A lowered code block. -/
structure Lowered where
  /-- The operations. -/
  ops : Array TierOp
  /-- The instruction each operation starts at. -/
  opPcs : Array UInt32
  /-- The operation that starts at each instruction, if one does. -/
  pcToOp : Array (Option Nat)
deriving Repr, Inhabited

/-- Why a block cannot be lowered. -/
inductive LoweringFault where
  /-- It has no instructions. -/
  | noInstructions
  /-- An identifier has no atom. -/
  | unknownIdentifier (index : UInt32)
deriving DecidableEq, Repr

/-- What lowering needs to know about the registered code. -/
structure CodeTables where
  /-- The atom of an identifier. -/
  identifier : UInt32 → Option Atom
  /-- The value of a constant. -/
  constant : UInt32 → Value

/-- Consecutive registers; the end is taken in 32-bit arithmetic, and an end below the start gives
none. -/
def registerList (first : Register) (count : UInt32) : List Register :=
  (List.range ((first + count).toNat - first.toNat)).map fun i => first + i.toUInt32

namespace Block

/-- The instructions something jumps to. -/
def isJumpTarget (b : Block) (pc : UInt32) : Bool :=
  b.instructions.any (fun i => i.opcode.jumpTarget? == some pc)
    || b.handlers.any fun h => h.target == pc

/-- A comparison fused with the branch after it: the sense and target of the branch. -/
def fusedBranch? (b : Block) (pc : Nat) (dst : Register) : Option (Bool × UInt32) :=
  match b.instructions[pc + 1]? with
  | some ⟨.jumpIf sense cond target, _⟩ =>
    if cond == dst && !b.isJumpTarget (pc + 1).toUInt32 then some (sense, target) else none
  | _ => none

/-- The operation of one instruction; branch targets are still instructions. -/
def lowerOpcode (t : CodeTables) : Opcode → Except LoweringFault TierOp
  | .loadConst dst index =>
    let value := t.constant index
    .ok (if value.isCell then .loadConstant dst index else .loadValue dst value)
  | .loadUndefined dst => .ok (.loadValue dst .undefined)
  | .loadNull dst => .ok (.loadValue dst .null)
  | .loadBool dst value => .ok (.loadValue dst (.boolean value))
  | .loadThis dst => .ok (.loadThis dst)
  | .move dst src => .ok (.move dst src)
  | .binary op dst lhs rhs => .ok (.binary op dst lhs rhs)
  | .unary op dst src => .ok (.unary op dst src)
  | .jump target => .ok (.jump target.toNat)
  | .jumpIf sense cond target => .ok (.branch cond sense target.toNat)
  | .loop target => .ok (.loop target.toNat)
  | .newObject dst => .ok (.stub .newObject dst [])
  | .newArray dst first count =>
    .ok (.stub .newArray dst ((registerList first count).map .register))
  | .getById dst base name cache => do
    .ok (.stub .getById dst [.register base, .atom (← atom name), .index cache])
  | .putById base name value cache => do
    .ok (.stub .putById none [.register base, .atom (← atom name), .register value, .index cache])
  | .getByVal dst base key => .ok (.stub .getByVal dst [.register base, .register key])
  | .putByVal base key value =>
    .ok (.stub .putByVal none [.register base, .register key, .register value])
  | .deleteById dst base name => do
    .ok (.stub .deleteById dst [.register base, .atom (← atom name)])
  | .hasProperty dst key base => .ok (.stub .hasProperty dst [.register key, .register base])
  | .instanceOf dst value constructor =>
    .ok (.stub .instanceOf dst [.register value, .register constructor])
  | .getGlobal dst name cache => do
    .ok (.stub .getGlobal dst [.atom (← atom name), .index cache])
  | .putGlobal name value cache => do
    .ok (.stub .putGlobal none [.atom (← atom name), .register value, .index cache])
  | .pushScope layout => .ok (.stub .pushScope none [.index layout])
  | .popScope => .ok (.stub .popScope none [])
  | .getScopedVar dst depth index => .ok (.stub .getScopedVar dst [.index depth, .index index])
  | .putScopedVar depth index value =>
    .ok (.stub .putScopedVar none [.index depth, .index index, .register value])
  | .resolveName dst name => do .ok (.stub .resolve dst [.atom (← atom name)])
  | .argumentsObject dst => .ok (.stub .argumentsObject dst [])
  | .newFunction dst function => .ok (.stub .newFunction dst [.index function])
  | .call dst callee this firstArg argc cache =>
    .ok (.stub .call dst ([.register callee, .register this, .index cache]
      ++ (registerList firstArg argc).map .register))
  | .callMethod dst base name firstArg argc propertyCache cache => do
    .ok (.callMethod dst base (← atom name) propertyCache cache (registerList firstArg argc))
  | .construct dst callee firstArg argc cache =>
    .ok (.stub .construct dst ([.register callee, .index cache]
      ++ (registerList firstArg argc).map .register))
  | .ret src => .ok (.ret src)
  | .throw src => .ok (.stub .throw none [.register src])
  | .catchInto dst => .ok (.catchInto dst)
  | .debug line => .ok (.stub .debugStatement none [.index line])
where
  /-- The atom of an identifier. -/
  atom (index : UInt32) : Except LoweringFault Atom :=
    match t.identifier index with
    | some atom => .ok atom
    | none => .error (.unknownIdentifier index)

/-- The operation that starts at an instruction, and the number of instructions it stands for. -/
def lowerAt (b : Block) (t : CodeTables) (pc : Nat) (opcode : Opcode) :
    Except LoweringFault (TierOp × Nat) :=
  match opcode with
  | .binary op dst lhs rhs =>
    match if op.isComparison then b.fusedBranch? pc dst else none with
    | some (sense, target) =>
      .ok (.compareAndBranch op dst lhs rhs sense target.toNat (pc + 1).toUInt32, 2)
    | none => .ok (.binary op dst lhs rhs, 1)
  | opcode => (lowerOpcode t opcode).map fun op => (op, 1)

/-- Lowers the instructions from `pc` on, at most `fuel` operations of them. -/
def lowerFrom (b : Block) (t : CodeTables) : Nat → Nat → Lowered → Except LoweringFault Lowered
  | 0, _, acc => .ok acc
  | fuel + 1, pc, acc =>
    match b.instructions[pc]? with
    | none => .ok acc
    | some instruction => do
      let (op, width) ← b.lowerAt t pc instruction.opcode
      b.lowerFrom t fuel (pc + width)
        { ops := acc.ops.push op
          opPcs := acc.opPcs.push pc.toUInt32
          pcToOp := acc.pcToOp.setIfInBounds pc (some acc.ops.size) }

/-- Turns the target of a branch from an instruction into an operation. -/
def resolveTarget (resolve : Nat → Nat) : TierOp → TierOp
  | .jump target => .jump (resolve target)
  | .branch cond sense target => .branch cond sense (resolve target)
  | .loop target => .loop (resolve target)
  | .compareAndBranch op dst lhs rhs sense target branchPc =>
    .compareAndBranch op dst lhs rhs sense (resolve target) branchPc
  | op => op

/-- **Lowers** a code block. -/
def lower (b : Block) (t : CodeTables) : Except LoweringFault Lowered :=
  let count := b.instructions.size
  if count = 0 then .error .noInstructions
  else do
    let lowered ← b.lowerFrom t count 0 ⟨#[], #[], Array.replicate count none⟩
    let resolve (pc : Nat) : Nat := (lowered.pcToOp.getD pc none).getD lowered.ops.size
    return { lowered with ops := lowered.ops.map (resolveTarget resolve) }

end Block

/-! ### Listings -/

/-- A name of an optional register in a listing. -/
def optionText (text : α → String) : Option α → String
  | some a => "Some(" ++ text a ++ ")"
  | none => "None"

/-- A list in a listing. -/
def listText (items : List String) : String := "[" ++ ", ".intercalate items ++ "]"

/-- An atom in a listing. -/
def Atom.listingText (a : Atom) : String := "Atom(" ++ toString a.index.toNat ++ ")"

/-- An operand in a listing. -/
def TierOperand.listingText : TierOperand → String
  | .register r => "Register(" ++ toString r.toNat ++ ")"
  | .atom a => "Atom(" ++ a.listingText ++ ")"
  | .index i => "Index(" ++ toString i.toNat ++ ")"

/-- An operation in a listing. -/
def TierOp.listingText : TierOp → String
  | .loadValue dst value =>
    Opcode.recordText "LoadValue" [("dst", word dst), ("value", value.listingText)]
  | .loadConstant dst index =>
    Opcode.recordText "LoadConstant" [("dst", word dst), ("index", word index)]
  | .loadThis dst => Opcode.recordText "LoadThis" [("dst", word dst)]
  | .move dst src => Opcode.recordText "Move" [("dst", word dst), ("src", word src)]
  | .binary op dst lhs rhs =>
    Opcode.recordText "Binary"
      [("op", op.name), ("dst", word dst), ("lhs", word lhs), ("rhs", word rhs)]
  | .unary op dst src =>
    Opcode.recordText "Unary" [("op", op.name), ("dst", word dst), ("src", word src)]
  | .compareAndBranch op dst lhs rhs sense target branchPc =>
    Opcode.recordText "CompareAndBranch"
      [("op", op.name), ("dst", word dst), ("lhs", word lhs), ("rhs", word rhs),
       ("when", flag sense), ("target", toString target), ("branch_pc", word branchPc)]
  | .jump target => Opcode.recordText "Jump" [("target", toString target)]
  | .branch cond sense target =>
    Opcode.recordText "Branch"
      [("cond", word cond), ("when", flag sense), ("target", toString target)]
  | .loop target => Opcode.recordText "Loop" [("target", toString target)]
  | .stub routine dst args =>
    Opcode.recordText "Stub"
      [("id", routine.name), ("dst", optionText word dst),
       ("args", listText (args.map TierOperand.listingText))]
  | .callMethod dst base name propertySite callSite args =>
    Opcode.recordText "CallMethod"
      [("dst", word dst), ("base", word base), ("name", name.listingText),
       ("property_site", word propertySite), ("call_site", word callSite),
       ("args", listText (args.map word))]
  | .catchInto dst => Opcode.recordText "Catch" [("dst", word dst)]
  | .ret src => Opcode.recordText "Return" [("src", word src)]
where
  /-- A word in decimal. -/
  word (w : UInt32) : String := toString w.toNat
  /-- A boolean. -/
  flag (b : Bool) : String := if b then "true" else "false"

/-- A fault in a listing. -/
def LoweringFault.listingText : LoweringFault → String
  | .noInstructions => "Empty"
  | .unknownIdentifier index => "UnknownIdentifier(" ++ toString index.toNat ++ ")"

end ScriptMachine
