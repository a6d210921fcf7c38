import ScriptMachine.Program.Block

/-! # Validation of code blocks

`Block.validate` checks the frame layout, every operand, every branch target and every handler of a
block, and then of its nested functions; it reports the first defect. Register ranges are checked at
both ends, in 32-bit arithmetic. -/

namespace ScriptMachine

/-- Why a block is refused. -/
inductive Defect where
  /-- A register operand lies outside the frame. -/
  | registerOutOfRange (function : String) (pc register limit : UInt32)
  /-- An index lies outside its table. -/
  | indexOutOfRange (function : String) (pc : UInt32) (table : String) (index len : UInt32)
  /-- A branch or handler leaves the block. -/
  | badJumpTarget (function : String) (target : UInt32)
  /-- Control can run past the last instruction. -/
  | missingTerminator (function : String)
  /-- The counts of the frame disagree. -/
  | badFrameLayout (function detail : String)
deriving DecidableEq, Repr

namespace Defect

/-- The name of the kind of defect. -/
def name : Defect → String
  | .registerOutOfRange .. => "RegisterOutOfRange"
  | .indexOutOfRange .. => "IndexOutOfRange"
  | .badJumpTarget .. => "BadJumpTarget"
  | .missingTerminator _ => "MissingTerminator"
  | .badFrameLayout .. => "BadFrameLayout"

/-- What a defect says. -/
def message : Defect → String
  | .registerOutOfRange function pc register limit =>
    function ++ ": instruction " ++ toString pc.toNat ++ " uses register "
      ++ toString register.toNat ++ " but the frame has " ++ toString limit.toNat
  | .indexOutOfRange function pc table index len =>
    function ++ ": instruction " ++ toString pc.toNat ++ " references " ++ table ++ " entry "
      ++ toString index.toNat ++ " of " ++ toString len.toNat
  | .badJumpTarget function target =>
    function ++ ": jump target " ++ toString target.toNat ++ " out of range"
  | .missingTerminator function =>
    function ++ ": control falls off the end of the code block"
  | .badFrameLayout function detail =>
    function ++ ": inconsistent frame layout (" ++ detail ++ ")"

end Defect

namespace Block

/-- The index lies inside a table. -/
def checkIndex (b : Block) (pc : UInt32) (table : String) (index : UInt32) (len : Nat) :
    Except Defect Unit :=
  if index.toNat < len then .ok ()
  else .error (.indexOutOfRange b.title pc table index len.toUInt32)

/-- The register lies inside the frame. -/
def checkRegister (b : Block) (pc register : UInt32) : Except Defect Unit :=
  if register < b.registerCount then .ok ()
  else .error (.registerOutOfRange b.title pc register b.registerCount)

/-- The target is an instruction of the block. -/
def checkTarget (b : Block) (target : UInt32) : Except Defect Unit :=
  if target.toNat < b.instructions.size then .ok () else .error (.badJumpTarget b.title target)

/-- The counts of the frame agree. -/
def checkFrame (b : Block) : Except Defect Unit :=
  if b.paramCount ≤ b.varCount && b.varCount ≤ b.registerCount
      && b.variableIds.size.toUInt32 == b.varCount then .ok ()
  else .error (.badFrameLayout b.title
    ("params " ++ toString b.paramCount.toNat ++ ", vars " ++ toString b.varCount.toNat
      ++ ", registers " ++ toString b.registerCount.toNat ++ ", named variables "
      ++ toString b.variableIds.size))

/-- Control cannot run past the last instruction. -/
def checkEnd (b : Block) : Except Defect Unit :=
  match b.instructions.back? with
  | some last => if last.opcode.isTerminator then .ok () else .error (.missingTerminator b.title)
  | none => .error (.missingTerminator b.title)

/-- The operand points into its table. -/
def checkOperand (b : Block) (pc : UInt32) : Operand → Except Defect Unit
  | .register r => b.checkRegister pc r
  | .registerRange first count =>
    if count > 0 then do
      b.checkRegister pc first
      b.checkRegister pc (first + count - 1)
    else .ok ()
  | .constant i => b.checkIndex pc "constant" i b.constants.size
  | .identifier i => b.checkIndex pc "identifier" i b.identifiers.size
  | .function i => b.checkIndex pc "function" i b.functions.length
  | .scopeLayout i => b.checkIndex pc "scope layout" i b.scopeLayouts.size
  | .propertyCache i => b.checkIndex pc "property cache" i b.propertyCacheCount.toNat
  | .callCache i => b.checkIndex pc "call cache" i b.callCacheCount.toNat
  | .target i => b.checkTarget i

/-- The handler covers and enters instructions of the block. -/
def checkHandler (b : Block) (h : Handler) : Except Defect Unit :=
  if h.start ≤ h.stop && h.stop.toNat ≤ b.instructions.size then b.checkTarget h.target
  else .error (.badJumpTarget b.title h.stop)

/-- Everything of a block but its nested functions. -/
def checkOwn (b : Block) : Except Defect Unit := do
  b.checkFrame
  b.variableIds.toList.forM fun i => b.checkIndex 0 "identifier" i b.identifiers.size
  b.scopeLayouts.toList.forM fun layout =>
    layout.forM fun i => b.checkIndex 0 "identifier" i b.identifiers.size
  b.checkEnd
  b.instructions.toList.zipIdx.forM fun (instruction, pc) =>
    instruction.opcode.operands.forM (b.checkOperand pc.toUInt32)
  b.handlers.forM b.checkHandler

mutual

/-- **Validation**: the first defect of a block or of a function nested in it. -/
def validate : Block → Except Defect Unit
  | ⟨name, instructions, constants, identifiers, functions, scopeLayouts, handlers, variableIds,
      paramCount, varCount, registerCount, needsActivation, propertyCacheCount,
      callCacheCount⟩ => do
    checkOwn ⟨name, instructions, constants, identifiers, functions, scopeLayouts, handlers,
      variableIds, paramCount, varCount, registerCount, needsActivation, propertyCacheCount,
      callCacheCount⟩
    validateAll functions

/-- The first defect of a list of blocks. -/
def validateAll : List Block → Except Defect Unit
  | [] => .ok ()
  | b :: bs => do
    b.validate
    validateAll bs

end

/-- A block is checked by itself before its nested functions. -/
theorem validate_eq (b : Block) :
    b.validate = (do b.checkOwn; validateAll b.functions) := by
  cases b
  rw [validate]

end Block

end ScriptMachine
