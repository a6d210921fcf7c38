import ScriptMachine.Number.Binary64
import ScriptMachine.Program.Opcode

/-! # Code blocks

A code block is one function or one program: its instructions and the tables they index, the layout
of its frame, and its nested functions. The second half of the file builds blocks: every building
step returns the index of what it added, and constants and identifiers are shared with equal
ones. -/

namespace ScriptMachine

/-- A position in the text a block was generated from. -/
structure SourcePosition where
  /-- The line, from one. -/
  line : UInt32
  /-- The column, from one. -/
  column : UInt32
deriving DecidableEq, Repr, Inhabited

/-- An instruction with its position, if known. -/
structure Instruction where
  /-- What to do. -/
  opcode : Opcode
  /-- Where it came from. -/
  position : Option SourcePosition := none
deriving DecidableEq, Repr, Inhabited

/-- The line of an instruction, zero when unknown. -/
def Instruction.line (i : Instruction) : UInt32 :=
  match i.position with
  | some position => position.line
  | none => 0

/-- An entry of the constant pool. -/
inductive Constant where
  /-- A number. -/
  | number (n : Binary64)
  /-- A string. -/
  | string (s : String)
  /-- A boolean. -/
  | boolean (b : Bool)
  /-- The null value. -/
  | null
  /-- The undefined value. -/
  | undefined
deriving DecidableEq, Repr, Inhabited

/-- Constants are shared when they are equal as numbers: the two zeros are, and a NaN is not even
equal to itself. -/
instance : BEq Constant where
  beq
    | .number x, .number y => x.eq y
    | .string s, .string t => s == t
    | .boolean a, .boolean b => a == b
    | .null, .null => true
    | .undefined, .undefined => true
    | _, _ => false

/-- An exception handler: a throw from an instruction in `start .. stop` continues at `target` with
`scopeDepth` block scopes left open. -/
structure Handler where
  /-- The first covered instruction. -/
  start : UInt32
  /-- One past the last covered instruction. -/
  stop : UInt32
  /-- The first instruction of the handler. -/
  target : UInt32
  /-- The number of block scopes that stay open. -/
  scopeDepth : UInt32
deriving DecidableEq, Repr, Inhabited

/-- The handler covers an instruction. -/
def Handler.covers (h : Handler) (pc : UInt32) : Bool := h.start ≤ pc && pc < h.stop

/-- A function or program. -/
structure Block where
  /-- The function's name; programs and anonymous functions have none. -/
  name : Option String := none
  /-- The instructions. -/
  instructions : Array Instruction := #[]
  /-- The constant pool. -/
  constants : Array Constant := #[]
  /-- The identifier table. -/
  identifiers : Array String := #[]
  /-- Nested functions. -/
  functions : List Block := []
  /-- The layouts of block scopes, as lists of identifiers. -/
  scopeLayouts : Array (List UInt32) := #[]
  /-- The exception handlers. -/
  handlers : List Handler := []
  /-- The identifier of each variable register, parameters first. -/
  variableIds : Array UInt32 := #[]
  /-- The number of parameters. -/
  paramCount : UInt32 := 0
  /-- The number of parameters and declared variables. -/
  varCount : UInt32 := 0
  /-- The number of registers, temporaries included. -/
  registerCount : UInt32 := 0
  /-- Closures or block scopes capture the variables of the frame. -/
  needsActivation : Bool := false
  /-- The number of property cache sites. -/
  propertyCacheCount : UInt32 := 0
  /-- The number of call cache sites. -/
  callCacheCount : UInt32 := 0
deriving BEq, Repr, Inhabited

namespace Block

/-! ### Lookups -/

/-- The covering handler with the shortest range; of equal ranges the first. -/
def handlerFor? (b : Block) (pc : UInt32) : Option Handler :=
  (b.handlers.filter (·.covers pc)).foldl
    (fun best h => match best with
      | none => some h
      | some g => if h.stop - h.start < g.stop - g.start then some h else some g)
    none

/-- The text of an identifier, empty out of range. -/
def identifier (b : Block) (index : UInt32) : String := b.identifiers[index.toNat]?.getD ""

/-- The line of an instruction, zero when unknown. -/
def lineAt (b : Block) (pc : UInt32) : UInt32 :=
  match b.instructions[pc.toNat]? with
  | some instruction => instruction.line
  | none => 0

/-- The name of a block in messages and listings. -/
def title (b : Block) : String := b.name.getD "<program>"

/-! ### Building -/

/-- Appends an instruction. -/
def emit (b : Block) (opcode : Opcode) (position : Option SourcePosition := none) :
    UInt32 × Block :=
  (b.instructions.size.toUInt32,
   { b with instructions := b.instructions.push ⟨opcode, position⟩ })

/-- The index of the next instruction. -/
def nextPc (b : Block) : UInt32 := b.instructions.size.toUInt32

/-- Points a branch to a target. -/
def patchJump (b : Block) (at_ target : UInt32) : Block :=
  { b with instructions := b.instructions.modify at_.toNat fun i =>
      { i with opcode := i.opcode.withTarget target } }

/-- Adds a constant, or finds an equal one. -/
def addConstant (b : Block) (constant : Constant) : UInt32 × Block :=
  match b.constants.findIdx? (· == constant) with
  | some index => (index.toUInt32, b)
  | none => (b.constants.size.toUInt32, { b with constants := b.constants.push constant })

/-- Adds an identifier, or finds it. -/
def addIdentifier (b : Block) (name : String) : UInt32 × Block :=
  match b.identifiers.findIdx? (· == name) with
  | some index => (index.toUInt32, b)
  | none => (b.identifiers.size.toUInt32, { b with identifiers := b.identifiers.push name })

/-- Adds a nested function. -/
def addFunction (b : Block) (function : Block) : UInt32 × Block :=
  (b.functions.length.toUInt32, { b with functions := b.functions ++ [function] })

/-- Adds identifiers one after the other. -/
def addIdentifiers (b : Block) : List String → List UInt32 × Block
  | [] => ([], b)
  | name :: names =>
    let (index, b) := b.addIdentifier name
    let (indices, b) := b.addIdentifiers names
    (index :: indices, b)

/-- Adds the layout of a block scope. -/
def addScopeLayout (b : Block) (names : List String) : UInt32 × Block :=
  let (layout, b) := b.addIdentifiers names
  (b.scopeLayouts.size.toUInt32, { b with scopeLayouts := b.scopeLayouts.push layout })

/-- Adds an exception handler. -/
def addHandler (b : Block) (handler : Handler) : Block :=
  { b with handlers := b.handlers ++ [handler] }

/-- Declares a variable; variables come before temporaries. -/
def declareVariable (b : Block) (name : String) : Register × Block :=
  let (identifier, b) := b.addIdentifier name
  let varCount := b.varCount + 1
  (b.varCount,
   { b with variableIds := b.variableIds.push identifier, varCount
            registerCount := max b.registerCount varCount })

/-- Reserves consecutive temporaries and returns the first. -/
def reserveTemps (b : Block) (count : UInt32) : Register × Block :=
  (b.registerCount, { b with registerCount := b.registerCount + count })

/-- Reserves a temporary. -/
def reserveTemp (b : Block) : Register × Block := b.reserveTemps 1

/-- Adds a property cache site. -/
def addPropertyCache (b : Block) : UInt32 × Block :=
  (b.propertyCacheCount, { b with propertyCacheCount := b.propertyCacheCount + 1 })

/-- Adds a call cache site. -/
def addCallCache (b : Block) : UInt32 × Block :=
  (b.callCacheCount, { b with callCacheCount := b.callCacheCount + 1 })

/-- An empty function with named parameters. -/
def ofParameters (name : String) (params : List String) : Block :=
  let declared := params.foldl (fun b param => (b.declareVariable param).2)
    ({ name := some name } : Block)
  { declared with paramCount := params.length.toUInt32 }

end Block

end ScriptMachine
