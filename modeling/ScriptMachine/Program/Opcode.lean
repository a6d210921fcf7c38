import ScriptMachine.Program.Operator

/-! # Instructions

The machine is a register machine. Registers are numbered within a frame: parameters first, then
declared variables, then temporaries. Other operands are indices into the tables of a code block,
and a jump target is the index of an instruction.

`Opcode.fields` lists the operands of an instruction under their names, which fixes both its written
form and its place in a listing; `Opcode.operands` says what each operand points into, which is what
validation checks. -/

namespace ScriptMachine

/-- A register of the running frame. -/
abbrev Register := UInt32

/-- An instruction of the machine. -/
inductive Opcode where
  /-- Loads a constant of the pool. -/
  | loadConst (dst : Register) (index : UInt32)
  /-- Loads undefined. -/
  | loadUndefined (dst : Register)
  /-- Loads null. -/
  | loadNull (dst : Register)
  /-- Loads a boolean. -/
  | loadBool (dst : Register) (value : Bool)
  /-- Loads the receiver of the frame. -/
  | loadThis (dst : Register)
  /-- Copies a register. -/
  | move (dst src : Register)
  /-- Applies a binary operator. -/
  | binary (op : BinaryOp) (dst lhs rhs : Register)
  /-- Applies a unary operator. -/
  | unary (op : UnaryOp) (dst src : Register)
  /-- Jumps. -/
  | jump (target : UInt32)
  /-- Jumps when the truth of `cond` is `sense`. -/
  | jumpIf (sense : Bool) (cond : Register) (target : UInt32)
  /-- Jumps back, after a check for interruption. -/
  | loop (target : UInt32)
  /-- Allocates an empty object. -/
  | newObject (dst : Register)
  /-- Allocates an array of `count` consecutive registers. -/
  | newArray (dst first : Register) (count : UInt32)
  /-- Reads a named property. -/
  | getById (dst base : Register) (name cache : UInt32)
  /-- Writes a named property. -/
  | putById (base : Register) (name : UInt32) (value : Register) (cache : UInt32)
  /-- Reads a computed property. -/
  | getByVal (dst base key : Register)
  /-- Writes a computed property. -/
  | putByVal (base key value : Register)
  /-- Deletes a named property. -/
  | deleteById (dst base : Register) (name : UInt32)
  /-- Asks whether a key is a property. -/
  | hasProperty (dst key base : Register)
  /-- Asks whether a value was made by a constructor. -/
  | instanceOf (dst value constructor : Register)
  /-- Reads a global, which must exist. -/
  | getGlobal (dst : Register) (name cache : UInt32)
  /-- Writes a global. -/
  | putGlobal (name : UInt32) (value : Register) (cache : UInt32)
  /-- Opens a block scope. -/
  | pushScope (layout : UInt32)
  /-- Closes the innermost block scope. -/
  | popScope
  /-- Reads a slot of the scope record `depth` links up the chain. -/
  | getScopedVar (dst : Register) (depth index : UInt32)
  /-- Writes a slot of the scope record `depth` links up the chain. -/
  | putScopedVar (depth index : UInt32) (value : Register)
  /-- Looks a name up in scopes, variables and globals. -/
  | resolveName (dst : Register) (name : UInt32)
  /-- Makes the arguments object. -/
  | argumentsObject (dst : Register)
  /-- Makes a closure over the current scope chain. -/
  | newFunction (dst : Register) (function : UInt32)
  /-- Calls a function. -/
  | call (dst callee this firstArg : Register) (argc cache : UInt32)
  /-- Calls a method, its base being the receiver. -/
  | callMethod (dst base : Register) (name : UInt32) (firstArg : Register)
      (argc propertyCache cache : UInt32)
  /-- Calls a function as a constructor. -/
  | construct (dst callee firstArg : Register) (argc cache : UInt32)
  /-- Returns to the caller. -/
  | ret (src : Register)
  /-- Throws. -/
  | throw (src : Register)
  /-- Takes the pending exception; the first instruction of a handler. -/
  | catchInto (dst : Register)
  /-- Marks a statement for listeners. -/
  | debug (line : UInt32)
deriving DecidableEq, Repr, Inhabited

/-- A written operand: a word, or a flag. -/
inductive Field where
  /-- A 32-bit word. -/
  | word (w : UInt32)
  /-- A boolean. -/
  | flag (b : Bool)
deriving DecidableEq, Repr

/-- What an operand points into. -/
inductive Operand where
  /-- A register. -/
  | register (r : Register)
  /-- `count` consecutive registers. -/
  | registerRange (first : Register) (count : UInt32)
  /-- An entry of the constant pool. -/
  | constant (index : UInt32)
  /-- An entry of the identifier table. -/
  | identifier (index : UInt32)
  /-- A nested function. -/
  | function (index : UInt32)
  /-- A scope layout. -/
  | scopeLayout (index : UInt32)
  /-- A property cache site. -/
  | propertyCache (index : UInt32)
  /-- A call cache site. -/
  | callCache (index : UInt32)
  /-- An instruction. -/
  | target (index : UInt32)
deriving DecidableEq, Repr

namespace Opcode

/-- The name of an instruction in programs and listings. -/
def name : Opcode → String
  | .loadConst .. => "LoadConst"
  | .loadUndefined .. => "LoadUndefined"
  | .loadNull .. => "LoadNull"
  | .loadBool .. => "LoadBool"
  | .loadThis .. => "LoadThis"
  | .move .. => "Move"
  | .binary op .. => op.name
  | .unary op .. => op.name
  | .jump .. => "Jump"
  | .jumpIf true .. => "JumpIfTrue"
  | .jumpIf false .. => "JumpIfFalse"
  | .loop .. => "Loop"
  | .newObject .. => "NewObject"
  | .newArray .. => "NewArray"
  | .getById .. => "GetById"
  | .putById .. => "PutById"
  | .getByVal .. => "GetByVal"
  | .putByVal .. => "PutByVal"
  | .deleteById .. => "DeleteById"
  | .hasProperty .. => "In"
  | .instanceOf .. => "InstanceOf"
  | .getGlobal .. => "GetGlobal"
  | .putGlobal .. => "PutGlobal"
  | .pushScope .. => "PushScope"
  | .popScope => "PopScope"
  | .getScopedVar .. => "GetScopedVar"
  | .putScopedVar .. => "PutScopedVar"
  | .resolveName .. => "ResolveName"
  | .argumentsObject .. => "ArgumentsObject"
  | .newFunction .. => "NewFunction"
  | .call .. => "Call"
  | .callMethod .. => "CallMethod"
  | .construct .. => "Construct"
  | .ret .. => "Return"
  | .throw .. => "Throw"
  | .catchInto .. => "Catch"
  | .debug .. => "Debug"

/-- The operands of an instruction under their names, in written order. -/
def fields : Opcode → List (String × Field)
  | .loadConst dst index => [("dst", .word dst), ("index", .word index)]
  | .loadUndefined dst | .loadNull dst | .loadThis dst | .newObject dst | .argumentsObject dst
  | .catchInto dst => [("dst", .word dst)]
  | .loadBool dst value => [("dst", .word dst), ("value", .flag value)]
  | .move dst src | .unary _ dst src => [("dst", .word dst), ("src", .word src)]
  | .binary _ dst lhs rhs => [("dst", .word dst), ("lhs", .word lhs), ("rhs", .word rhs)]
  | .jump target | .loop target => [("target", .word target)]
  | .jumpIf _ cond target => [("cond", .word cond), ("target", .word target)]
  | .newArray dst first count =>
    [("dst", .word dst), ("first", .word first), ("count", .word count)]
  | .getById dst base name cache =>
    [("dst", .word dst), ("base", .word base), ("name", .word name), ("cache", .word cache)]
  | .putById base name value cache =>
    [("base", .word base), ("name", .word name), ("value", .word value), ("cache", .word cache)]
  | .getByVal dst base key => [("dst", .word dst), ("base", .word base), ("key", .word key)]
  | .putByVal base key value =>
    [("base", .word base), ("key", .word key), ("value", .word value)]
  | .deleteById dst base name =>
    [("dst", .word dst), ("base", .word base), ("name", .word name)]
  | .hasProperty dst key base => [("dst", .word dst), ("key", .word key), ("base", .word base)]
  | .instanceOf dst value constructor =>
    [("dst", .word dst), ("value", .word value), ("constructor", .word constructor)]
  | .getGlobal dst name cache =>
    [("dst", .word dst), ("name", .word name), ("cache", .word cache)]
  | .putGlobal name value cache =>
    [("name", .word name), ("value", .word value), ("cache", .word cache)]
  | .pushScope layout => [("layout", .word layout)]
  | .popScope => []
  | .getScopedVar dst depth index =>
    [("dst", .word dst), ("depth", .word depth), ("index", .word index)]
  | .putScopedVar depth index value =>
    [("depth", .word depth), ("index", .word index), ("value", .word value)]
  | .resolveName dst name => [("dst", .word dst), ("name", .word name)]
  | .newFunction dst function => [("dst", .word dst), ("function", .word function)]
  | .call dst callee this firstArg argc cache =>
    [("dst", .word dst), ("callee", .word callee), ("this", .word this),
     ("first_arg", .word firstArg), ("argc", .word argc), ("cache", .word cache)]
  | .callMethod dst base name firstArg argc propertyCache cache =>
    [("dst", .word dst), ("base", .word base), ("name", .word name),
     ("first_arg", .word firstArg), ("argc", .word argc),
     ("property_cache", .word propertyCache), ("cache", .word cache)]
  | .construct dst callee firstArg argc cache =>
    [("dst", .word dst), ("callee", .word callee), ("first_arg", .word firstArg),
     ("argc", .word argc), ("cache", .word cache)]
  | .ret src | .throw src => [("src", .word src)]
  | .debug line => [("line", .word line)]

/-- What the operands of an instruction point into, in the order in which they are checked. -/
def operands : Opcode → List Operand
  | .loadConst dst index => [.register dst, .constant index]
  | .loadUndefined dst | .loadNull dst | .loadBool dst _ | .loadThis dst | .newObject dst
  | .argumentsObject dst | .catchInto dst => [.register dst]
  | .move dst src | .unary _ dst src => [.register dst, .register src]
  | .binary _ dst lhs rhs => [.register dst, .register lhs, .register rhs]
  | .jump target | .loop target => [.target target]
  | .jumpIf _ cond target => [.register cond, .target target]
  | .newArray dst first count => [.register dst, .registerRange first count]
  | .getById dst base name cache =>
    [.register dst, .register base, .identifier name, .propertyCache cache]
  | .putById base name value cache =>
    [.register base, .identifier name, .register value, .propertyCache cache]
  | .getByVal dst base key => [.register dst, .register base, .register key]
  | .putByVal base key value => [.register base, .register key, .register value]
  | .deleteById dst base name => [.register dst, .register base, .identifier name]
  | .hasProperty dst key base => [.register dst, .register key, .register base]
  | .instanceOf dst value constructor =>
    [.register dst, .register value, .register constructor]
  | .getGlobal dst name cache => [.register dst, .identifier name, .propertyCache cache]
  | .putGlobal name value cache => [.identifier name, .register value, .propertyCache cache]
  | .pushScope layout => [.scopeLayout layout]
  | .popScope | .debug _ => []
  | .getScopedVar dst _ _ => [.register dst]
  | .putScopedVar _ _ value => [.register value]
  | .resolveName dst name => [.register dst, .identifier name]
  | .newFunction dst function => [.register dst, .function function]
  | .call dst callee this firstArg argc cache =>
    [.register dst, .register callee, .register this, .registerRange firstArg argc,
     .callCache cache]
  | .callMethod dst base name firstArg argc propertyCache cache =>
    [.register dst, .register base, .identifier name, .registerRange firstArg argc,
     .propertyCache propertyCache, .callCache cache]
  | .construct dst callee firstArg argc cache =>
    [.register dst, .register callee, .registerRange firstArg argc, .callCache cache]
  | .ret src | .throw src => [.register src]

/-- The target of a branch. -/
def jumpTarget? : Opcode → Option UInt32
  | .jump target | .loop target | .jumpIf _ _ target => some target
  | _ => none

/-- Control never falls through to the next instruction. -/
def isTerminator : Opcode → Bool
  | .jump _ | .loop _ | .ret _ | .throw _ => true
  | _ => false

/-- The branch with another target; other instructions stay as they are. -/
def withTarget (target : UInt32) : Opcode → Opcode
  | .jump _ => .jump target
  | .loop _ => .loop target
  | .jumpIf sense cond _ => .jumpIf sense cond target
  | op => op

/-! ### Listings -/

/-- A written operand. -/
def fieldText : Field → String
  | .word w => toString w.toNat
  | .flag b => if b then "true" else "false"

/-- A record in a listing: its name and its members between braces, or the bare name. -/
def recordText (name : String) (members : List (String × String)) : String :=
  if members.isEmpty then name
  else name ++ " \x7b " ++ ", ".intercalate (members.map fun (key, value) => key ++ ": " ++ value)
    ++ " \x7d"

/-- The instruction in a listing. -/
def listingText (op : Opcode) : String :=
  recordText op.name (op.fields.map fun (key, field) => (key, fieldText field))

end Opcode

/-- An operand in a listing. -/
def Operand.listingText : Operand → String
  | .register r => "Register(" ++ toString r.toNat ++ ")"
  | .registerRange first count =>
    "RegisterRange(" ++ toString first.toNat ++ ", " ++ toString count.toNat ++ ")"
  | .constant i => "Constant(" ++ toString i.toNat ++ ")"
  | .identifier i => "Identifier(" ++ toString i.toNat ++ ")"
  | .function i => "Function(" ++ toString i.toNat ++ ")"
  | .scopeLayout i => "ScopeLayout(" ++ toString i.toNat ++ ")"
  | .propertyCache i => "PropertyCache(" ++ toString i.toNat ++ ")"
  | .callCache i => "CallCache(" ++ toString i.toNat ++ ")"
  | .target i => "Target(" ++ toString i.toNat ++ ")"

end ScriptMachine
