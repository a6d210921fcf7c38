import ScriptMachine.Heap.Cell
import ScriptMachine.Program.Opcode

/-! # Frames and registers

All frames share one register file; each frame owns a window of it. A frame remembers where it is,
what it was called with and its scope chain. Once its variables have been moved to a scope record on
the heap, its variable registers are read and written there. -/

namespace ScriptMachine

/-- The registers of all frames. -/
structure RegisterFile where
  /-- The registers in use. -/
  registers : Array Value := #[]
  /-- The number of registers that frames may use in all. -/
  capacity : Nat
deriving Repr, Inhabited

namespace RegisterFile

/-- The number of registers in use. -/
def size (f : RegisterFile) : Nat := f.registers.size

/-- So many more registers fit. -/
def hasRoom (f : RegisterFile) (count : Nat) : Bool := f.registers.size + count ≤ f.capacity

/-- Takes registers, all undefined; the first one is at the old size. -/
def grow (f : RegisterFile) (count : Nat) : RegisterFile :=
  { f with registers := f.registers ++ Array.replicate count Value.undefined }

/-- Gives back the registers from `base` on. -/
def truncate (f : RegisterFile) (base : Nat) : RegisterFile :=
  { f with registers := f.registers.shrink base }

/-- The value of a register, undefined when it is not in use. -/
def get (f : RegisterFile) (index : Nat) : Value := f.registers.getD index .undefined

/-- Writes a register in use. -/
def set (f : RegisterFile) (index : Nat) (value : Value) : RegisterFile :=
  { f with registers := f.registers.setIfInBounds index value }

end RegisterFile

/-- A running or suspended call of a script function. -/
structure Frame where
  /-- The code. -/
  code : CodeId
  /-- The next instruction; while an instruction or a callee runs, one past it. -/
  pc : UInt32
  /-- The first register of the frame. -/
  base : Nat
  /-- The number of registers of the frame. -/
  registerCount : UInt32
  /-- The number of variable registers. -/
  varCount : UInt32
  /-- The register of the caller that gets the result. -/
  returnRegister : Option Register
  /-- The number of arguments passed, fewer than `2 ^ 32`. -/
  argc : Nat
  /-- The arguments beyond the declared parameters. -/
  extraArgs : Array Value
  /-- The function. -/
  callee : Value
  /-- The receiver. -/
  this : Value
  /-- The head of the scope chain. -/
  scope : Option Handle
  /-- The record that holds the variables, once they have been moved to the heap. -/
  activation : Option Handle
  /-- The number of open block scopes. -/
  scopeDepth : UInt32
  /-- The call constructs an object. -/
  isConstruct : Bool
  /-- Returning from the frame leaves the running loop. -/
  entryBoundary : Bool
deriving Repr, Inhabited

/-- The record that holds a register, if the register is a variable that has been moved to the
heap. -/
def Frame.redirects (f : Frame) (register : Register) : Option Handle :=
  if register < f.varCount then f.activation else none

end ScriptMachine
