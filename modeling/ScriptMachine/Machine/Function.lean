import ScriptMachine.Machine.Scope

/-! # Functions

A function is a cell with a call target and the scope chain it closes over. A function made of
script code gets a fresh prototype object, which names the function as its constructor. -/

namespace ScriptMachine

/-- A new function. -/
def newFunctionCell (target : CallTarget) (scope : Option Handle) (name : Option Atom)
    (arity : UInt32) : MachineM Handle := do
  let function ← allocate (← get).intrinsics.functionShape
    (.function { target, scope, name, arity })
  match target with
  | .host _ => return function
  | .script _ =>
    let prototype ← newObject
    checkpoint [.cell function, prototype]
    let names := (← get).names
    let hidden : Attributes := { dontEnum := true }
    if let some id := prototype.cell? then
      runHeap (Heap.defineProperty id names.constructor (.cell function) hidden)
    runHeap (Heap.defineProperty function names.prototype prototype hidden)
    return function

/-- Interns a name that may be missing. -/
def internOption : Option String → MachineM (Option Atom)
  | some name => return some (← intern name)
  | none => return none

/-- **A closure** of a nested function over the scope chain of the running frame. -/
def newClosure (template : UInt32) : MachineM Value := do
  tearOffIfNeeded
  let f ← currentFrame
  let m ← get
  let nested := match m.code? f.code with
    | some entry => entry.functions[template.toNat]?
    | none => none
  match nested with
  | none =>
    fatal (.invalidBytecode ("function template " ++ toString template.toNat ++ " out of range"))
  | some code =>
    let (name, arity) := match m.code? code with
      | some entry => (entry.block.name, entry.block.paramCount)
      | none => (none, 0)
    let name ← internOption name
    return .cell (← newFunctionCell (.script code) f.scope name arity)

end ScriptMachine
