import ScriptMachine.Machine.Raise

/-! # Registers and scopes

A frame keeps its parameters and variables in registers until something can capture them. Then they
move to a scope record on the heap, once, and the frame reads and writes them there, so that it
shares them with its closures. Block scopes are further records in front of it. -/

namespace ScriptMachine

namespace Machine

/-! ### Registers -/

/-- The scope record a handle names. -/
def scopeRecord? (m : Machine) (id : Handle) : Option ScopeRecord :=
  match m.heap.cell? id with
  | some cell => cell.scope?
  | none => none

/-- A slot of a scope record, undefined when there is none. -/
def scopeSlot (m : Machine) (id : Handle) (index : Nat) : Value :=
  match m.scopeRecord? id with
  | some scope => scope.slots.getD index .undefined
  | none => .undefined

/-- Writes a slot of a scope record. -/
def setScopeSlot (m : Machine) (id : Handle) (index : Nat) (value : Value) : Machine :=
  { m with heap := m.heap.modifyCell id (Cell.mapScope fun scope =>
      { scope with slots := scope.slots.setIfInBounds index value }) }

/-- **Reads a register** of the running frame. -/
def register (m : Machine) (r : Register) : Value :=
  match m.frame? with
  | none => .undefined
  | some f =>
    match f.redirects r with
    | some activation => m.scopeSlot activation r.toNat
    | none => m.registers.get (f.base + r.toNat)

/-- **Writes a register** of the running frame. -/
def setRegister (m : Machine) (r : Register) (value : Value) : Machine :=
  match m.frame? with
  | none => m
  | some f =>
    match f.redirects r with
    | some activation => m.setScopeSlot activation r.toNat value
    | none => { m with registers := m.registers.set (f.base + r.toNat) value }

/-- Continues the running frame somewhere else. -/
def setPc (m : Machine) (pc : UInt32) : Machine := m.modifyFrame fun f => { f with pc }

/-! ### Scope chains -/

/-- The scope record `depth` links up from a scope. -/
def scopeUp? (m : Machine) : Nat → Option Handle → Option Handle
  | 0, scope => scope
  | depth + 1, scope =>
    match scope with
    | none => none
    | some id =>
      match m.scopeRecord? id with
      | some record => m.scopeUp? depth record.parent
      | none => none

/-- The links a walk up a scope chain needs: no chain is longer than the heap. -/
def scopeWalk (m : Machine) (depth : UInt32) : Nat := min depth.toNat (m.heap.slots.size + 1)

/-- The scope record `depth` links up from the running frame. -/
def scopeAt? (m : Machine) (depth : UInt32) : Option Handle :=
  match m.frame? with
  | some f => m.scopeUp? (m.scopeWalk depth) f.scope
  | none => none

/-- A slot of the scope record `depth` links up. -/
def scopedVar (m : Machine) (depth index : UInt32) : Value :=
  match m.scopeAt? depth with
  | some scope => m.scopeSlot scope index.toNat
  | none => .undefined

/-- Writes a slot of the scope record `depth` links up. -/
def setScopedVar (m : Machine) (depth index : UInt32) (value : Value) : Machine :=
  match m.scopeAt? depth with
  | some scope => m.setScopeSlot scope index.toNat value
  | none => m

/-- Closes the innermost block scope of the running frame. -/
def popScope (m : Machine) : Machine :=
  match m.frame? with
  | none => m
  | some f =>
    if f.scopeDepth = 0 then m
    else
      let parent := match f.scope with
        | some scope =>
          match m.scopeRecord? scope with
          | some record => record.parent
          | none => none
        | none => none
      m.modifyFrame fun f => { f with scope := parent, scopeDepth := f.scopeDepth - 1 }

/-! ### Names -/

/-- The outcome of looking for a name in part of a scope chain. -/
inductive ScopeSearch where
  /-- The name was found. -/
  | found (depth index : Nat)
  /-- The name was not found; the search ended before this scope. -/
  | next (depth : Nat) (scope : Option Handle)
  /-- The chain is broken. -/
  | broken

/-- Looks for a name in so many records of a scope chain. -/
def searchRecords (m : Machine) (name : Atom) : Nat → Nat → Option Handle → ScopeSearch
  | 0, depth, scope => .next depth scope
  | count + 1, depth, scope =>
    match scope with
    | none => .broken
    | some id =>
      match m.scopeRecord? id with
      | none => .broken
      | some record =>
        match record.names.findIdx? (· == name) with
        | some index => .found depth index
        | none => m.searchRecords name count (depth + 1) record.parent

/-- Looks for a name in a scope chain up to its end. -/
def searchChain (m : Machine) (name : Atom) : Nat → Nat → Option Handle → ScopeSearch
  | 0, depth, scope => .next depth scope
  | _, depth, none => .next depth none
  | fuel + 1, depth, some id =>
    match m.scopeRecord? id with
    | none => .broken
    | some record =>
      match record.names.findIdx? (· == name) with
      | some index => .found depth index
      | none => m.searchChain name fuel (depth + 1) record.parent

/-- The scope a frame was created with, once its own record has been passed, and its depth. -/
def capturedScope (m : Machine) (f : Frame) (depth : Nat) (scope : Option Handle) :
    Nat × Option Handle :=
  match f.activation with
  | some activation =>
    if scope = some activation then
      (depth + 1, match m.scopeRecord? activation with
        | some record => record.parent
        | none => none)
    else (depth, scope)
  | none => (depth, scope)

/-- **Looks for the binding of a name**: in a block scope of the running frame, in its variables, in
the scopes it captured, or in the global object. None when the lookup there never ends. -/
def search? (m : Machine) (name : Atom) : Option (Option Location) :=
  match m.frame? with
  | none => some none
  | some f =>
    match m.searchRecords name f.scopeDepth.toNat 0 f.scope with
    | .broken => some none
    | .found depth index => some (some (.scope depth index))
    | .next depth scope =>
      let names := match m.code? f.code with
        | some entry => entry.variableNames
        | none => #[]
      match names.findIdx? (· == name) with
      | some index => some (some (.register index.toUInt32))
      | none =>
        let (depth, scope) := m.capturedScope f depth scope
        match m.searchChain name (m.heap.slots.size + 1) depth scope with
        | .broken => some none
        | .found depth index => some (some (.scope depth index))
        | .next _ _ =>
          (m.heap.hasProperty? m.intrinsics.global name).map fun found =>
            if found then some .global else none

/-- **Where a name is bound**, if it is found to be. -/
def locate? (m : Machine) (name : Atom) : Option Location := (m.search? name).join

end Machine

/-! ### Actions -/

/-- **Moves the variables of the running frame to the heap**, if they are not there yet. -/
def tearOffActivation : MachineM Handle := do
  let f ← currentFrame
  match f.activation with
  | some activation => return activation
  | none =>
    let m ← get
    let slots := (Array.range f.varCount.toNat).map fun i => m.registers.get (f.base + i)
    let names := match m.code? f.code with
      | some entry => entry.variableNames
      | none => #[]
    let activation ← allocate m.intrinsics.activationShape
      (.activation { slots, names, parent := f.scope })
    modify (·.modifyFrame fun f =>
      { f with activation := some activation, scope := some activation })
    return activation

/-- Moves the variables of the running frame to the heap if its code asks for it. -/
def tearOffIfNeeded : MachineM Unit := do
  let f ← currentFrame
  match (← get).code? f.code with
  | some entry => if entry.block.needsActivation then discard tearOffActivation
  | none => return ()

/-- **Opens a block scope** whose variables are named by a layout. -/
def pushScope (layout : UInt32) : MachineM Unit := do
  tearOffIfNeeded
  let f ← currentFrame
  let m ← get
  let names := match m.code? f.code with
    | some entry => entry.scopeLayouts.getD layout.toNat #[]
    | none => #[]
  let scope ← allocate m.intrinsics.activationShape
    (.activation { slots := Array.replicate names.size .undefined, names, parent := f.scope })
  modify (·.modifyFrame fun f =>
    { f with scope := some scope, scopeDepth := f.scopeDepth + 1 })

/-- **The value a name is bound to**, or an error. -/
def resolveName (name : Atom) : MachineM Value := do
  let m ← get
  match ← settled (m.search? name) with
  | some (.register r) => return m.register r
  | some (.scope depth index) => return m.scopedVar depth.toUInt32 index.toUInt32
  | some .global => settled (m.heap.getProperty? m.intrinsics.global name)
  | none => raiseError .referenceError (m.atomName name ++ " is not defined")

/-- The room of an array that was made of so many items and then extended by others. -/
def extendedCapacity (items extra : Nat) : Nat :=
  if extra = 0 then items else max (2 * items) (max (items + extra) 4)

/-- **An array of the arguments** of the running frame. -/
def argumentsObject : MachineM Value := do
  let f ← currentFrame
  let m ← get
  let declared := match m.code? f.code with
    | some entry => min entry.block.paramCount.toNat f.argc
    | none => 0
  let items := (Array.range declared).map fun i => m.register i.toUInt32
  newArray ⟨items ++ f.extraArgs, extendedCapacity declared f.extraArgs.size⟩

end ScriptMachine
