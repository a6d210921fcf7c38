import ScriptMachine.Machine.Raise

/-! # Property access

Named access goes through the cache of its site: a hit replays what an earlier access with the same
shape found, a miss looks the name up and remembers what can be replayed. Dictionaries change in
place, and the index names of arrays are resolved through the elements first, so neither is ever
cached. -/

namespace ScriptMachine

/-- A cache site: the code it belongs to and its index. -/
abbrev Site := Option (CodeId × UInt32)

namespace Machine

/-! ### Caches -/

/-- What a site remembers about a shape. -/
def cachedProperty? (m : Machine) (site : Site) (shape : ShapeId) : Option PropertyEntry :=
  if !m.config.inlineCaching then none
  else
    match site with
    | none => none
    | some (code, index) =>
      match m.code? code with
      | none => none
      | some entry =>
        match entry.caches.properties[index.toNat]? with
        | some cache => cache.lookup? shape
        | none => none

/-- Lets a site remember an entry. -/
def cacheProperty (m : Machine) (site : Site) (entry : PropertyEntry) : Machine :=
  if !m.config.inlineCaching then m
  else
    match site with
    | none => m
    | some (code, index) =>
      m.modifyCode code fun c =>
        { c with caches := { c.caches with
            properties := c.caches.properties.modify index.toNat
              fun cache => cache.update entry.guardShape entry } }

/-- The shape changes in place. -/
def isDictionary (m : Machine) (shape : ShapeId) : Bool := (m.heap.shapes.get shape).dictionary

/-- The name is an index of a cell with elements. -/
def isElementBacked (m : Machine) (id : Handle) (name : Atom) : Bool :=
  (m.heap.atoms.arrayIndex? name).isSome
    && match m.heap.cell? id with
      | some cell => cell.kind.hasElements
      | none => false

/-- The value a cached entry gives for a read, if it still holds. -/
def replayRead? (m : Machine) (id : Handle) : Option PropertyEntry → Option Value
  | some (.getOwn _ offset) => some (m.heap.readSlot id offset)
  | some (.getPrototype _ holder holderShape offset) =>
    if m.heap.shapeOf? holder = some holderShape then some (m.heap.readSlot holder offset)
    else none
  | _ => none

/-- What a site may remember of a lookup in a cell. -/
def cacheableRead? (m : Machine) (id : Handle) : PropertyLookup → Option PropertyEntry
  | .own shape offset _ _ => if m.isDictionary shape then none else some (.getOwn shape offset)
  | .prototype holder holderShape offset 1 _ =>
    match m.heap.shapeOf? id with
    | some shape =>
      if m.isDictionary shape || m.isDictionary holderShape then none
      else some (.getPrototype shape holder holderShape offset)
    | none => none
  | _ => none

/-- What a site may remember of a write. -/
def cacheableWrite? (m : Machine) : PutOutcome → Option PropertyEntry
  | .replaced shape offset => if m.isDictionary shape then none else some (.replace shape offset)
  | .added source target offset =>
    if m.isDictionary source || m.isDictionary target then none
    else some (.transition source target offset)
  | _ => none

/-- The slot write a cached entry stands for. -/
def replayWrite? : Option PropertyEntry → Option (ShapeId × Nat)
  | some (.replace shape offset) => some (shape, offset)
  | some (.transition _ target offset) => some (target, offset)
  | _ => none

end Machine

/-! ### Named access -/

/-- Reads a named property of a cell through a site. -/
def readCell (id : Handle) (name : Atom) (site : Site) : MachineM PropertyLookup := do
  let m ← get
  let replayed := match m.heap.shapeOf? id with
    | some shape => m.replayRead? id (m.cachedProperty? site shape)
    | none => none
  match replayed with
  | some value => return .synthesized value
  | none =>
    let lookup ← settled (m.heap.lookupProperty? id name)
    if !m.isElementBacked id name then
      if let some entry := m.cacheableRead? id lookup then modify (·.cacheProperty site entry)
    return lookup

/-- **Reads a named property.** Null and undefined have none, other values without a cell read as
undefined. -/
def getById (base : Value) (name : Atom) (site : Site) : MachineM Value := do
  let m ← get
  match m.liveCell? base with
  | some id => return (← readCell id name site).value
  | none =>
    if base.isNullish then
      raiseError .typeError
        ("Cannot read property '" ++ m.atomName name ++ "' of " ++ m.display base)
    else return .undefined

/-- Refuses a write to a read-only property, silently or by raising. -/
def refuseWrite (name : Atom) : MachineM Unit := do
  let m ← get
  match m.config.readOnlyPolicy with
  | .ignore => return ()
  | .throw =>
    raiseError .typeError ("Cannot assign to read only property '" ++ m.atomName name ++ "'")

/-- **Writes a named property.** Null and undefined take none, other values without a cell ignore
it. -/
def putById (base : Value) (name : Atom) (value : Value) (site : Site) : MachineM Unit := do
  let m ← get
  match m.liveCell? base with
  | none =>
    if base.isNullish then
      raiseError .typeError
        ("Cannot set property '" ++ m.atomName name ++ "' of " ++ m.display base)
  | some id =>
    let replayed := match m.heap.shapeOf? id with
      | some shape => Machine.replayWrite? (m.cachedProperty? site shape)
      | none => none
    match replayed with
    | some (shape, offset) => modifyHeap (·.writeSlot id shape offset value)
    | none =>
      let outcome ← heapWrite [.cell id, value] (Heap.setProperty id name value)
      if outcome = .readOnly then refuseWrite name
      else
        let m ← get
        if !m.isElementBacked id name then
          if let some entry := m.cacheableWrite? outcome then modify (·.cacheProperty site entry)

/-- **Deletes a named property**; false when it must stay. -/
def deleteById (base : Value) (name : Atom) : MachineM Bool := do
  let m ← get
  match m.liveCell? base with
  | none =>
    if base.isNullish then
      raiseError .typeError ("Cannot delete property of " ++ m.display base)
    else return true
  | some id =>
    let deleted ← runHeap (Heap.deleteProperty id name)
    let m ← get
    if !deleted && m.config.readOnlyPolicy = .throw then
      raiseError .typeError ("Cannot delete property '" ++ m.atomName name ++ "'")
    return deleted

/-! ### Computed access -/

/-- The name a key stands for. -/
def keyAtom (key : Value) : MachineM Atom := do intern ((← get).display key)

/-- **Reads a computed property**; an index of a string reads one of its units. -/
def getByVal (base key : Value) : MachineM Value := do
  let m ← get
  match base.cell?, key.arrayIndex? with
  | some id, some index =>
    match m.stringValue? base with
    | some text =>
      match unitAt? text index.toNat with
      | some unit => newString (unitText unit)
      | none => return .undefined
    | none =>
      if m.heap.isLive id then settled (← withHeap (·.getIndex? id index))
      else getById base (← keyAtom key) none
  | _, _ => getById base (← keyAtom key) none

/-- **Writes a computed property.** -/
def putByVal (base key value : Value) : MachineM Unit := do
  let m ← get
  match m.objectCell? base, key.arrayIndex? with
  | some id, some index =>
    let outcome ← heapWrite [.cell id, value] (Heap.setIndex id index value)
    if outcome = .readOnly then refuseWrite (← withHeap (·.internIndex index))
  | _, _ => putById base (← keyAtom key) value none

/-- **Asks whether an object has a property.** -/
def hasKey (key base : Value) : MachineM Bool := do
  let m ← get
  match m.objectCell? base with
  | none =>
    raiseError .typeError ("Cannot use 'in' operator to search for '" ++ m.display key ++ "' in "
      ++ m.display base)
  | some id =>
    let name ← keyAtom key
    settled ((← get).heap.hasProperty? id name)

/-- **Asks whether a value inherits from the prototype of a function.** -/
def instanceOf (value constructor : Value) : MachineM Bool := do
  let m ← get
  let callable := match m.heap.cellOf? constructor with
    | some cell => cell.kind.isCallable
    | none => false
  if !callable then raiseError .typeError "Right-hand side of 'instanceof' is not callable"
  else
    match m.objectCell? value with
    | none => return false
    | some object =>
      let prototype ← getById constructor m.names.prototype none
      let m ← get
      match m.objectCell? prototype with
      | none => raiseError .typeError "Function has non-object prototype in instanceof check"
      | some prototype =>
        settled (m.heap.chainMeets? prototype m.heap.chainFuel (m.heap.prototypeOf object))

/-! ### Globals -/

/-- **Reads a global**, which must exist. -/
def getGlobalById (name : Atom) (site : Site) : MachineM Value := do
  match ← readCell (← get).intrinsics.global name site with
  | .missing => raiseError .referenceError ((← get).atomName name ++ " is not defined")
  | found => return found.value

/-- **Writes a global**, adding it when it does not exist. -/
def putGlobalById (name : Atom) (value : Value) (site : Site) : MachineM Unit := do
  putById (← get).globalObject name value site

end ScriptMachine
