import ScriptMachine.Proofs.Machine.PropertyCache

/-! # What property access does

The actions of property access in a form that proofs can follow: a read through a site as a lookup
with its outcome and the machine after it (`readCell_eq`), and a write as either the replay of a slot
write or a write that is then recorded. -/

namespace ScriptMachine

variable {α : Type}

/-- What an operation of the heap did. -/
def Ran {α : Type} (x : HeapM α) (h : Heap) (result : Except PropertyFault α) (m' : Machine) : Prop :=
  match result with
  | .ok a => x h = .ok a m'.heap
  | .error fault => x h = .error fault m'.heap

/-- Looking at the machine. -/
theorem get_bind (g : Machine → MachineM α) (env : Env) (m : Machine) :
    (get >>= g) env m = g m env m := rfl

/-- A change of the machine that yields something. -/
theorem modifyGet_run (f : Machine → α × Machine) (env : Env) (m : Machine) :
    (modifyGet f : MachineM α) env m = .ok (f m).1 (f m).2 := rfl

theorem tryHeap_eq (x : HeapM α) (env : Env) (m : Machine) :
    tryHeap x env m = match x m.heap with
      | .ok a h => .ok (.ok a) { m with heap := h }
      | .error fault h => .ok (.error fault) { m with heap := h } := by
  unfold tryHeap withHeap
  rw [modifyGet_run]
  dsimp only
  cases x m.heap <;> rfl

/-- The second part of an allocation, after the collection. -/
def allocateCell (shape : ShapeId) (payload : Payload) : MachineM Handle := do
  checkpoint payload.references
  match ← withHeap (·.allocate shape payload) with
  | .ok id => return id
  | .error failure => fatal failure

namespace Machine

/-- What a site replays for a cell. -/
def replayed? (m : Machine) (id : Handle) (site : Site) : Option Value :=
  match m.heap.shapeOf? id with
  | some shape => m.replayRead? id (m.cachedProperty? site shape)
  | none => none

/-- The outcome of a lookup through a site; none when it never ends. -/
def found? (m : Machine) (id : Handle) (name : Atom) (site : Site) : Option PropertyLookup :=
  match m.replayed? id site with
  | some value => some (.synthesized value)
  | none => m.heap.lookupProperty? id name

/-- What a site gets to remember of a lookup in a cell. -/
def recorded? (m : Machine) (id : Handle) (name : Atom) : Option PropertyEntry :=
  if m.isElementBacked id name then none else (m.heap.lookupProperty? id name).bind (m.cacheableRead? id)

/-- A lookup through a site never ends only if nothing is replayed. -/
theorem lookupProperty?_of_found? {m : Machine} {id : Handle} {name : Atom} {site : Site}
    (h : m.found? id name site = none) : m.heap.lookupProperty? id name = none := by
  unfold found? at h
  split at h
  · cases h
  · exact h

theorem recorded?_valid {m : Machine} {id : Handle} {name : Atom} {e : PropertyEntry}
    (hc : m.heap.Coherent) (he : m.recorded? id name = some e) : e.Valid m.heap name := by
  unfold recorded? at he
  split at he
  case isTrue => cases he
  case isFalse hb =>
    obtain ⟨r, hr, he⟩ := Option.bind_eq_some_iff.mp he
    exact cacheableRead?_valid hc (by simpa using hb) hr he

/-- The machine after a lookup through a site. -/
def afterRead (m : Machine) (id : Handle) (name : Atom) (site : Site) : Machine :=
  match m.replayed? id site, m.recorded? id name with
  | none, some entry => m.cacheProperty site entry
  | _, _ => m

/-- A read that was not replayed. -/
def lookUpCell (m : Machine) (id : Handle) (name : Atom) (site : Site) : MachineM PropertyLookup := do
  let lookup ← settled (m.heap.lookupProperty? id name)
  if !m.isElementBacked id name then
    if let some entry := m.cacheableRead? id lookup then modify (·.cacheProperty site entry)
  return lookup

/-- A read through a site. -/
def readThrough (m : Machine) (id : Handle) (name : Atom) (site : Site) : MachineM PropertyLookup :=
  match m.replayed? id site with
  | some value => pure (.synthesized value)
  | none => m.lookUpCell id name site

/-- **A read of a cell** gives what is found through the site, or never ends. -/
theorem readCell_eq (id : Handle) (name : Atom) (site : Site) (env : Env) (m : Machine) :
    readCell id name site env m =
      match m.found? id name site with
      | some lookup => .ok lookup (m.afterRead id name site)
      | none => .error .exhausted m := by
  have heq : readCell id name site env m = m.readThrough id name site env m := rfl
  rw [heq]
  unfold readThrough lookUpCell found? afterRead recorded?
  cases m.replayed? id site with
  | some value => rfl
  | none =>
    dsimp only
    cases m.heap.lookupProperty? id name with
    | none => rfl
    | some lookup =>
      rw [settled_some, pure_bind]
      cases m.isElementBacked id name with
      | true => rfl
      | false =>
        simp only [Option.bind_some]
        cases m.cacheableRead? id lookup <;> rfl

/-- What a site replays for a write to a cell. -/
def replayedWrite? (m : Machine) (id : Handle) (site : Site) : Option (ShapeId × Nat) :=
  match m.heap.shapeOf? id with
  | some shape => replayWrite? (m.cachedProperty? site shape)
  | none => none

/-- **A replayed write** does what a write does, under a name that the site has. -/
theorem Remembers.replayedWrite? {m : Machine} {named : CodeId → Nat → Atom → Prop}
    (hr : m.Remembers named) (hc : m.heap.Coherent) {id : Handle} {site : Site} {shape : ShapeId}
    {offset : Nat} (h : m.replayedWrite? id site = some (shape, offset)) :
    ∃ code index name, site = some (code, index) ∧ named code index.toNat name ∧
      m.heap.atoms.Knows name ∧ ∀ value, ∃ outcome, outcome ≠ .readOnly ∧
        Heap.setProperty id name value m.heap =
          .ok outcome (m.heap.writeSlot id shape offset value) := by
  cases hcell : m.heap.cell? id with
  | none =>
    simp only [Machine.replayedWrite?, Heap.shapeOf?, hcell, Option.map_none] at h
    cases h
  | some c =>
    simp only [Machine.replayedWrite?, Heap.shapeOf?, hcell, Option.map_some] at h
    cases he : m.cachedProperty? site c.shape with
    | none =>
      rw [he] at h
      cases h
    | some e =>
      rw [he] at h
      obtain ⟨code, index, rfl, hguard, name, hname, hk, hv⟩ := hr.cached he
      refine ⟨code, index, name, rfl, hname, hk, fun value => ?_⟩
      cases e with
      | getOwn _ _ => cases h
      | getPrototype _ _ _ _ => cases h
      | replace shape offset =>
        obtain rfl : c.shape = shape := hguard
        obtain ⟨rfl, rfl⟩ := Prod.mk.inj (Option.some.inj h)
        exact ⟨.replaced c.shape offset, by simp, Heap.setProperty_replace hc hcell hv⟩
      | transition source target offset =>
        obtain rfl : c.shape = source := hguard
        obtain ⟨rfl, rfl⟩ := Prod.mk.inj (Option.some.inj h)
        exact ⟨.added c.shape target offset, by simp, Heap.setProperty_transition hc hcell hv⟩

end Machine

open Machine

/-- Caches a write that was not replayed. -/
def cacheWrite (m : Machine) (id : Handle) (name : Atom) (site : Site) (outcome : PutOutcome) :
    MachineM Unit := do
  if !m.isElementBacked id name then
    if let some entry := m.cacheableWrite? outcome then modify (·.cacheProperty site entry)

/-- What follows a write that was not replayed. -/
def recordWrite (id : Handle) (name : Atom) (site : Site) (outcome : PutOutcome) : MachineM Unit := do
  if outcome = .readOnly then refuseWrite name
  else
    let m ← get
    if !m.isElementBacked id name then
      if let some entry := m.cacheableWrite? outcome then modify (·.cacheProperty site entry)

/-- Writing a property of a cell through a site. -/
def putCell (m : Machine) (id : Handle) (name : Atom) (value : Value) (site : Site) :
    MachineM Unit :=
  match m.replayedWrite? id site with
  | some (shape, offset) => modifyHeap (·.writeSlot id shape offset value)
  | none => heapWrite [.cell id, value] (Heap.setProperty id name value) >>= recordWrite id name site

end ScriptMachine
