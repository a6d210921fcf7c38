import ScriptMachine.Proofs.Heap.Lifetime
import ScriptMachine.Proofs.InlineCache
import ScriptMachine.Proofs.Program.Validation
import ScriptMachine.Proofs.Stack.Allocation

/-! # Intact machines

What every machine keeps, whatever its hosts do (`Machine.Intact`). Code is registered with complete
tables (`Machine.Complete`): the block is consistent, each table has an entry for each index that
validation lets an instruction use, and tier code is the lowering of the block. Frames and functions
run registered code. Scope chains never dangle: the scope of a frame, of a function and of a scope
record is a scope record (`Machine.Grounded`, `Machine.Admits`).

Handles have 32-bit indices, so what is said about scopes is said of heaps with fewer slots. -/

namespace ScriptMachine

/-- What an entry has for an identifier; the default is never taken. -/
def CodeEntry.atomAt (entry : CodeEntry) (index : UInt32) : Atom :=
  entry.atoms.getD index.toNat default

namespace Machine

/-! ### The invariant -/

/-- What a function runs is registered. -/
def Knows (m : Machine) : CallTarget → Prop
  | .script code => code.index < m.codes.size
  | .host function => function.index < m.hosts.size

/-- The scope is a scope record, if there is one. -/
def Anchors (m : Machine) (scope : Option Handle) : Prop :=
  m.heap.Roomy → ∀ id, scope = some id → ∃ record, m.scopeRecord? id = some record

/-- The scope is below so many scope records. -/
def Nests (m : Machine) (count : Nat) (scope : Option Handle) : Prop :=
  m.heap.Roomy → ∃ ids : List Handle, ids.length = count ∧ m.heap.Chain ids scope

/-- **A payload that a cell may have**: what a function runs is registered, and its scope is a scope
record, as is the scope around a scope record. -/
def Admits (m : Machine) : Payload → Prop
  | .function data => m.Knows data.target ∧ m.Anchors data.scope
  | .activation record _ => m.Anchors record.parent
  | _ => True

/-- **A frame of registered code** whose scopes are there. -/
structure Grounded (m : Machine) (f : Frame) : Prop where
  /-- Its code. -/
  code : f.code.index < m.codes.size
  /-- The head of its scope chain. -/
  scope : m.Anchors f.scope
  /-- The record that its variables have moved to. -/
  activation : m.heap.Roomy → ∀ id, f.activation = some id →
    ∃ record, m.scopeRecord? id = some record ∧ record.slots.size = f.varCount.toNat
  /-- A record for each open block scope. -/
  blocks : m.Nests f.scopeDepth.toNat f.scope

/-- **Registered code with complete tables.** -/
structure Complete (m : Machine) (entry : CodeEntry) : Prop where
  /-- The block is consistent, with one nested function for each that is registered. -/
  consistent : ∃ functions : List Block, functions.length = entry.functions.size ∧
    Block.Consistent { entry.block with functions }
  /-- Each identifier has an atom. -/
  atoms : entry.atoms.size = entry.block.identifiers.size
  /-- Each constant has a value. -/
  constants : entry.constants.size = entry.block.constants.size
  /-- Each variable has its name. -/
  variableNames : entry.variableNames = entry.block.variableIds.map entry.atomAt
  /-- Each scope layout has its names. -/
  scopeLayouts : entry.scopeLayouts =
    entry.block.scopeLayouts.map fun layout => (layout.map entry.atomAt).toArray
  /-- The nested functions are registered. -/
  functions : ∀ code ∈ entry.functions, code.index < m.codes.size
  /-- Tier code is the lowering of the block. -/
  compiled : ∀ l, entry.compiled = some l → entry.lower = .ok l
  /-- What the call sites remember is registered. -/
  calls : ∀ cache ∈ entry.caches.calls, ∀ callee target, (callee, target) ∈ cache.entries →
    m.Knows target

/-- **An intact machine.** -/
structure Intact (m : Machine) : Prop where
  /-- No slot is colored. -/
  white : m.heap.AllWhite
  /-- The free list is in order. -/
  listed : m.heap.Roomy → m.heap.FreeListed
  /-- Functions and scope records. -/
  cells : ∀ id c, m.heap.cell? id = some c → m.Admits c.payload
  /-- Frames. -/
  frames : ∀ f ∈ m.frames, m.Grounded f
  /-- Registered code. -/
  codes : ∀ entry ∈ m.codes, m.Complete entry

variable {m m' : Machine} {id : Handle} {record : ScopeRecord}

/-! ### Scope records -/

theorem scopeRecord?_congr (hh : m'.heap.cell? = m.heap.cell?) : m'.scopeRecord? = m.scopeRecord? := by
  funext id
  unfold scopeRecord?
  rw [hh]

/-- The link of a handle is that of the record it names. -/
theorem link?_eq_some {parent : Option Handle} : m.heap.link? id = some parent ↔
    ∃ record, m.scopeRecord? id = some record ∧ record.parent = parent := by
  simp only [Heap.link?, Option.bind_eq_some_iff, Cell.link?_eq_some, scopeRecord?_eq_some]
  constructor
  · rintro ⟨c, hc, record, room, hp, hparent⟩
    exact ⟨record, ⟨c, room, hc, hp⟩, hparent⟩
  · rintro ⟨record, ⟨c, room, hc, hp⟩, hparent⟩
    exact ⟨c, hc, record, room, hp, hparent⟩

/-- A spent handle names no record. -/
theorem scopeRecord?_of_spent (hs : m.heap.Spent id) : m.scopeRecord? id = none := by
  unfold scopeRecord?
  rw [hs.cell?]

/-- Operations on cells keep all records. -/
theorem scopeRecord?_retains {h : Heap} (hr : m.heap.Retains h) :
    scopeRecord? { m with heap := h } = m.scopeRecord? := by
  funext id
  refine Option.ext fun record => ?_
  have hf := hr.fixtures id
  simp only [scopeRecord?_eq_some, ← Cell.fixture_eq_activation]
  constructor
  · rintro ⟨c, room, hc, hp⟩
    obtain ⟨c', hc', hsame⟩ := hr.cell? hc
    exact ⟨c', room, hc', hsame ▸ hp⟩
  · rintro ⟨c, room, hc, hp⟩
    rw [hc] at hf
    obtain ⟨c', hc', hsame⟩ := Option.map_eq_some_iff.mp hf
    exact ⟨c', room, hc', hsame ▸ hp⟩

/-- A write changes the record it goes to, and no other. -/
theorem scopeRecord?_setScopeSlot (m : Machine) (a : Handle) (index : Nat) (v : Value) (id : Handle) :
    (m.setScopeSlot a index v).scopeRecord? id =
      if id = a then (m.scopeRecord? id).map fun record =>
        { record with slots := record.slots.setIfInBounds index v }
      else m.scopeRecord? id := by
  unfold scopeRecord? setScopeSlot
  rw [Heap.cell?_modifyCell]
  by_cases hid : id = a
  · subst hid
    rw [if_pos rfl, if_pos rfl]
    cases m.heap.cell? id with
    | none => rfl
    | some c =>
      rcases c with ⟨_, _, _, payload⟩
      cases payload <;> rfl
  · rw [if_neg hid, if_neg hid]

/-- **The scopes of the running frame** are scope records. -/
theorem Intact.scopeUp? (hm : m.Intact) {scope : Option Handle}
    (hs : m.Anchors scope) (n : Nat) : m.Anchors (m.scopeUp? n scope) := by
  induction n generalizing scope with
  | zero => exact hs
  | succ n ih =>
    unfold Machine.scopeUp?
    split
    case h_1 => exact fun _ _ h => by cases h
    case h_2 id =>
      split
      case h_2 => exact fun _ _ h => by cases h
      case h_1 record hrecord =>
        obtain ⟨c, room, hc, hp⟩ := scopeRecord?_eq_some.mp hrecord
        have hadmits := hm.cells id c hc
        rw [hp] at hadmits
        exact ih hadmits

theorem Intact.scopeAt? (hm : m.Intact) (hr : m.heap.Roomy) {depth : UInt32}
    (ha : m.scopeAt? depth = some id) : ∃ record, m.scopeRecord? id = some record := by
  unfold Machine.scopeAt? at ha
  split at ha
  case h_2 => cases ha
  case h_1 f hf =>
    exact hm.scopeUp? (hm.frames f (Array.mem_of_back? hf)).scope _ hr id ha

/-! ### Open block scopes -/

theorem Nests.zero (m : Machine) (scope : Option Handle) : m.Nests 0 scope := fun _ => ⟨[], rfl, trivial⟩

/-- Fewer records. -/
theorem Nests.mono {count count' : Nat} {scope : Option Handle} (hn : m.Nests count scope)
    (hle : count' ≤ count) : m.Nests count' scope := by
  intro hr
  obtain ⟨ids, rfl, hc⟩ := hn hr
  exact ⟨ids.take count', List.length_take_of_le hle, hc.take count'⟩

/-- Records further up. -/
theorem Nests.drop {count n : Nat} {scope : Option Handle} (hn : m.Nests count scope) (hle : n ≤ count) :
    m.Nests (count - n) (m.heap.enclosing^[n] scope) := by
  intro hr
  obtain ⟨ids, rfl, hc⟩ := hn hr
  exact ⟨ids.drop n, List.length_drop, (hc.drop n).resolve_right (Nat.not_lt.mpr hle)⟩

/-- One more record. -/
theorem Nests.push {count : Nat} (hn : m.Nests count record.parent)
    (hrecord : m.heap.Roomy → m.scopeRecord? id = some record) : m.Nests (count + 1) (some id) := by
  intro hr
  obtain ⟨ids, rfl, hc⟩ := hn hr
  exact ⟨id :: ids, rfl, rfl, _, link?_eq_some.mpr ⟨record, hrecord hr, rfl⟩, hc⟩

/-! ### Registered code -/

theorem code?_of_lt {code : CodeId} (h : code.index < m.codes.size) :
    ∃ entry, m.code? code = some entry := ⟨_, Array.getElem?_eq_getElem h⟩

theorem Intact.code? (hm : m.Intact) {code : CodeId} {entry : CodeEntry}
    (hcode : m.code? code = some entry) : m.Complete entry :=
  hm.codes entry (Array.mem_of_getElem? hcode)

/-- The code of the running frame. -/
theorem Intact.frameCode (hm : m.Intact) {f : Frame} (hf : m.frame? = some f) :
    ∃ entry, m.code? f.code = some entry ∧ m.Complete entry := by
  obtain ⟨entry, hentry⟩ := code?_of_lt (hm.frames f (Array.mem_of_back? hf)).code
  exact ⟨entry, hentry, hm.code? hentry⟩

/-! ### What grows -/

/-- A machine with at least as much code and hosts, whose scope records are still there. -/
structure Extends (m m' : Machine) : Prop where
  codes : m.codes.size ≤ m'.codes.size
  hosts : m.hosts.size ≤ m'.hosts.size
  slots : m.heap.slots.size ≤ m'.heap.slots.size
  records : m'.heap.Roomy → ∀ id record, m.scopeRecord? id = some record →
    ∃ record', m'.scopeRecord? id = some record' ∧ record'.slots.size = record.slots.size ∧
      record'.parent = record.parent

theorem Extends.roomy (he : m.Extends m') (hr : m'.heap.Roomy) : m.heap.Roomy :=
  Nat.lt_of_le_of_lt he.slots hr

theorem Extends.knows (he : m.Extends m') {target : CallTarget} (hk : m.Knows target) :
    m'.Knows target := by
  cases target with
  | script code => exact Nat.lt_of_lt_of_le hk he.codes
  | host function => exact Nat.lt_of_lt_of_le hk he.hosts

theorem Extends.anchors (he : m.Extends m') {scope : Option Handle} (ha : m.Anchors scope) :
    m'.Anchors scope := by
  intro hr id hid
  obtain ⟨record, hrecord⟩ := ha (he.roomy hr) id hid
  obtain ⟨record', hrecord', -⟩ := he.records hr id record hrecord
  exact ⟨record', hrecord'⟩

theorem Extends.nests (he : m.Extends m') {count : Nat} {scope : Option Handle}
    (hn : m.Nests count scope) : m'.Nests count scope := by
  intro hr
  obtain ⟨ids, hlength, hc⟩ := hn (he.roomy hr)
  refine ⟨ids, hlength, hc.transfer fun id hid => ?_⟩
  obtain ⟨parent, hl⟩ := hc.link hid
  obtain ⟨record, hrecord, rfl⟩ := link?_eq_some.mp hl
  obtain ⟨record', hrecord', -, hparent⟩ := he.records hr id record hrecord
  rw [hl]
  exact link?_eq_some.mpr ⟨record', hrecord', hparent⟩

theorem Extends.admits (he : m.Extends m') {payload : Payload} (ha : m.Admits payload) :
    m'.Admits payload := by
  cases payload with
  | function data => exact ⟨he.knows ha.1, he.anchors ha.2⟩
  | activation record _ => exact he.anchors ha
  | _ => trivial

theorem Extends.grounded (he : m.Extends m') {f : Frame} (hg : m.Grounded f) : m'.Grounded f where
  code := Nat.lt_of_lt_of_le hg.code he.codes
  scope := he.anchors hg.scope
  activation hr id hid := by
    obtain ⟨record, hrecord, hsize⟩ := hg.activation (he.roomy hr) id hid
    obtain ⟨record', hrecord', hsame, -⟩ := he.records hr id record hrecord
    exact ⟨record', hrecord', hsame.trans hsize⟩
  blocks := he.nests hg.blocks

theorem Extends.complete (he : m.Extends m') {entry : CodeEntry} (hc : m.Complete entry) :
    m'.Complete entry :=
  { hc with
    functions := fun code hcode => Nat.lt_of_lt_of_le (hc.functions code hcode) he.codes
    calls := fun cache hcache callee target h => he.knows (hc.calls cache hcache callee target h) }

/-- Only what is fixed of registered code, its tier code and what its call sites remember matter. -/
theorem Complete.congr {entry entry' : CodeEntry} (hc : m.Complete entry)
    (hf : entry'.fixed = entry.fixed)
    (hl : ∀ l, entry'.compiled = some l → entry.lower = .ok l)
    (hcalls : ∀ cache ∈ entry'.caches.calls, ∀ callee target, (callee, target) ∈ cache.entries →
      m.Knows target) : m.Complete entry' := by
  have hblock : entry'.block = entry.block := (congrArg CodeEntry.block hf :)
  have hatoms : entry'.atoms = entry.atoms := (congrArg CodeEntry.atoms hf :)
  have hconstants : entry'.constants = entry.constants := (congrArg CodeEntry.constants hf :)
  have hfunctions : entry'.functions = entry.functions := (congrArg CodeEntry.functions hf :)
  have hnames : entry'.variableNames = entry.variableNames := (congrArg CodeEntry.variableNames hf :)
  have hlayouts : entry'.scopeLayouts = entry.scopeLayouts := (congrArg CodeEntry.scopeLayouts hf :)
  have hat : entry'.atomAt = entry.atomAt := by
    funext index
    unfold CodeEntry.atomAt
    rw [hatoms]
  refine ⟨?_, ?_, ?_, ?_, ?_, ?_, fun l h => ?_, hcalls⟩
  · rw [hblock, hfunctions]
    exact hc.consistent
  · rw [hatoms, hblock, hc.atoms]
  · rw [hconstants, hblock, hc.constants]
  · rw [hnames, hblock, hat, hc.variableNames]
  · rw [hlayouts, hblock, hat, hc.scopeLayouts]
  · rw [hfunctions]
    exact hc.functions
  · rw [CodeEntry.lower_congr hf]
    exact hl l h

end Machine

end ScriptMachine
