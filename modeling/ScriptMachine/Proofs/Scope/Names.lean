import ScriptMachine.Proofs.Events.Recording
import ScriptMachine.Proofs.Heap.Prototypes
import ScriptMachine.Proofs.Progress.Variables
import ScriptMachine.Proofs.Scope.Sheltered

/-! # What names are bound to

A name is bound to the first variable that has it: in an open block scope of the running frame, from the
innermost to the outermost, in the frame itself, in a record that its function captured, from the innermost to
the outermost; or to the property of the global object or one of its prototypes (`Machine.binding?`). The search
along the scope chain counts links and passes the record that the variables of the frame may have moved to. In a
frame whose chain is in order it finds the binding (`Scopes.situates`), so that a name has the value of its
binding (`Scopes.resolveName`) and a location names its variable (`Scopes.placed`).

A name that is bound nowhere is looked up in the global object last. That comes to an end where the prototypes of
the global object do; if they lie in a circle, the name is looked for without end (`Machine.Endless`).

Locations have 32-bit depths and indices. No chain is longer than the heap; that no scope record and no code has
more variables is a hypothesis (`Machine.Fits`). -/

namespace ScriptMachine

open Machine

/-- **What a name is bound to.** -/
inductive Binding where
  /-- A variable of a scope record. -/
  | slot (record : Handle) (index : Nat)
  /-- A variable of the running frame. -/
  | own (index : Nat)
  /-- A property of the global object or one of its prototypes. -/
  | global
deriving DecidableEq, Repr, Inhabited

namespace Machine

/-! ### The first variable of a name -/

/-- The first variable of a name in a scope record. -/
def slotIn? (m : Machine) (name : Atom) (id : Handle) : Option Binding :=
  (m.scopeRecord? id).bind fun record => (record.names.findIdx? (· == name)).map (.slot id)

/-- The first variable of a name in scope records, one after the other. -/
def slot? (m : Machine) (name : Atom) (ids : List Handle) : Option Binding := ids.findSome? (m.slotIn? name)

/-- The names of the variables of a frame. -/
def variableNames (m : Machine) (f : Frame) : Array Atom :=
  match m.code? f.code with
  | some entry => entry.variableNames
  | none => #[]

/-- The first variable of a name in a frame. -/
def own? (m : Machine) (f : Frame) (name : Atom) : Option Binding :=
  ((m.variableNames f).findIdx? (· == name)).map .own

/-- A property of the global object, also of its prototypes. -/
def global? (m : Machine) (name : Atom) : Option Binding :=
  if m.heap.hasProperty? m.intrinsics.global name = some true then some .global else none

/-- The first variable of a name in a frame with such a scope chain: the block scopes come first, then the frame
itself, then what its function captured. -/
def nearest? (m : Machine) (f : Frame) (blocks outer : List Handle) (name : Atom) : Option Binding :=
  (m.slot? name blocks).or ((m.own? f name).or (m.slot? name outer))

/-- **The binding of a name**: the first variable that has it, or else a property of the global object. -/
def binding? (m : Machine) (f : Frame) (blocks outer : List Handle) (name : Atom) : Option Binding :=
  (m.nearest? f blocks outer name).or (m.global? name)

/-- The value that a name has where it is bound. -/
def valueAt (m : Machine) (name : Atom) : Binding → Value
  | .slot id index => m.scopeSlot id index
  | .own index => m.register index.toUInt32
  | .global => (m.heap.getProperty? m.intrinsics.global name).getD .undefined

/-- The binding of a name, with its value. -/
def meaning? (m : Machine) (f : Frame) (blocks outer : List Handle) (name : Atom) : Option (Binding × Value) :=
  (m.binding? f blocks outer name).map fun b => (b, m.valueAt name b)

/-- **The name is looked for without end** in the global object and its prototypes. -/
def Endless (m : Machine) (name : Atom) : Prop := ∀ n found, ¬m.heap.Ends name n m.globalObject found

/-- **The indices of variables fit into locations.** -/
structure Fits (m : Machine) : Prop where
  /-- In scope records. -/
  records : ∀ id record, m.scopeRecord? id = some record → record.names.size ≤ 2 ^ 32
  /-- In frames. -/
  codes : ∀ entry ∈ m.codes, entry.variableNames.size ≤ 2 ^ 32

variable {m : Machine} {f : Frame} {name : Atom} {id : Handle} {ids rest blocks outer : List Handle}
  {scope : Option Handle} {index : Nat} {b : Binding}

theorem slotIn?_eq_some : m.slotIn? name id = some b ↔ ∃ record index, m.scopeRecord? id = some record ∧
    record.names.findIdx? (· == name) = some index ∧ b = .slot id index := by
  simp only [slotIn?, Option.bind_eq_some_iff, Option.map_eq_some_iff, eq_comm (a := b)]
  constructor
  · rintro ⟨record, hrecord, index, hindex, hb⟩
    exact ⟨record, index, hrecord, hindex, hb⟩
  · rintro ⟨record, index, hrecord, hindex, hb⟩
    exact ⟨record, hrecord, index, hindex, hb⟩

/-- A variable that is found in scope records is in one of them. -/
theorem mem_of_slot? (h : m.slot? name ids = some b) : ∃ id ∈ ids, ∃ record index,
    m.scopeRecord? id = some record ∧ index < record.names.size ∧ b = .slot id index := by
  obtain ⟨id, hid, hslot⟩ := List.exists_of_findSome?_eq_some h
  obtain ⟨record, index, hrecord, hfind, hb⟩ := slotIn?_eq_some.mp hslot
  exact ⟨id, hid, record, index, hrecord, (Array.findIdx?_eq_some_iff_getElem.mp hfind).1, hb⟩

theorem own_of_own? (h : m.own? f name = some b) : ∃ index < (m.variableNames f).size, b = .own index := by
  obtain ⟨index, hfind, hb⟩ := Option.map_eq_some_iff.mp h
  exact ⟨index, (Array.findIdx?_eq_some_iff_getElem.mp hfind).1, hb.symm⟩

theorem eq_of_global? (h : m.global? name = some b) : b = .global := by
  unfold global? at h
  split at h <;> cases h
  rfl

theorem endless_iff : m.Endless name ↔ m.heap.hasProperty? m.intrinsics.global name = none := by
  rw [Heap.hasProperty?, Option.map_eq_none_iff, Heap.lookupProperty?_eq_none, Endless, globalObject]

/-- **Where prototypes lie in no circle**, no name is looked for without end. -/
theorem not_endless (hm : m.heap.Acyclic) (name : Atom) : ¬m.Endless name := fun hendless => by
  obtain ⟨n, found, hends⟩ := hm.ends m.intrinsics.global name
  exact hendless n found hends

/-- **Where a binding is found**: it is a variable of a record of the scope chain, of the frame itself, or a
property of the global object. -/
theorem cases_of_binding? (h : m.binding? f blocks outer name = some b) :
    (∃ id, (id ∈ blocks ∨ id ∈ outer) ∧ ∃ record index, m.scopeRecord? id = some record ∧
      index < record.names.size ∧ b = .slot id index) ∨
    (∃ index < (m.variableNames f).size, b = .own index) ∨ b = .global := by
  simp only [binding?, nearest?, Option.or_eq_some_iff] at h
  rcases h with (h | ⟨-, h | ⟨-, h⟩⟩) | ⟨-, h⟩
  · obtain ⟨id, hid, hslot⟩ := mem_of_slot? h
    exact .inl ⟨id, .inl hid, hslot⟩
  · exact .inr (.inl (own_of_own? h))
  · obtain ⟨id, hid, hslot⟩ := mem_of_slot? h
    exact .inl ⟨id, .inr hid, hslot⟩
  · exact .inr (.inr (eq_of_global? h))

/-- The variables of a frame that fits. -/
theorem Fits.variableNames (hm : m.Fits) (f : Frame) : (m.variableNames f).size ≤ 2 ^ 32 := by
  unfold Machine.variableNames
  cases hcode : m.code? f.code with
  | none => exact Nat.zero_le _
  | some entry => exact hm.codes entry (Array.mem_of_getElem? hcode)

/-- A variable of a scope record that is bound. -/
theorem mem_of_binding? (h : m.binding? f blocks outer name = some (.slot id index)) :
    (id ∈ blocks ∨ id ∈ outer) ∧ ∃ record, m.scopeRecord? id = some record ∧ index < record.names.size := by
  rcases cases_of_binding? h with ⟨other, hmem, record, index', hrecord, hlt, hb⟩ | ⟨_, -, hb⟩ | hb
  · obtain ⟨rfl, rfl⟩ := Binding.slot.inj hb
    exact ⟨hmem, record, hrecord, hlt⟩
  · cases hb
  · cases hb

/-- A variable of the frame that is bound. -/
theorem lt_of_binding? (h : m.binding? f blocks outer name = some (.own index)) :
    index < (m.variableNames f).size := by
  rcases cases_of_binding? h with ⟨_, -, _, _, -, -, hb⟩ | ⟨index', hlt, hb⟩ | hb
  · cases hb
  · obtain rfl := Binding.own.inj hb
    exact hlt
  · cases hb

/-! ### Searching -/

/-- **The outcome of a search** in some records of a scope chain: the place of the first variable, or where the
chain goes on. -/
inductive Searched (m : Machine) (name : Atom) (depth : Nat) (ids rest : List Handle) : ScopeSearch → Prop
  /-- The variable is in one of the records. -/
  | found {n : Nat} {id : Handle} {index : Nat} : ids[n]? = some id → m.slot? name ids = some (.slot id index) →
      Searched m name depth ids rest (.found (depth + n) index)
  /-- None has a variable of the name. -/
  | next : m.slot? name ids = none → Searched m name depth ids rest (.next (depth + ids.length) rest.head?)

/-- A record without a variable of the name is passed. -/
theorem Searched.cons {depth : Nat} {search : ScopeSearch} (h : m.Searched name (depth + 1) ids rest search)
    (hid : m.slotIn? name id = none) : m.Searched name depth (id :: ids) rest search := by
  have hslot : m.slot? name (id :: ids) = m.slot? name ids := by rw [slot?, List.findSome?_cons, hid, slot?]
  cases h with
  | @found n id' index hn h =>
    rw [Nat.add_right_comm, Nat.add_assoc]
    exact .found (by simpa using hn) (hslot.trans h)
  | next h =>
    rw [Nat.add_right_comm, Nat.add_assoc]
    exact .next (hslot.trans h)

/-- A search ends at a record with a variable of the name. -/
theorem Searched.here (depth : Nat) (ids rest : List Handle) {record : ScopeRecord}
    (hrecord : m.scopeRecord? id = some record) (hfind : record.names.findIdx? (· == name) = some index) :
    m.Searched name depth (id :: ids) rest (.found depth index) := by
  have hid : m.slotIn? name id = some (.slot id index) := slotIn?_eq_some.mpr ⟨_, _, hrecord, hfind, rfl⟩
  refine .found (n := 0) rfl ?_
  rw [slot?, List.findSome?_cons, hid]

/-- **The search in the first records of a chain.** -/
theorem searchRecords_line (hl : m.heap.Line (ids ++ rest) scope) (depth : Nat) :
    m.Searched name depth ids rest (m.searchRecords name ids.length depth scope) := by
  induction ids generalizing scope depth with
  | nil =>
    rw [hl.head]
    exact .next rfl
  | cons id ids ih =>
    obtain ⟨rfl, parent, hlink, hrest⟩ := hl
    obtain ⟨record, hrecord, rfl⟩ := link?_eq_some.mp hlink
    simp only [List.length_cons, searchRecords, hrecord]
    cases hfind : record.names.findIdx? (· == name) with
    | some index => exact .here depth ids rest hrecord hfind
    | none =>
      refine (ih hrest (depth + 1)).cons ?_
      rw [slotIn?, hrecord, Option.bind_some, hfind, Option.map_none]

/-- **The search in a whole chain.** -/
theorem searchChain_line (hl : m.heap.Line ids scope) {fuel : Nat} (hfuel : ids.length < fuel) (depth : Nat) :
    m.Searched name depth ids [] (m.searchChain name fuel depth scope) := by
  induction ids generalizing scope fuel depth with
  | nil =>
    obtain rfl := hl
    cases fuel with
    | zero => cases hfuel
    | succ fuel => exact .next rfl
  | cons id ids ih =>
    obtain ⟨rfl, parent, hlink, hrest⟩ := hl
    obtain ⟨record, hrecord, rfl⟩ := link?_eq_some.mp hlink
    cases fuel with
    | zero => cases hfuel
    | succ fuel =>
      simp only [searchChain, hrecord]
      cases hfind : record.names.findIdx? (· == name) with
      | some index => exact .here depth ids [] hrecord hfind
      | none =>
        refine (ih hrest (Nat.lt_of_succ_lt_succ hfuel) (depth + 1)).cons ?_
        rw [slotIn?, hrecord, Option.bind_some, hfind, Option.map_none]

/-! ### Locations -/

/-- **The outcome of the search for a binding**, for a scope chain of such records. -/
inductive Situates (m : Machine) (name : Atom) (ids : List Handle) :
    Option Binding → Option (Option Location) → Prop
  /-- A variable of a record is located by the place of the record. -/
  | slot {depth : Nat} {id : Handle} (index : Nat) : ids[depth]? = some id →
      Situates m name ids (some (.slot id index)) (some (some (.scope depth index)))
  /-- A variable of the frame. -/
  | own (index : Nat) : Situates m name ids (some (.own index)) (some (some (.register index.toUInt32)))
  /-- A property of the global object. -/
  | global : m.heap.hasProperty? m.intrinsics.global name = some true →
      Situates m name ids (some .global) (some (some .global))
  /-- Nothing is bound, and the search ends. -/
  | unbound : ¬m.Endless name → Situates m name ids none (some none)
  /-- Nothing is bound, and the search does not end. -/
  | endless : m.Endless name → Situates m name ids none none

namespace Scopes

/-- The record of the frame's own variables is passed. -/
theorem capturedScope (hs : m.Scopes f blocks outer) (depth : Nat) :
    m.capturedScope f depth (f.activation.toList ++ outer).head? =
      (depth + f.activation.toList.length, outer.head?) := by
  unfold Machine.capturedScope
  cases ha : f.activation with
  | none => rfl
  | some a =>
    have hline := hs.line.drop blocks.length
    rw [List.append_assoc, List.drop_left, ha] at hline
    obtain ⟨-, parent, hlink, hrest⟩ := hline
    obtain ⟨record, hrecord, rfl⟩ := link?_eq_some.mp hlink
    simp only [Option.toList_some, List.singleton_append, List.head?_cons, if_pos, hrecord, List.length_singleton]
    rw [hrest.head]
    rfl

/-- **The search finds the binding.** -/
theorem situates (hs : m.Scopes f blocks outer) (hf : m.frame? = some f) (name : Atom) :
    m.Situates name (blocks ++ f.activation.toList ++ outer) (m.binding? f blocks outer name) (m.search? name) := by
  have hline := hs.line
  rw [List.append_assoc] at hline
  unfold search? binding? nearest?
  rw [hf, Option.or_assoc, Option.or_assoc]
  dsimp only
  rw [← hs.depth]
  have hblocks : m.Searched name 0 blocks _ (m.searchRecords name blocks.length 0 f.scope) :=
    searchRecords_line hline 0
  generalize m.searchRecords name blocks.length 0 f.scope = search at hblocks ⊢
  cases hblocks with
  | @found n id index hn hslot =>
    rw [hslot, Option.some_or, Nat.zero_add]
    refine .slot index ?_
    rw [List.append_assoc, List.getElem?_append_left (List.getElem?_eq_some_iff.mp hn).1, hn]
  | next hslot =>
    rw [hslot, Option.none_or]
    dsimp only
    split
    case h_1 index hfound =>
      have hown : m.own? f name = some (.own index) := congrArg (Option.map Binding.own) hfound
      rw [hown]
      exact .own index
    case h_2 hfound =>
      have hown : m.own? f name = none := congrArg (Option.map Binding.own) hfound
      rw [hown, Option.none_or]
      rw [hs.capturedScope, Nat.zero_add]
      dsimp only
      have houter : m.heap.Line outer outer.head? := by
        have := hs.line.drop (blocks ++ f.activation.toList).length
        rw [List.drop_left] at this
        rwa [← this.head]
      have hcaptured : m.Searched name _ outer [] _ := searchChain_line houter
        (Nat.lt_succ_of_le houter.length_le) (blocks.length + f.activation.toList.length)
      generalize m.searchChain name (m.heap.slots.size + 1) _ outer.head? = search at hcaptured ⊢
      cases hcaptured with
      | @found n id index hn hslot =>
        rw [hslot, Option.some_or]
        refine .slot index ?_
        rw [← List.length_append, List.getElem?_append_right (Nat.le_add_right _ _), Nat.add_sub_cancel_left, hn]
      | next hslot =>
        rw [hslot, Option.none_or]
        unfold global?
        dsimp only
        cases hglobal : m.heap.hasProperty? m.intrinsics.global name with
        | none => exact .endless (endless_iff.mpr hglobal)
        | some found =>
          cases found with
          | true => exact .global hglobal
          | false => exact .unbound fun hendless => by cases (endless_iff.mp hendless).symm.trans hglobal

/-- A record of the chain is found by its depth. -/
theorem scopeAt? (hs : m.Scopes f blocks outer) (hf : m.frame? = some f) (hr : m.heap.Roomy) {depth : Nat}
    (hid : (blocks ++ f.activation.toList ++ outer)[depth]? = some id) :
    m.scopeAt? depth.toUInt32 = some id := by
  have hlt := Nat.lt_of_lt_of_le (List.getElem?_eq_some_iff.mp hid).1 hs.line.length_le
  have hdepth : depth.toUInt32.toNat = depth := Nat.mod_eq_of_lt (Nat.lt_trans hlt hr)
  unfold Machine.scopeAt? scopeWalk
  rw [hf]
  dsimp only
  rw [hdepth, Nat.min_eq_left (Nat.le_succ_of_le (Nat.le_of_lt hlt)), scopeUp?_eq,
    (hs.line.drop depth).head, List.head?_drop, hid]

/-- **A location in a scope record names the variable** that the name is bound to: it is the variable that is
read there, and the one that is written. -/
theorem placed (hs : m.Scopes f blocks outer) (hf : m.frame? = some f) (hr : m.heap.Roomy) (hfits : m.Fits)
    {depth : Nat} (hl : m.search? name = some (some (.scope depth index))) :
    ∃ id, m.binding? f blocks outer name = some (.slot id index) ∧
      m.scopedVar depth.toUInt32 index.toUInt32 = m.scopeSlot id index ∧
      ∀ v, m.setScopedVar depth.toUInt32 index.toUInt32 v = m.setScopeSlot id index v := by
  have hsituates := hs.situates hf name
  rw [hl] at hsituates
  cases hb : m.binding? f blocks outer name with
  | none =>
    rw [hb] at hsituates
    cases hsituates
  | some b =>
    rw [hb] at hsituates
    cases hsituates with
    | @slot _ id _ hid =>
      obtain ⟨-, record, hrecord, hlt⟩ := mem_of_binding? hb
      have hindex : index.toUInt32.toNat = index :=
        Nat.mod_eq_of_lt (Nat.lt_of_lt_of_le hlt (hfits.records id record hrecord))
      have hat := hs.scopeAt? hf hr hid
      refine ⟨id, rfl, ?_, fun v => ?_⟩
      · rw [scopedVar, hat, hindex]
      · rw [setScopedVar, hat, hindex]

/-- A register that is located is the variable of the frame that the name is bound to. -/
theorem registered (hs : m.Scopes f blocks outer) (hf : m.frame? = some f) (hfits : m.Fits) {r : Register}
    (hl : m.search? name = some (some (.register r))) :
    m.binding? f blocks outer name = some (.own r.toNat) := by
  have hsituates := hs.situates hf name
  rw [hl] at hsituates
  generalize hb : m.binding? f blocks outer name = b at hsituates ⊢
  cases hsituates with
  | own index =>
    have hlt := Nat.lt_of_lt_of_le (lt_of_binding? hb) (hfits.variableNames f)
    exact congrArg (fun n => some (Binding.own n)) (Nat.mod_eq_of_lt hlt).symm

/-- **A name has the value of its binding**; without one there is a reference error, unless it is looked for
without end. -/
theorem resolveName (hs : m.Scopes f blocks outer) (hf : m.frame? = some f) (hr : m.heap.Roomy) (hfits : m.Fits)
    (name : Atom) (env : Env) :
    (∀ b, m.binding? f blocks outer name = some b → resolveName name env m = .ok (m.valueAt name b) m) ∧
    (m.binding? f blocks outer name = none →
      (¬m.Endless name → resolveName name env m =
        raiseError .referenceError (m.atomName name ++ " is not defined") env m) ∧
      (m.Endless name → resolveName name env m = .error .exhausted m)) := by
  have hsituates := hs.situates hf name
  have hplaced {depth index : Nat} (hl : m.search? name = some (some (.scope depth index))) :=
    hs.placed hf hr hfits hl
  unfold ScriptMachine.resolveName
  rw [get_bind]
  generalize hl : m.search? name = location at hsituates hplaced
  generalize hb : m.binding? f blocks outer name = b at hsituates
  cases hsituates with
  | slot index _ =>
    obtain ⟨id, hid, hread, -⟩ := hplaced rfl
    rw [hb] at hid
    obtain ⟨rfl, -⟩ := Binding.slot.inj (Option.some.inj hid)
    refine ⟨fun b hb => ?_, fun hnone => by cases hnone⟩
    obtain rfl := Option.some.inj hb
    exact congrArg (EStateM.Result.ok · m) hread
  | own index =>
    refine ⟨fun b hb => ?_, fun hnone => by cases hnone⟩
    obtain rfl := Option.some.inj hb
    rfl
  | global hhas =>
    refine ⟨fun b hb => ?_, fun hnone => by cases hnone⟩
    obtain rfl := Option.some.inj hb
    obtain ⟨lookup, hlookup, -⟩ := Option.map_eq_some_iff.mp hhas
    have hvalue : m.heap.getProperty? m.intrinsics.global name = some lookup.value :=
      congrArg (Option.map PropertyLookup.value) hlookup
    simp only [settled_some, pure_bind, hvalue, valueAt, Option.getD_some]
    rfl
  | unbound hends => exact ⟨fun b hb => (by cases hb), fun _ => ⟨fun _ => rfl, fun h => absurd h hends⟩⟩
  | endless hendless => exact ⟨fun b hb => (by cases hb), fun _ => ⟨fun h => absurd hendless h, fun _ => rfl⟩⟩

/-- A name that is bound nowhere has no value. -/
theorem not_resolved (hs : m.Scopes f blocks outer) (hf : m.frame? = some f) (hr : m.heap.Roomy) (hfits : m.Fits)
    (hb : m.binding? f blocks outer name = none) (env : Env) (v : Value) (m' : Machine) :
    ScriptMachine.resolveName name env m ≠ .ok v m' := by
  obtain ⟨herror, hnever⟩ := (hs.resolveName hf hr hfits name env).2 hb
  by_cases hendless : m.Endless name
  · rw [hnever hendless]
    exact fun h => by cases h
  · rw [herror hendless]
    exact Fails.raiseError _ _ _ _ _ _

/-- **The result of a name is the value that it means.** -/
theorem resolved_iff (hs : m.Scopes f blocks outer) (hf : m.frame? = some f) (hr : m.heap.Roomy) (hfits : m.Fits)
    {env : Env} {v : Value} : ScriptMachine.resolveName name env m = .ok v m ↔
      (m.meaning? f blocks outer name).map Prod.snd = some v := by
  unfold meaning?
  cases hb : m.binding? f blocks outer name with
  | none => exact iff_of_false (hs.not_resolved hf hr hfits hb env v m) nofun
  | some b =>
    rw [(hs.resolveName hf hr hfits name env).1 b hb]
    exact ⟨fun h => congrArg some (EStateM.Result.ok.inj h).1,
      fun h => congrArg (EStateM.Result.ok · m) (Option.some.inj h :)⟩

end Scopes

end Machine

end ScriptMachine
