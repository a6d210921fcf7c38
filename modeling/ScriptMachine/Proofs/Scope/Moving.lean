import ScriptMachine.Proofs.Heap.Lookup
import ScriptMachine.Proofs.Scope.Names

/-! # Names while variables move

When the variables of the running frame move to the heap, a record for them is allocated, before which there may
be a collection. That spares every cell that can be reached (`Machine.Spares`). The scope chain of the frame can
be reached, and so can the global object with its prototypes, since it is a root; the new record has no names of
its own, so that nothing is found there, should a prototype be a dangling handle. So the frame has the same chain, with the new record between its block scopes
and what its function captured (`Scopes.moves`), and names are bound to the same, with the same values
(`Scopes.agrees`). -/

namespace ScriptMachine

open Machine

namespace Machine

/-! ### What an allocation spares -/

/-- A collection keeps the cell of the handle, if it has one, and no cell will be given to it. -/
structure Kept (m : Machine) (id : Handle) : Prop where
  issued : m.heap.Issued id
  reached : m.heap.isLive id = true → m.heap.Reachable m.anchors id

/-- **What an allocation spares**: cells that are kept are the same, and look the same, and where there was no
cell nothing is found. -/
structure Spares (m m' : Machine) : Prop where
  quiet : m.Quiet m'
  intrinsics : m'.intrinsics = m.intrinsics
  cells : ∀ id, m.Kept id → m'.heap.cell? id = m.heap.cell? id
  shapes : ∀ id c, m.Kept id → m.heap.cell? id = some c →
    m'.heap.shapes.get c.shape = m.heap.shapes.get c.shape
  atoms : m'.heap.atoms = m.heap.atoms
  bare : ∀ id c, m.heap.isLive id = false → m'.heap.cell? id = some c → m'.heap.Bare c
  size : m.heap.slots.size ≤ m'.heap.slots.size

variable {m m' mid : Machine} {f : Frame} {name : Atom} {id a : Handle} {blocks outer ids : List Handle}
  {scope : Option Handle} {payload : Payload} {shape : ShapeId} {env : Env}

theorem issued_of_live (hlive : m.heap.isLive id = true) : m.heap.Issued id := fun _ => .inl hlive

/-- **A collection** spares what it reaches. -/
theorem Regular.spares_collect (hm : m.Regular) : m.Spares m.collect.2 := by
  obtain ⟨forget, -, heq⟩ := collect_frame m
  have hheap : m.collect.2.heap = (m.heap.collect m.roots m.rootWords).2 := by rw [heq]
  have hcells (id : Handle) (hid : m.Kept id) : m.collect.2.heap.cell? id = m.heap.cell? id := by
    rw [hheap]
    refine Option.ext fun c => ⟨fun hc => ((Heap.cell?_collect hm.white _ _).mp hc).1, fun hc => ?_⟩
    exact (Heap.cell?_collect hm.white _ _).mpr ⟨hc, hid.reached (Heap.isLive_of_cell? hc)⟩
  refine ⟨(arrives_collect m).2, by rw [heq], hcells, fun id c hid hc => ?_, ?_, fun id c hdead hc => ?_, ?_⟩
  · rw [← hcells id hid, hheap] at hc
    rw [hheap]
    exact Heap.shape_collect hm.white _ _ hc
  · rw [hheap, Heap.collect_frame hm.white]
  · rw [hheap] at hc
    rw [Heap.isLive_of_cell? ((Heap.cell?_collect hm.white _ _).mp hc).1] at hdead
    cases hdead
  · rw [hheap, Heap.size_collect hm.white]

/-- The shape of scope records has no names, and they have no prototype. -/
theorem Rooted.bare {c : Cell} (hm : m.Rooted) (hshape : c.shape = m.intrinsics.activationShape) {record : ScopeRecord}
    (hp : c.payload = .activation record) : m.heap.Bare c := by
  obtain ⟨shape, hfounds, hprototype, hproperties⟩ := hm.shape
  have hget : m.heap.shapes.get c.shape = shape := by rw [hshape, hfounds.get]
  refine ⟨fun name => ?_, ?_⟩
  · have hlookup : m.heap.shapes.lookup? c.shape name = none := by
      rw [ShapeTable.lookup?, hget, Shape.lookup?, hproperties]
      cases shape.index[name]? <;> rfl
    rw [Heap.here?, Heap.synthesized?, hp, hlookup]
    rfl
  · rw [Heap.above, hget, hprototype]
    exact Value.cell?_null

/-- A new record after that. -/
theorem Spares.allocate (hs : m.Spares m') (hm' : m'.Regular) (hrooted : m'.Rooted) (ho : m.heap.Outlasts m'.heap)
    (record : ScopeRecord)
    (hr : (m'.heap.allocate m'.intrinsics.activationShape (.activation record)).2.Roomy) :
    m.Spares { m' with heap := (m'.heap.allocate m'.intrinsics.activationShape (.activation record)).2 } := by
  obtain ⟨hshapes, hatoms, -⟩ :=
    Heap.allocate_frame m'.heap m'.intrinsics.activationShape (.activation record)
  have hsize := Heap.size_le_allocated m'.heap m'.intrinsics.activationShape (.activation record)
  have hroomy : m'.heap.Roomy := Nat.lt_of_le_of_lt hsize hr
  refine ⟨⟨hs.quiet.frames, hs.quiet.registers, hs.quiet.hosts, hs.quiet.codes⟩, hs.intrinsics,
    fun id hid => ?_, fun id c hid hc => ?_, hatoms.trans hs.atoms, fun id c hdead hc => ?_,
    Nat.le_trans hs.size hsize⟩
  · refine Eq.trans ?_ (hs.cells id hid)
    exact (ho.issued id hid.issued).cell?_allocate (hm'.listed hroomy) _ _ hr
  · change (m'.heap.allocate _ _).2.shapes.get c.shape = _
    rw [hshapes]
    exact hs.shapes id c hid hc
  · refine Heap.Bare.congr ?_ hshapes hatoms
    rcases Heap.cell?_allocated hc with hold | ⟨-, hp, hshape⟩
    · exact hs.bare id c hdead hold
    · exact hrooted.bare hshape hp

theorem Spares.refl (m : Machine) : m.Spares m := by
  refine ⟨.refl m, rfl, fun _ _ => rfl, fun _ _ _ _ => rfl, rfl, fun id c hdead hc => ?_, Nat.le_refl _⟩
  rw [Heap.isLive_of_cell? hc] at hdead
  cases hdead

end Machine

/-- What a sequence of actions did, if it has a result. -/
theorem ok_of_bind {α β : Type} {x : MachineM α} {g : α → MachineM β} {env : Env} {m m'' : Machine} {b : β}
    (h : (x >>= g) env m = .ok b m'') : ∃ a m', x env m = .ok a m' ∧ g a env m' = .ok b m'' := by
  cases hx : x env m with
  | ok a m' =>
    rw [bind_eq_of_ok hx] at h
    exact ⟨a, m', rfl, h⟩
  | error stop m' =>
    rw [bind_eq_of_error hx] at h
    cases h

namespace Machine

variable {m m' mid : Machine} {f : Frame} {name : Atom} {id a : Handle} {blocks outer ids : List Handle}
  {scope : Option Handle} {payload : Payload} {shape : ShapeId} {env : Env}

/-- A checkpoint that is passed. -/
theorem ok_of_checkpoint {u : Unit} {held : List Value} (h : checkpoint held env m = .ok u m') : m' = m := by
  unfold checkpoint at h
  split at h
  · cases h
  · cases h
    rfl

theorem ok_of_allocateCell (h : allocateCell shape payload env m = .ok id m') :
    (m.heap.allocate shape payload).1 = .ok id ∧
      m' = { m with heap := (m.heap.allocate shape payload).2 } := by
  obtain ⟨_, m₁, hpass, hrest⟩ := ok_of_bind h
  cases ok_of_checkpoint hpass
  obtain ⟨r, m₂, hplace, hrest⟩ := ok_of_bind hrest
  have hplaced : withHeap (·.allocate shape payload) env m = .ok (m.heap.allocate shape payload).1
      { m with heap := (m.heap.allocate shape payload).2 } := rfl
  obtain ⟨hr, hm₂⟩ := EStateM.Result.ok.inj (hplaced.symm.trans hplace)
  cases r with
  | error failure => cases hrest
  | ok id =>
    obtain ⟨rfl, rfl⟩ := EStateM.Result.ok.inj hrest
    exact ⟨hr, hm₂.symm⟩

/-- **What an allocation does**, if it succeeds: there may be a collection, and then there is a new cell. -/
theorem ok_of_allocate {hexact : payload.Exact} (h : allocate shape payload hexact env m = .ok id m') :
    ∃ m₁, (m₁ = m ∨ m₁ = m.collect.2) ∧ (m₁.heap.allocate shape payload).1 = .ok id ∧
      m' = { m₁ with heap := (m₁.heap.allocate shape payload).2 } := by
  obtain ⟨_, m₁, hpass, hrest⟩ := ok_of_bind h
  cases ok_of_checkpoint hpass
  rw [get_bind] at hrest
  dsimp only at hrest
  split at hrest
  case isTrue =>
    obtain ⟨_, m₂, hcollect, hplace⟩ := ok_of_bind hrest
    cases hcollect
    exact ⟨_, .inr rfl, ok_of_allocateCell hplace⟩
  case isFalse => exact ⟨m, .inl rfl, ok_of_allocateCell hrest⟩

/-- **Allocating a record** spares what can be reached, and there is a new cell. -/
theorem Sheltered.spares_allocate {record : ScopeRecord} (hm : m.Sheltered)
    (h : (ScriptMachine.allocate m.intrinsics.activationShape (.activation record)) env m = .ok id m')
    (hr : m'.heap.Roomy) :
    m.Spares m' ∧ m'.scopeRecord? id = some record := by
  obtain ⟨m₁, hm₁, hid, rfl⟩ := ok_of_allocate h
  have hbefore : m.Spares m₁ ∧ m₁.Regular ∧ m₁.Rooted ∧ m.heap.Outlasts m₁.heap := by
    rcases hm₁ with rfl | rfl
    · exact ⟨.refl m₁, hm.regular, hm.rooted, .refl _⟩
    · have habides : m.Abides m.collect.2 := Silent.collect.abides hm.regular
      exact ⟨hm.regular.spares_collect, habides.regular, Silent.collect.rooted hm.regular hm.rooted, habides.heap⟩
  obtain ⟨hspares, hregular, hrooted, houtlasts⟩ := hbefore
  rw [← hspares.intrinsics] at hid hr ⊢
  have hroomy : m₁.heap.Roomy := Nat.lt_of_le_of_lt (Heap.size_le_allocated m₁.heap _ _) hr
  obtain ⟨-, hcell⟩ := Heap.cell?_allocate (hregular.listed hroomy) hid (Nat.le_of_lt hr)
  refine ⟨hspares.allocate hregular hrooted houtlasts record hr, ?_⟩
  exact scopeRecord?_eq_some.mpr ⟨_, _, (hcell id).trans (if_pos rfl), (Heap.payload_new _ _ _).1⟩

/-- A record in the heap after an allocation was there before, or it is the new one. -/
theorem scopeRecord?_of_allocate {record : ScopeRecord} (hw : m.heap.AllWhite) {hexact : payload.Exact}
    (h : allocate shape payload hexact env m = .ok id m') (hrecord : m'.scopeRecord? a = some record) :
    m.scopeRecord? a = some record ∨ ∃ room, payload = .activation record room := by
  obtain ⟨m₁, hm₁, -, rfl⟩ := ok_of_allocate h
  obtain ⟨c, room, hc, hp⟩ := scopeRecord?_eq_some.mp hrecord
  refine (Heap.cell?_allocate_cases hc).imp (fun hold => ?_) fun hnew => ⟨room, hnew.symm.trans hp⟩
  refine scopeRecord?_eq_some.mpr ⟨c, room, ?_, hp⟩
  rcases hm₁ with rfl | rfl
  · exact hold
  · rw [heap_collect] at hold
    exact ((Heap.cell?_collect hw _ _).mp hold).1

/-! ### What is spared -/

section Spared
variable (hs : m.Spares m')
include hs

theorem Spares.scopeRecord? (hid : m.Kept id) : m'.scopeRecord? id = m.scopeRecord? id := by
  unfold Machine.scopeRecord?
  rw [hs.cells id hid]

theorem Spares.slot? (hids : ∀ id ∈ ids, m.Kept id) (name : Atom) : m'.slot? name ids = m.slot? name ids := by
  induction ids with
  | nil => rfl
  | cons id ids ih =>
    have hid : m'.slotIn? name id = m.slotIn? name id := by
      unfold slotIn?
      rw [hs.scopeRecord? (hids id List.mem_cons_self)]
    have hrest := ih fun id h => hids id (List.mem_cons_of_mem _ h)
    unfold Machine.slot? at hrest ⊢
    rw [List.findSome?_cons, List.findSome?_cons, hid, hrest]

/-- What is kept looks the same to lookups. -/
theorem Spares.alike : m.heap.Alike m'.heap m.Kept where
  cells := hs.cells
  shapes := hs.shapes
  atoms := hs.atoms
  closed id c next hid hcell habove := by
    cases hlive : m.heap.isLive next with
    | true =>
      have hreach := hid.reached (Heap.isLive_of_cell? hcell)
      refine .inl ⟨issued_of_live hlive, fun _ => ?_⟩
      exact .step hreach hcell (.prototype (Value.cell?_eq_some.mp habove)) hlive
    | false =>
      refine .inr ⟨Heap.barren_of_none ?_, ?_⟩
      · exact Option.eq_none_iff_forall_ne_some.mpr fun c hc => by rw [Heap.isLive_of_cell? hc] at hlive; cases hlive
      · cases hc : m'.heap.cell? next with
        | none => exact Heap.barren_of_none hc
        | some c => exact (hs.bare next c hlive hc).barren hc

theorem Spares.global (hm : m.Rooted) (name : Atom) : m'.global? name = m.global? name ∧
    m'.valueAt name .global = m.valueAt name .global ∧ (m'.Endless name ↔ m.Endless name) := by
  have hkept : m.Kept m.intrinsics.global :=
    ⟨hm.issued, fun hlive => .root (mem_anchors.mpr (.inr (.inr (.inl hm.global)))) hlive⟩
  rw [endless_iff, endless_iff]
  unfold global? valueAt
  rw [hs.intrinsics, hs.alike.hasProperty? hkept, hs.alike.getProperty? hkept]
  exact ⟨rfl, rfl, .rfl⟩

theorem Spares.variableNames (f : Frame) : m'.variableNames f = m.variableNames f := by
  have hcode : (m'.code? f.code).map CodeEntry.fixed = (m.code? f.code).map CodeEntry.fixed := by
    unfold code?
    rw [← Array.getElem?_map, ← Array.getElem?_map, hs.quiet.codes]
  unfold Machine.variableNames
  cases h : m.code? f.code with
  | none =>
    rw [h] at hcode
    rw [Option.map_eq_none_iff.mp hcode]
  | some entry =>
    rw [h] at hcode
    obtain ⟨entry', h', hfixed⟩ := Option.map_eq_some_iff.mp hcode
    rw [h']
    exact (congrArg CodeEntry.variableNames hfixed :)

end Spared

/-- What a frame refers to is kept, if it is a handle that was issued. -/
theorem kept_of_frame (hf : f ∈ m.frames) (hroot : .cell id ∈ frameRoots f) (hissued : m.heap.Issued id) :
    m.Kept id :=
  ⟨hissued, fun hlive => .root (mem_anchors.mpr (.inl (mem_roots.mpr (.inr (.inl ⟨f, hf, hroot⟩))))) hlive⟩

namespace Scopes

/-- **The scope chain of a frame is kept.** -/
theorem kept (hs : m.Scopes f blocks outer) (hf : f ∈ m.frames) :
    ∀ id ∈ blocks ++ f.activation.toList ++ outer, m.Kept id := by
  intro id hid
  refine ⟨issued_of_live ?_, fun _ => hs.line.chain.reachable _ (fun scope hscope hlive => ?_) id hid⟩
  · obtain ⟨parent, hlink⟩ := hs.line.chain.link hid
    exact Heap.isLive_of_link? hlink
  · refine (kept_of_frame hf (mem_frameRoots.mpr (.inr (.inr (.inl ?_)))) (issued_of_live hlive)).reached hlive
    rw [hscope]
    rfl

/-- The scope chain of a frame is spared. -/
theorem spared (hs : m.Scopes f blocks outer) (hm : m.Regular) (hf : f ∈ m.frames) (hspares : m.Spares m') :
    m'.Scopes f blocks outer := by
  have hlink (id : Handle) (hid : m.Kept id) : m'.heap.link? id = m.heap.link? id := by
    unfold Heap.link?
    rw [hspares.cells id hid]
  refine hs.transfer ?_ (hs.line.transfer fun id hid => hlink id (hs.kept hf id hid))
  have hcallee : f.callee ∈ m.callees := by
    simp only [callees, List.mem_map, List.mem_reverse, Array.mem_toList_iff]
    exact ⟨f, hf, rfl⟩
  obtain ⟨id, hid, hissued⟩ := hm.callees _ hcallee
  refine captured_of_function? hid ?_
  unfold Heap.function?
  rw [hspares.cells id (kept_of_frame hf (mem_frameRoots.mpr (.inl hid.symm)) hissued)]

end Scopes

/-! ### Moving -/

/-- **What moving variables does**: nothing once they have moved; else there is a new record for them. -/
theorem ok_of_tearOffActivation (hf : m.frame? = some f) (h : tearOffActivation env m = .ok a m') :
    f.activation = some a ∧ m' = m ∨ f.activation = none ∧ ∃ mid, m' = mid.tornOff a ∧
      (allocate m.intrinsics.activationShape (.activation (m.activationRecord f))) env m = .ok a mid := by
  obtain ⟨_, m₁, hframe, hrest⟩ := ok_of_bind h
  cases (currentFrame_eq hf env).symm.trans hframe
  cases ha : f.activation with
  | some b =>
    rw [ha] at hrest
    cases hrest
    exact .inl ⟨rfl, rfl⟩
  | none =>
    rw [ha] at hrest
    obtain ⟨_, m₂, hget, hrest⟩ := ok_of_bind hrest
    cases hget
    obtain ⟨b, mid, hallocate, hrest⟩ := ok_of_bind hrest
    obtain ⟨_, m₃, hmodify, hrest⟩ := ok_of_bind hrest
    cases hmodify
    cases hrest
    exact .inr ⟨rfl, mid, rfl, hallocate⟩

/-- The indices of variables still fit: the names of the new record are those of the code. -/
theorem Fits.tornOff (hm : m.Fits) (hw : m.heap.AllWhite) (hq : m.Quiet mid)
    (h : (allocate shape (.activation (m.activationRecord f))) env m = .ok a mid) : (mid.tornOff a).Fits where
  records id record hrecord := by
    have hrecord : mid.scopeRecord? id = some record := hrecord
    rcases scopeRecord?_of_allocate hw h hrecord with hold | ⟨room, hnew⟩
    · exact hm.records id record hold
    · rw [← (Payload.activation.inj hnew).1]
      exact hm.variableNames f
  codes entry hentry := by
    have hmem : entry.fixed ∈ m.codes.map CodeEntry.fixed := by
      rw [← hq.codes]
      exact Array.mem_map_of_mem hentry
    obtain ⟨old, hold, hfixed⟩ := Array.mem_map.mp hmem
    rw [show entry.variableNames = old.variableNames from (congrArg CodeEntry.variableNames hfixed :).symm]
    exact hm.codes old hold

/-- **The record for the variables of a frame** has been allocated. -/
structure Prepares (m : Machine) (f : Frame) (a : Handle) (mid : Machine) : Prop where
  unmoved : f.activation = none
  spares : m.Spares mid
  record : mid.scopeRecord? a = some (m.activationRecord f)

/-- **The scope chain of a frame whose variables move**: the record of its variables comes between its block
scopes, of which none is open, and what its function captured. -/
theorem Scopes.moves (hs : m.Scopes f blocks outer) (hm : m.Regular) (hf : m.frame? = some f)
    (hclosed : f.scopeDepth = 0) (h : m.Prepares f a mid) :
    (mid.tornOff a).Scopes { f with activation := some a, scope := some a } blocks outer := by
  have hmid := hs.spared hm (Array.mem_of_back? hf) h.spares
  obtain rfl : blocks = [] := List.eq_nil_of_length_eq_zero (by rw [hs.depth, hclosed]; rfl)
  exact (hmid.tears h.unmoved hclosed (link?_eq_some.mpr ⟨_, h.record, rfl⟩)).congr rfl

/-- **Names mean the same after the variables have moved.** -/
theorem Scopes.meaning?_tornOff (hs : m.Scopes f blocks outer) (hf : m.frame? = some f) (h : m.Prepares f a mid)
    (hrooted : m.Rooted) (name : Atom) :
    (mid.tornOff a).meaning? { f with activation := some a, scope := some a } blocks outer name =
      m.meaning? f blocks outer name := by
  let f' : Frame := { f with activation := some a, scope := some a }
  have hkept := hs.kept (Array.mem_of_back? hf)
  have hblocks (id : Handle) (hid : id ∈ blocks) : m.Kept id :=
    hkept id (List.mem_append_left _ (List.mem_append_left _ hid))
  have houter (id : Handle) (hid : id ∈ outer) : m.Kept id := hkept id (List.mem_append_right _ hid)
  have hown : mid.own? f' name = m.own? f name := by
    unfold own?
    rw [show mid.variableNames f' = m.variableNames f from h.spares.variableNames f]
  have hnearest : mid.nearest? f' blocks outer name = m.nearest? f blocks outer name := by
    rw [nearest?, nearest?, h.spares.slot? hblocks, h.spares.slot? houter, hown]
  have hbinding : mid.binding? f' blocks outer name = m.binding? f blocks outer name := by
    rw [binding?, binding?, hnearest, (h.spares.global hrooted name).1]
  have hvalue (b : Binding) (hb : m.binding? f blocks outer name = some b) :
      (mid.tornOff a).valueAt name b = m.valueAt name b := by
    cases b with
    | slot id index =>
      have hrecord := h.spares.scopeRecord? ((mem_of_binding? hb).1.elim (hblocks id) (houter id))
      change mid.scopeSlot id index = m.scopeSlot id index
      rw [scopeSlot, hrecord, scopeSlot]
    | own index => exact register_tornOff hf h.unmoved h.spares.quiet h.record _
    | global => exact (h.spares.global hrooted name).2.1
  unfold meaning?
  rw [show (mid.tornOff a).binding? f' blocks outer name = _ from hbinding]
  exact Option.map_congr fun b hb => congrArg (Prod.mk b) (hvalue b hb)

/-- **The frame is in the same place of its scopes**: it has the same block scopes and the same captured records,
names have the same bindings and values as before, and those that are looked for without end are the same. -/
structure Remains (m : Machine) (f : Frame) (blocks outer : List Handle) (m' : Machine) (f' : Frame) : Prop where
  frame : m'.frame? = some f'
  scopes : m'.Scopes f' blocks outer
  fits : m.Fits → m'.Fits
  meaning : ∀ name, m'.meaning? f' blocks outer name = m.meaning? f blocks outer name
  endless : ∀ name, m'.Endless name ↔ m.Endless name
  resolved : m.Fits → ∀ name env v, resolveName name env m' = .ok v m' ↔ resolveName name env m = .ok v m

theorem Remains.refl (hf : m.frame? = some f) (hs : m.Scopes f blocks outer) : m.Remains f blocks outer m f :=
  ⟨hf, hs, id, fun _ => rfl, fun _ => .rfl, fun _ _ _ _ => .rfl⟩

/-- Names that mean the same have the same result. -/
theorem resolveName_congr {f' : Frame} (hf : m.frame? = some f) (hs : m.Scopes f blocks outer)
    (hr : m.heap.Roomy) (hfits : m.Fits) (hf' : m'.frame? = some f') (hs' : m'.Scopes f' blocks outer)
    (hr' : m'.heap.Roomy) (hfits' : m'.Fits)
    (hname : m'.meaning? f' blocks outer name = m.meaning? f blocks outer name) (env : Env) (v : Value) :
    resolveName name env m' = .ok v m' ↔ resolveName name env m = .ok v m := by
  rw [hs'.resolved_iff hf' hr' hfits', hs.resolved_iff hf hr hfits, hname]

/-- **Moving the variables of the running frame**, while no block scope is open. -/
theorem Scopes.tearOffActivation (hs : m.Scopes f blocks outer) (hm : m.Sheltered) (hf : m.frame? = some f)
    (hclosed : f.activation = none → f.scopeDepth = 0) (h : tearOffActivation env m = .ok a m')
    (hr : m'.heap.Roomy) : ∃ f', f'.activation = some a ∧ m.Remains f blocks outer m' f' := by
  rcases ok_of_tearOffActivation hf h with ⟨ha, rfl⟩ | ⟨ha, mid, rfl, hallocate⟩
  · exact ⟨f, ha, .refl hf hs⟩
  · obtain ⟨hspares, hrecord⟩ := hm.spares_allocate hallocate hr
    have hprepares : m.Prepares f a mid := ⟨ha, hspares, hrecord⟩
    have hf' : (mid.tornOff a).frame? = some { f with activation := some a, scope := some a } :=
      frame?_modifyFrame (hspares.quiet.frame?.trans hf)
    have hs' := hs.moves hm.regular hf (hclosed ha) hprepares
    have hfits (hfits : m.Fits) := hfits.tornOff hm.regular.white hspares.quiet hallocate
    have hroomy : m.heap.Roomy := Nat.lt_of_le_of_lt hspares.size hr
    have hmeaning (name : Atom) := hs.meaning?_tornOff hf hprepares hm.rooted name
    have hendless (name : Atom) := (hspares.global hm.rooted name).2.2
    exact ⟨_, rfl, hf', hs', hfits, hmeaning, hendless, fun h name env =>
      resolveName_congr hf hs hroomy h hf' hs' hr (hfits h) (hmeaning name) env⟩

/-- **Moving variables if the code asks for it**: if they have not moved yet, no block scope is open. -/
theorem Scopes.tearOffIfNeeded (hs : m.Scopes f blocks outer) (hm : m.Sheltered) (hf : m.frame? = some f)
    {u : Unit} (h : tearOffIfNeeded env m = .ok u m') (hr : m'.heap.Roomy) :
    ∃ f', m.Remains f blocks outer m' f' := by
  obtain ⟨_, _, hframe, hrest⟩ := ok_of_bind h
  cases (currentFrame_eq hf env).symm.trans hframe
  rw [get_bind] at hrest
  cases hcode : m.code? f.code with
  | none =>
    rw [hcode] at hrest
    cases hrest
    exact ⟨f, .refl hf hs⟩
  | some entry =>
    rw [hcode] at hrest
    dsimp only at hrest
    split at hrest
    case isFalse =>
      cases hrest
      exact ⟨f, .refl hf hs⟩
    case isTrue hneeds =>
      change (ScriptMachine.tearOffActivation >>= fun _ => pure ()) env m = _ at hrest
      obtain ⟨a, _, hmoves, hrest⟩ := ok_of_bind hrest
      cases hrest
      -- with an open block scope, the variables of such code would have moved
      have hclosed (ha : f.activation = none) : f.scopeDepth = 0 := by
        by_contra hd
        obtain ⟨entry', hentry', hmoved⟩ := hm.moved f (Array.mem_of_back? hf) hd
        obtain rfl := Option.some.inj (hcode.symm.trans hentry')
        exact absurd hneeds (by rw [hmoved ha]; exact Bool.false_ne_true)
      obtain ⟨f', -, hremains⟩ := hs.tearOffActivation hm hf hclosed hmoves hr
      exact ⟨f', hremains⟩

end Machine

end ScriptMachine
