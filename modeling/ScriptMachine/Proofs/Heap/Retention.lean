import ScriptMachine.Proofs.Heap.Closed
import Mathlib.Data.List.Perm.Subperm

/-! # What operations on cells leave alone

Scope records are linked by their parents, and nothing ever changes such a link. Operations on
properties retain all payloads but the elements of arrays, and which slots are free (`Heap.Retains`);
an allocation adds a record under a handle that named nothing, and a collection takes away only records
that cannot be reached. So the records that a chain of links goes through (`Heap.Chain`) stay the same
as long as the chain is reachable from its start. -/

namespace ScriptMachine

/-- A payload without the elements of an array. -/
def Payload.fixture : Payload → Payload
  | .array _ => .array {}
  | payload => payload

/-- What operations on properties leave alone of a cell. -/
def Cell.fixture (c : Cell) : Payload := c.payload.fixture

/-- The generation of a slot, and whether it holds a cell. -/
def Slot.outline (slot : Slot) : UInt16 × Bool := (slot.generation, slot.cell.isSome)

/-- The scope that a scope record is enclosed by. -/
def Cell.link? (c : Cell) : Option (Option Handle) := c.scope?.map (·.parent)

theorem Cell.link?_eq_some {c : Cell} {parent : Option Handle} :
    c.link? = some parent ↔ ∃ record room, c.payload = .activation record room ∧ record.parent = parent := by
  unfold link? scope?
  split <;> simp_all

theorem Cell.fixture_eq_activation {c : Cell} {record : ScopeRecord} {room : Nat} :
    c.fixture = .activation record room ↔ c.payload = .activation record room := by
  unfold fixture Payload.fixture
  split <;> simp_all

theorem Cell.fixture_eq_function {c : Cell} {data : FunctionData} :
    c.fixture = .function data ↔ c.payload = .function data := by
  unfold fixture Payload.fixture
  split <;> simp_all

theorem Cell.fixture_congr {c c' : Cell} (h : c'.payload = c.payload) : c'.fixture = c.fixture :=
  congrArg Payload.fixture h

theorem Cell.fixture_mapElements (f : Elements → Elements) (c : Cell) :
    (c.mapElements f).fixture = c.fixture := by
  rcases c with ⟨_, _, _, payload⟩
  cases payload <;> rfl

/-- The link is part of what stays. -/
theorem Cell.link?_of_fixture {c c' : Cell} (h : c'.fixture = c.fixture) : c'.link? = c.link? := by
  refine Option.ext fun parent => ?_
  simp only [link?_eq_some, ← fixture_eq_activation, h]

theorem Cell.link?_mapScope {f : ScopeRecord → ScopeRecord} (hf : ∀ s, (f s).parent = s.parent)
    (c : Cell) : (c.mapScope f).link? = c.link? := by
  rcases c with ⟨_, _, _, payload⟩
  cases payload with
  | activation scope => exact congrArg some (hf scope)
  | _ => rfl

namespace Heap

/-- The scope that encloses the record a handle names, if it names one. -/
def link? (h : Heap) (id : Handle) : Option (Option Handle) := (h.cell? id).bind Cell.link?

/-- The scope around a scope. -/
def enclosing (h : Heap) (scope : Option Handle) : Option Handle := (scope.bind h.link?).join

/-- **A chain of scope records**: from a scope through the given records, each the parent of the one
before. -/
def Chain (h : Heap) : List Handle → Option Handle → Prop
  | [], _ => True
  | id :: ids, scope => scope = some id ∧ ∃ parent, h.link? id = some parent ∧ h.Chain ids parent

/-- A scope is below so many different records. -/
def Scoped (h : Heap) (count : Nat) (scope : Option Handle) : Prop :=
  ∃ ids : List Handle, ids.Nodup ∧ ids.length = count ∧ h.Chain ids scope

variable {h h' h'' : Heap} {id : Handle} {ids : List Handle} {scope : Option Handle} {count : Nat}

/-! ### Chains -/

theorem isLive_of_link? {parent : Option Handle} (hl : h.link? id = some parent) :
    h.isLive id = true := by
  obtain ⟨c, hc, -⟩ := Option.bind_eq_some_iff.mp hl
  exact isLive_of_cell? hc

theorem enclosing_congr (hl : h'.link? = h.link?) : h'.enclosing = h.enclosing := by
  funext scope
  unfold enclosing
  rw [hl]

theorem Chain.link (hc : h.Chain ids scope) (hid : id ∈ ids) : ∃ parent, h.link? id = some parent := by
  induction ids generalizing scope with
  | nil => cases hid
  | cons first rest ih =>
    obtain ⟨-, parent, hl, hrest⟩ := hc
    rcases List.mem_cons.mp hid with rfl | hid
    · exact ⟨parent, hl⟩
    · exact ih hrest hid

theorem Chain.transfer (hc : h.Chain ids scope) (hkeep : ∀ id ∈ ids, h'.link? id = h.link? id) :
    h'.Chain ids scope := by
  induction ids generalizing scope with
  | nil => trivial
  | cons first rest ih =>
    obtain ⟨hs, parent, hl, hrest⟩ := hc
    refine ⟨hs, parent, ?_, ih hrest fun id hid => hkeep id (List.mem_cons_of_mem _ hid)⟩
    rw [hkeep first List.mem_cons_self, hl]

theorem Chain.enclosing_eq (hc : h.Chain ids scope) (hkeep : ∀ id ∈ ids, h'.link? id = h.link? id)
    {n : Nat} (hn : n ≤ ids.length) : h'.enclosing^[n] scope = h.enclosing^[n] scope := by
  induction n generalizing ids scope with
  | zero => rfl
  | succ n ih =>
    cases ids with
    | nil => cases hn
    | cons first rest =>
      obtain ⟨rfl, parent, hl, hrest⟩ := hc
      have hstep : h'.enclosing (some first) = h.enclosing (some first) := by
        simp only [enclosing, Option.bind_some, hkeep first List.mem_cons_self]
      have hparent : h.enclosing (some first) = parent := by
        simp only [enclosing, Option.bind_some, hl, Option.join_some]
      rw [Function.iterate_succ_apply, Function.iterate_succ_apply, hstep, hparent]
      exact ih hrest (fun id hid => hkeep id (List.mem_cons_of_mem _ hid))
        (Nat.le_of_succ_le_succ hn)

/-- The part of a chain that is left after its first records. -/
theorem Chain.drop (hc : h.Chain ids scope) (n : Nat) :
    h.Chain (ids.drop n) (h.enclosing^[n] scope) ∨ ids.length < n := by
  induction n generalizing ids scope with
  | zero => exact .inl hc
  | succ n ih =>
    cases ids with
    | nil => exact .inr (Nat.succ_pos n)
    | cons first rest =>
      obtain ⟨rfl, parent, hl, hrest⟩ := hc
      have hparent : h.enclosing (some first) = parent := by
        simp only [enclosing, Option.bind_some, hl, Option.join_some]
      rw [Function.iterate_succ_apply, hparent]
      exact (ih hrest).imp_right Nat.succ_lt_succ

/-- The first records of a chain. -/
theorem Chain.take (hc : h.Chain ids scope) (n : Nat) : h.Chain (ids.take n) scope := by
  induction n generalizing ids scope with
  | zero => trivial
  | succ n ih =>
    cases ids with
    | nil => trivial
    | cons first rest =>
      obtain ⟨hs, parent, hl, hrest⟩ := hc
      exact ⟨hs, parent, hl, ih hrest⟩

theorem Scoped.drop (hs : h.Scoped count scope) {n : Nat} (hn : n ≤ count) :
    h.Scoped (count - n) (h.enclosing^[n] scope) := by
  obtain ⟨ids, hnodup, rfl, hc⟩ := hs
  refine ⟨ids.drop n, hnodup.sublist (List.drop_sublist n ids), List.length_drop, ?_⟩
  exact (hc.drop n).resolve_right (Nat.not_lt.mpr hn)

theorem Scoped.zero : h.Scoped 0 scope := ⟨[], List.nodup_nil, rfl, trivial⟩

/-- There are no more live cells than slots. -/
theorem length_le_size (hnodup : ids.Nodup) (hlive : ∀ id ∈ ids, h.isLive id = true) :
    ids.length ≤ h.slots.size := by
  have hindices : (ids.map (·.index.toNat)).Nodup := by
    refine hnodup.map_on fun a ha b hb hab => ?_
    exact eq_of_index_eq (hlive a ha) (hlive b hb) (UInt32.toNat_inj.mp hab)
  have hsub : ids.map (·.index.toNat) ⊆ List.range h.slots.size := by
    intro i hi
    obtain ⟨id, hid, rfl⟩ := List.mem_map.mp hi
    obtain ⟨c, hcell⟩ := isLive_iff.mp (hlive id hid)
    obtain ⟨slot, hslot, -⟩ := cell?_eq_some.mp hcell
    exact List.mem_range.mpr (Array.getElem?_eq_some_iff.mp hslot).1
  have hle := (hindices.subperm hsub).length_le
  simpa using hle

/-- A chain is no longer than the heap. -/
theorem Scoped.le_size (hs : h.Scoped count scope) : count ≤ h.slots.size := by
  obtain ⟨ids, hnodup, rfl, hc⟩ := hs
  refine length_le_size hnodup fun id hid => ?_
  obtain ⟨parent, hl⟩ := hc.link hid
  exact isLive_of_link? hl

/-- **A new record on top of a chain.** -/
theorem Scoped.push (hs : h.Scoped count scope) (hnew : h.link? id = none)
    (hkeep : ∀ other parent, h.link? other = some parent → h'.link? other = some parent)
    (hlink : h'.link? id = some scope) : h'.Scoped (count + 1) (some id) := by
  obtain ⟨ids, hnodup, rfl, hc⟩ := hs
  refine ⟨id :: ids, List.nodup_cons.mpr ⟨fun hid => ?_, hnodup⟩, rfl, rfl, scope, hlink,
    hc.transfer fun other hother => ?_⟩
  · obtain ⟨parent, hl⟩ := hc.link hid
    rw [hnew] at hl
    cases hl
  · obtain ⟨parent, hl⟩ := hc.link hother
    rw [hkeep other parent hl, hl]

/-- **What becomes of a chain** whose records keep their links. -/
theorem Scoped.transfer (hs : h.Scoped count scope)
    (hkeep : ∀ ids : List Handle, h.Chain ids scope → ∀ id ∈ ids, h'.link? id = h.link? id) :
    h'.Scoped count scope ∧ ∀ n ≤ count, h'.enclosing^[n] scope = h.enclosing^[n] scope := by
  obtain ⟨ids, hnodup, rfl, hc⟩ := hs
  exact ⟨⟨ids, hnodup, rfl, hc.transfer (hkeep ids hc)⟩, fun n hn => hc.enclosing_eq (hkeep ids hc) hn⟩

/-! ### Allocations and collections -/

/-- An allocation changes no link there is. -/
theorem link?_allocate (hf : h.FreeListed) {shape : ShapeId} {payload : Payload}
    (hr : (h.allocate shape payload).2.slots.size ≤ 2 ^ 32) (other : Handle)
    (parent : Option Handle) (hl : h.link? other = some parent) :
    (h.allocate shape payload).2.link? other = some parent := by
  cases ho : (h.allocate shape payload).1 with
  | error failure =>
    rcases allocate_cases h shape payload with ⟨_, heq⟩ | ⟨_, hok, -⟩
    · rw [heq]
      exact hl
    · rw [hok] at ho
      cases ho
  | ok id =>
    obtain ⟨hnone, hcell⟩ := cell?_allocate hf ho hr
    have hne : other ≠ id := by
      rintro rfl
      simp [link?, hnone] at hl
    unfold link?
    rw [hcell, if_neg hne]
    exact hl

theorem AllWhite.allocate (hw : h.AllWhite) (shape : ShapeId) (payload : Payload) :
    (h.allocate shape payload).2.AllWhite := by
  rcases allocate_cases h shape payload with ⟨_, heq⟩ | ⟨bytes, -, heq⟩
  · rw [heq]
    exact hw
  · rw [heq]
    exact (hw.place _ bytes).congr rfl

theorem size_collect (hw : h.AllWhite) (values : List Value) (words : List UInt64) :
    (h.collect values words).2.slots.size = h.slots.size := by
  have hm := mark_marking hw (h.allRoots values words)
  change ((h.mark (h.allRoots values words)).sweep.2.slots).size = _
  rw [sweep_slots, Array.size_map, ← hm.slots, Array.size_map]

/-- The records of a chain can be reached from where it starts. -/
theorem Chain.reachable (hc : h.Chain ids scope) (roots : List Value)
    (hs : ∀ id, scope = some id → h.isLive id = true → h.Reachable roots id) :
    ∀ id ∈ ids, h.Reachable roots id := by
  induction ids generalizing scope with
  | nil =>
    intro id hid
    cases hid
  | cons first rest ih =>
    obtain ⟨hfirst, parent, hl, hrest⟩ := hc
    have hreach := hs first hfirst (isLive_of_link? hl)
    intro id hid
    rcases List.mem_cons.mp hid with rfl | hid
    · exact hreach
    · refine ih hrest (fun next hnext hlive => ?_) id hid
      obtain ⟨c, hcell, hlink⟩ := Option.bind_eq_some_iff.mp hl
      obtain ⟨record, room, hpayload, rfl⟩ := Cell.link?_eq_some.mp hlink
      exact .step hreach hcell (.parent hpayload hnext) hlive

/-- **A collection keeps the links** of a chain that it starts from. -/
theorem Chain.link?_collect (hc : h.Chain ids scope) (hw : h.AllWhite) (values : List Value)
    (words : List UInt64) (hroot : ∀ id, scope = some id → .cell id ∈ values) (hid : id ∈ ids) :
    (h.collect values words).2.link? id = h.link? id := by
  have hreach := hc.reachable (h.allRoots values words)
    (fun id hid hlive => .root (mem_allRoots.mpr (.inl (hroot id hid))) hlive) id hid
  obtain ⟨c, hcell⟩ := isLive_iff.mp hreach.isLive
  unfold link?
  rw [(cell?_collect hw values words).mpr ⟨hcell, hreach⟩, hcell]

/-- **A collection keeps the chain** of a scope it starts from. -/
theorem Scoped.collect (hs : h.Scoped count scope) (hw : h.AllWhite) (values : List Value)
    (words : List UInt64) (hroot : ∀ id, scope = some id → .cell id ∈ values) :
    (h.collect values words).2.Scoped count scope ∧
      ∀ n ≤ count, (h.collect values words).2.enclosing^[n] scope = h.enclosing^[n] scope :=
  hs.transfer fun _ hc _ hid => hc.link?_collect hw values words hroot hid

/-! ### Operations on cells -/

/-- **What operations on cells leave alone.** -/
structure Retains (h h' : Heap) : Prop where
  /-- The payload of every cell, but for the elements of arrays. -/
  fixtures : ∀ id, (h'.cell? id).map Cell.fixture = (h.cell? id).map Cell.fixture
  /-- No slot gets a color. -/
  white : h.AllWhite → h'.AllWhite
  /-- The slots that hold a cell, and all generations. -/
  outline : h'.slots.map Slot.outline = h.slots.map Slot.outline
  /-- The free slots. -/
  free : h'.freeList = h.freeList

theorem Retains.refl (h : Heap) : h.Retains h := ⟨fun _ => rfl, id, rfl, rfl⟩

theorem Retains.trans (h₁ : h.Retains h') (h₂ : h'.Retains h'') : h.Retains h'' :=
  ⟨fun id => (h₂.fixtures id).trans (h₁.fixtures id), h₂.white ∘ h₁.white,
    h₂.outline.trans h₁.outline, h₂.free.trans h₁.free⟩

/-- What is not about slots does not matter. -/
theorem Retains.congr (hr : h.Retains h') (hs : h''.slots = h'.slots)
    (hf : h''.freeList = h'.freeList) : h.Retains h'' where
  fixtures id := by rw [cell?_congr hs, hr.fixtures]
  white hw := (hr.white hw).congr hs
  outline := by rw [hs, hr.outline]
  free := hf.trans hr.free

theorem Retains.of_slots (hs : h'.slots = h.slots) (hf : h'.freeList = h.freeList) : h.Retains h' :=
  (Retains.refl h).congr hs hf

/-- The number of slots stays. -/
theorem Retains.size (hr : h.Retains h') : h'.slots.size = h.slots.size := by
  have := congrArg Array.size hr.outline
  simpa using this

/-- The cell that a handle named before, up to its elements. -/
theorem Retains.cell? (hr : h.Retains h') {c' : Cell} (hc : h'.cell? id = some c') :
    ∃ c, h.cell? id = some c ∧ c'.fixture = c.fixture := by
  have hf := hr.fixtures id
  rw [hc] at hf
  obtain ⟨c, hcell, hfix⟩ := Option.map_eq_some_iff.mp hf.symm
  exact ⟨c, hcell, hfix.symm⟩

/-- The links between scope records stay. -/
theorem Retains.links (hr : h.Retains h') : h'.link? = h.link? := by
  funext id
  have hf := hr.fixtures id
  unfold link?
  cases hc : h.cell? id with
  | none =>
    rw [hc] at hf
    rw [Option.map_eq_none_iff.mp hf]
  | some c =>
    rw [hc] at hf
    obtain ⟨c', hc', hfix⟩ := Option.map_eq_some_iff.mp hf
    rw [hc']
    exact Cell.link?_of_fixture hfix

/-- A slot keeps its generation, and stays empty if it is. -/
theorem outline_getElem? (ho : h'.slots.map Slot.outline = h.slots.map Slot.outline) {i : Nat}
    {slot : Slot} (hs : h.slots[i]? = some slot) :
    ∃ slot', h'.slots[i]? = some slot' ∧ slot'.generation = slot.generation ∧
      (slot'.cell = none ↔ slot.cell = none) := by
  have hi := congrArg (·[i]?) ho
  simp only [Array.getElem?_map, hs, Option.map_some, Option.map_eq_some_iff] at hi
  obtain ⟨slot', hs', hsame⟩ := hi
  obtain ⟨hgeneration, hsome⟩ := Prod.mk.inj hsame
  refine ⟨slot', hs', hgeneration, ?_⟩
  rw [← Option.isNone_iff_eq_none, ← Option.isNone_iff_eq_none, ← Option.not_isSome, hsome,
    Option.not_isSome]

/-- The free list stays in order. -/
theorem Retains.listed (hr : h.Retains h') (hl : h.FreeListed) : h'.FreeListed := by
  refine ⟨fun i hi => ?_, by rw [hr.free]; exact hl.nodup, by rw [hr.size]; exact hl.size⟩
  rw [hr.free] at hi
  obtain ⟨slot, hs, hempty⟩ := hl.empty i hi
  obtain ⟨slot', hs', -, hiff⟩ := outline_getElem? hr.outline hs
  exact ⟨slot', hs', hiff.mpr hempty⟩

theorem link?_modifyCell (h : Heap) (id : Handle) {f : Cell → Cell}
    (hf : ∀ c, (f c).link? = c.link?) : (h.modifyCell id f).link? = h.link? := by
  funext other
  unfold link?
  rw [cell?_modifyCell]
  split
  case isTrue heq =>
    subst heq
    cases h.cell? other with
    | none => rfl
    | some c => exact hf c
  case isFalse => rfl

theorem outline_modifyCell (h : Heap) (id : Handle) (f : Cell → Cell) :
    (h.modifyCell id f).slots.map Slot.outline = h.slots.map Slot.outline := by
  refine Array.ext_getElem? fun i => ?_
  simp only [modifyCell, Array.getElem?_map, Array.getElem?_modify]
  split
  · cases h.slots[i]? with
    | none => rfl
    | some slot => by_cases hg : slot.generation = id.generation <;> simp [Slot.outline, hg]
  · rfl

theorem retains_modifyCell (h : Heap) (id : Handle) {f : Cell → Cell}
    (hf : ∀ c, (f c).fixture = c.fixture) : h.Retains (h.modifyCell id f) where
  fixtures other := by
    rw [cell?_modifyCell]
    split
    case isTrue heq =>
      subst heq
      cases h.cell? other with
      | none => rfl
      | some c => exact congrArg some (hf c)
    case isFalse => rfl
  white hw := hw.modifyCell f
  outline := outline_modifyCell h id f
  free := rfl

theorem retains_refreshFootprint (h : Heap) (id : Handle) : h.Retains (h.refreshFootprint id) := by
  cases hc : h.cell? id with
  | none =>
    rw [refreshFootprint_of_none hc]
    exact .refl h
  | some c =>
    obtain ⟨slot, hs, hg, hcell⟩ := cell?_eq_some.mp hc
    refine ⟨fun other => by rw [cell?_refreshFootprint], fun hw => hw.refreshFootprint, ?_, ?_⟩
    · rw [refreshFootprint_of_cell? hs hg hcell]
      refine Array.ext_getElem? fun i => ?_
      simp only [Array.getElem?_map, Array.getElem?_modify]
      split
      · rw [Option.map_map]
        rfl
      · rfl
    · rw [refreshFootprint_of_cell? hs hg hcell]

theorem retains_pushTemporary (h : Heap) (v : Value) : h.Retains (h.pushTemporary v) := by
  obtain ⟨more, heq⟩ := pushTemporary_eq h v
  rw [heq]
  exact .of_slots rfl rfl

theorem retains_truncateTemporaries (h : Heap) (mark : Nat) :
    h.Retains (h.truncateTemporaries mark) := by
  unfold truncateTemporaries
  split
  · exact .refl h
  · exact .of_slots rfl rfl

theorem fixture_setSlot (c : Cell) (offset : Nat) (v : Value) (shape : ShapeId) :
    ({ c.setSlot offset v with shape } : Cell).fixture = c.fixture :=
  Cell.fixture_congr (c.setSlot_frame offset v).2

theorem retains_writeSlot (h : Heap) (id : Handle) (shape : ShapeId) (offset : Nat) (v : Value) :
    h.Retains (h.writeSlot id shape offset v) := by
  have hwrite := retains_modifyCell h id (f := fun c => { c.setSlot offset v with shape })
    fun c => fixture_setSlot c offset v shape
  unfold writeSlot
  split
  case h_1 => exact .refl h
  case h_2 =>
    dsimp only
    split
    · exact hwrite
    · exact hwrite.trans (retains_refreshFootprint _ id)

theorem retains_removeNamed (h : Heap) (id : Handle) (shape : ShapeId) (name : Atom) :
    h.Retains (h.removeNamed id shape name) := by
  unfold removeNamed
  generalize h.shapes.removeProperty shape name = removal
  obtain ⟨target, removed, shapes⟩ := removal
  refine Retains.trans (.of_slots rfl rfl : h.Retains { h with shapes })
    (retains_modifyCell _ id fun c => ?_)
  dsimp only
  split
  · exact Cell.fixture_congr (Cell.setSlot_frame _ _ _).2
  · rfl

theorem retains_clearElement (h : Heap) (id : Handle) (name : Atom) :
    h.Retains (h.clearElement id name) := by
  unfold clearElement
  split
  · exact retains_modifyCell h id (Cell.fixture_mapElements _)
  · exact .refl h

theorem retains_getIndex? (h : Heap) (id : Handle) (index : UInt32) :
    h.Retains (h.getIndex? id index).2 := by
  unfold getIndex?
  split
  · exact .refl h
  · exact .of_slots rfl rfl

/-- An operation that leaves payloads and the free slots alone, also when it fails. -/
def Retaining {α : Type} (x : HeapM α) : Prop := ∀ h : Heap, h.Retains (leaves (x h))

namespace Retaining

variable {α β : Type} {x : HeapM α} {f : α → HeapM β}

theorem ret (a : α) : Retaining (pure a : HeapM α) := Retains.refl

theorem fail (fault : PropertyFault) : Retaining (throw fault : HeapM α) := Retains.refl

theorem look : Retaining (get : HeapM Heap) := Retains.refl

theorem update {g : Heap → α × Heap} (hg : ∀ h : Heap, h.Retains (g h).2) :
    Retaining (modifyGet g : HeapM α) := hg

theorem change {g : Heap → Heap} (hg : ∀ h : Heap, h.Retains (g h)) :
    Retaining (modify g : HeapM Unit) := hg

/-- **One operation after the other.** -/
theorem bind (hx : Retaining x) (hf : ∀ a, Retaining (f a)) : Retaining (x >>= f) := by
  intro h
  have hfirst := hx h
  simp only [Bind.bind, EStateM.bind]
  cases hr : x h with
  | ok a h' =>
    rw [hr] at hfirst
    exact hfirst.trans (hf a h')
  | error fault h' =>
    rw [hr] at hfirst
    exact hfirst

theorem ite {c : Prop} [Decidable c] {x y : HeapM α} (hx : Retaining x) (hy : Retaining y) :
    Retaining (if c then x else y) := by
  split
  · exact hx
  · exact hy

theorem requireCell (id : Handle) : Retaining (requireCell id) := by
  refine bind look fun h => ?_
  split
  · exact ret _
  · exact fail _

theorem reserveBytes (additional : Nat) : Retaining (reserveBytes additional) :=
  bind look fun _ => ite (ret _) (fail _)

theorem putNamed (id : Handle) (name : Atom) (value : Value) (attributes : Attributes) :
    Retaining (putNamed id name value attributes) := by
  refine bind (requireCell id) fun c => bind look fun h => ?_
  split
  case h_1 =>
    refine ite (ret _) (bind (change fun h => retains_modifyCell h id fun c => ?_) fun _ => ret _)
    exact Cell.fixture_congr (c.setSlot_frame _ _).2
  case h_2 =>
    refine bind (update fun h => .of_slots rfl rfl) fun added => ?_
    refine bind (change fun h => ?_) fun _ => ret _
    exact (retains_modifyCell h id fun c => fixture_setSlot c _ _ _).trans
      (retains_refreshFootprint _ id)

theorem putElement (id : Handle) (position length capacity : Nat) (named : Option Property)
    (value : Value) : Retaining (putElement id position length capacity named value) := by
  have hstore : Retaining (do
      if position < length then
        modify (·.modifyCell id (Cell.mapElements fun e =>
          { e with items := e.items.setIfInBounds position value }))
      else
        let capacity := if position == length && length == capacity then grownCapacity capacity
          else capacity
        modify fun h => (h.modifyCell id (Cell.mapElements fun e =>
          { items := e.items.push value, capacity })).refreshFootprint id
      return PutOutcome.element : HeapM PutOutcome) := by
    refine ite (bind (change fun h => retains_modifyCell h id (Cell.fixture_mapElements _))
      fun _ => ret _) (bind (change fun h => ?_) fun _ => ret _)
    exact (retains_modifyCell h id (Cell.fixture_mapElements _)).trans (retains_refreshFootprint _ id)
  unfold Heap.putElement
  cases named with
  | none => exact ite (bind (reserveBytes _) fun _ => hstore) hstore
  | some property =>
    have hmove (shape : ShapeId) := bind
      (change fun h => retains_removeNamed h id shape property.name) fun _ => hstore
    exact ite (bind (reserveBytes _) fun _ => bind (requireCell id) fun c => hmove c.shape)
      (bind (requireCell id) fun c => hmove c.shape)

theorem setIndex (id : Handle) (index : UInt32) (value : Value) :
    Retaining (setIndex id index value) := by
  have hname : Retaining (do
      let name ← modifyGet (·.internIndex index)
      Heap.putNamed id name value .none : HeapM PutOutcome) :=
    bind (update fun h => .of_slots rfl rfl) fun name => putNamed id name value .none
  refine bind (requireCell id) fun c => ?_
  split
  case h_1 =>
    refine ite hname (bind look fun h => ?_)
    dsimp only
    split
    · exact ite (putElement _ _ _ _ _ _) (putNamed _ _ _ _)
    · exact putElement _ _ _ _ _ _
  case h_2 => exact ret _
  case h_3 => exact hname

theorem setArrayLength (id : Handle) (length : Value) : Retaining (setArrayLength id length) := by
  unfold Heap.setArrayLength
  split
  case h_1 => exact fail _
  case h_2 length _ =>
    refine bind look fun h => ?_
    split
    case h_1 => exact ret _
    case h_2 =>
      split
      case h_2 => exact ret _
      case h_1 =>
        have hresize (f : Elements → Elements) : Retaining (modify fun h : Heap =>
            (h.modifyCell id (Cell.mapElements f)).refreshFootprint id) :=
          change fun h => (retains_modifyCell h id (Cell.fixture_mapElements _)).trans
            (retains_refreshFootprint _ id)
        exact ite (bind (reserveBytes _) fun _ => hresize _) (hresize _)

theorem setProperty (id : Handle) (name : Atom) (value : Value) :
    Retaining (setProperty id name value) := by
  refine bind (requireCell id) fun c => bind look fun h => ?_
  split
  · split
    · exact setIndex id _ value
    · exact ite (bind (setArrayLength id value) fun _ => ret _) (putNamed id name value _)
  · exact ite (ret _) (putNamed id name value _)
  · exact putNamed id name value _

theorem defineProperty (id : Handle) (name : Atom) (value : Value) (attributes : Attributes) :
    Retaining (defineProperty id name value attributes) := by
  refine bind (requireCell id) fun c => bind (change fun h => retains_clearElement h id name)
    fun _ => bind look fun h => ?_
  split
  case h_1 =>
    have hwrite (target : ShapeId) (offset : Nat) : Retaining (modify fun h : Heap =>
        h.modifyCell id fun cell => { cell.setSlot offset value with shape := target }) :=
      change fun h => retains_modifyCell h id fun c => fixture_setSlot c _ _ _
    exact ite (bind (ret _) fun _ => hwrite _ _)
      (bind (update fun h => .of_slots rfl rfl) fun _ => hwrite _ _)
  case h_2 => exact bind (putNamed id name value attributes) fun _ => ret _

theorem deleteProperty (id : Handle) (name : Atom) : Retaining (deleteProperty id name) := by
  refine bind (requireCell id) fun c => bind look fun h => ?_
  refine ite (bind (change fun h => retains_clearElement h id name) fun _ => ret _)
    (ite (ret _) ?_)
  split
  · exact ret _
  · exact ite (ret _) (bind (change fun h => retains_removeNamed h id _ _) fun _ => ret _)

theorem setPrototype (id : Handle) (prototype : Value) : Retaining (setPrototype id prototype) := by
  have hmove (h : Heap) (shape : ShapeId) : Retaining (h.movePrototype id shape prototype) := by
    unfold movePrototype
    split
    · exact fail _
    · refine change fun h => ?_
      generalize h.shapes.changePrototype shape prototype = moved
      obtain ⟨target, shapes⟩ := moved
      exact Retains.trans (.of_slots rfl rfl : h.Retains { h with shapes })
        (retains_modifyCell _ id fun _ => rfl)
  refine bind (requireCell id) fun c => bind look fun h => ite ?_ (hmove h c.shape)
  split
  · exact fail _
  · exact ite (fail _) (hmove h c.shape)

end Retaining

end Heap

end ScriptMachine
