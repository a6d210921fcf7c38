import ScriptMachine.Machine.Allocation
import ScriptMachine.Machine.Bootstrap
import ScriptMachine.Proofs.Heap.Prototypes

/-! # Anchored machines

The intrinsic objects of a machine are live and registered as persistent roots, its intrinsic shapes
are the empty shapes of live prototypes, and the names it uses are interned (`Machine.Anchored`).
Nothing that runs changes that, collections included, and a fresh machine starts with it
(`Machine.new_spec`). -/

namespace ScriptMachine

/-- The intrinsic objects. -/
def Intrinsics.objects (i : Intrinsics) : List Handle :=
  [i.objectPrototype, i.functionPrototype, i.arrayPrototype, i.global] ++ i.errorPrototypes.toList

/-- The intrinsic shape of cells of a kind, with its prototype. -/
structure Intrinsics.Shaped (i : Intrinsics) (t : ShapeTable) : Prop where
  /-- Objects. -/
  object : t.roots[(CellKind.object, Value.cell i.objectPrototype)]? = some i.objectShape
  /-- Arrays. -/
  array : t.roots[(CellKind.array, Value.cell i.arrayPrototype)]? = some i.arrayShape
  /-- Functions. -/
  function : t.roots[(CellKind.function, Value.cell i.functionPrototype)]? = some i.functionShape
  /-- Strings. -/
  string : t.roots[(CellKind.string, Value.null)]? = some i.stringShape
  /-- Scope records. -/
  activation : t.roots[(CellKind.activation, Value.null)]? = some i.activationShape

/-- The names in use are interned. -/
structure Names.Known (n : Names) (t : AtomTable) : Prop where
  /-- The atom of `length`. -/
  length : t.Knows n.length
  /-- The atom of `prototype`. -/
  prototype : t.Knows n.prototype
  /-- The atom of `constructor`. -/
  constructor : t.Knows n.constructor
  /-- The atom of `name`. -/
  name : t.Knows n.name
  /-- The atom of `message`. -/
  message : t.Knows n.message

/-- The intrinsic objects and shapes are in place. -/
structure Intrinsics.Anchored (i : Intrinsics) (h : Heap) : Prop where
  /-- The shapes are the empty ones. -/
  shaped : i.Shaped h.shapes
  /-- The objects are live. -/
  live : ∀ id ∈ i.objects, h.isLive id = true
  /-- They are persistent roots. -/
  rooted : ∀ id ∈ i.objects, some (.cell id) ∈ h.roots
  /-- There is a prototype for each kind of error. -/
  errors : ∀ kind, i.errorPrototype kind ∈ i.objects

/-- **An anchored machine.** -/
structure Machine.Anchored (m : Machine) : Prop where
  /-- The intrinsic objects and shapes. -/
  intrinsics : m.intrinsics.Anchored m.heap
  /-- The names. -/
  names : m.names.Known m.heap.atoms

variable {i : Intrinsics} {n : Names} {h h' : Heap}

theorem Names.Known.extends {t t' : AtomTable} (hk : n.Known t) (he : t'.Extends t) : n.Known t' :=
  ⟨he.knows hk.length, he.knows hk.prototype, he.knows hk.constructor, he.knows hk.name,
    he.knows hk.message⟩

theorem Intrinsics.Shaped.transfer {t t' : ShapeTable} (hs : i.Shaped t)
    (hr : ∀ (kind : CellKind) (prototype : Value) id,
      prototype ∈ Value.null :: i.objects.map Value.cell →
      t.roots[(kind, prototype)]? = some id → t'.roots[(kind, prototype)]? = some id) :
    i.Shaped t' where
  object := hr _ _ _ (by simp [objects]) hs.object
  array := hr _ _ _ (by simp [objects]) hs.array
  function := hr _ _ _ (by simp [objects]) hs.function
  string := hr _ _ _ (by simp) hs.string
  activation := hr _ _ _ (by simp) hs.activation

theorem Intrinsics.Anchored.evolves (ha : i.Anchored h) (he : h.Evolves h') : i.Anchored h' where
  shaped := ha.shaped.transfer fun _ _ id _ => he.roots _ id
  live id hid := he.live id (ha.live id hid)
  rooted id hid := he.persistent _ (ha.rooted id hid)
  errors := ha.errors

theorem Intrinsics.Anchored.live_collect (ha : i.Anchored h) (hc : h.Coherent)
    (values : List Value) (words : List UInt64) {id : Handle} (hid : id ∈ i.objects) :
    (h.collect values words).2.isLive id = true :=
  Heap.live_cell.mp (Heap.live_collect hc.white
    (Heap.mem_allRoots.mpr (.inr (.inr (.inl (ha.rooted id hid)))))
    (Heap.live_cell.mpr (ha.live id hid)))

/-- The empty shapes of prototypes that survive a collection survive with them. -/
theorem Heap.Coherent.root_collect (hc : h.Coherent) (values : List Value) (words : List UInt64)
    {kind : CellKind} {prototype : Value} {id : ShapeId}
    (hp : prototype.Live (h.collect values words).2)
    (hr : h.shapes.roots[(kind, prototype)]? = some id) :
    (h.collect values words).2.shapes.roots[(kind, prototype)]? = some id := by
  obtain ⟨inUse, hs, -, -⟩ := Heap.collect_shapes hc.white values words
  have halive : (h.collect values words).2.prototypeAlive prototype = true := by
    unfold Heap.prototypeAlive
    cases hcell : prototype.cell? with
    | none => rfl
    | some object => exact hp object hcell
  rw [hs, ShapeTable.sweep_roots]
  exact ⟨hr, ShapeTable.keeps_of_root _ hc.shapes hr halive, halive⟩

/-- The empty shapes of intrinsic prototypes survive a collection. -/
theorem Intrinsics.Anchored.root_collect (ha : i.Anchored h) (hc : h.Coherent)
    (values : List Value) (words : List UInt64) {kind : CellKind} {prototype : Value} {id : ShapeId}
    (hp : prototype ∈ Value.null :: i.objects.map Value.cell)
    (hr : h.shapes.roots[(kind, prototype)]? = some id) :
    (h.collect values words).2.shapes.roots[(kind, prototype)]? = some id := by
  refine hc.root_collect values words ?_ hr
  rcases List.mem_cons.mp hp with rfl | hp
  · intro id hid
    simp at hid
  · obtain ⟨object, ho, rfl⟩ := List.mem_map.mp hp
    exact Heap.live_cell.mpr (ha.live_collect hc values words ho)

/-- **A collection leaves the intrinsics in place.** -/
theorem Intrinsics.Anchored.collect (ha : i.Anchored h) (hc : h.Coherent) (values : List Value)
    (words : List UInt64) : i.Anchored (h.collect values words).2 := by
  refine ⟨ha.shaped.transfer fun _ _ _ hp hr => ha.root_collect hc values words hp hr,
    fun _ hid => ha.live_collect hc values words hid, fun id hid => ?_, ha.errors⟩
  rw [Heap.collect_frame hc.white values words]
  exact ha.rooted id hid

/-! ### A fresh machine -/

/-- A heap under construction, with so many slots. -/
structure Heap.Founded (h : Heap) (count : Nat) : Prop where
  /-- It is coherent. -/
  coherent : h.Coherent
  /-- It is closed. -/
  closed : h.Closed
  /-- Its free list is in order. -/
  listed : h.FreeListed
  /-- Its prototypes lie in no circle. -/
  acyclic : h.Acyclic
  /-- It has no more slots. -/
  size : h.slots.size ≤ count
  /-- No root has been removed. -/
  unremoved : h.freeRoots = []

namespace Bootstrap

open Heap

variable {count : Nat}

theorem bind_ok {ε σ α β : Type} {x : EStateM ε σ α} {f : α → EStateM ε σ β} {s s' : σ} {b : β} :
    (x >>= f) s = .ok b s' ↔ ∃ a t, x s = .ok a t ∧ f a t = .ok b s' := by
  simp only [bind, EStateM.bind]
  cases x s with
  | ok a t => simp
  | error e t => simp

theorem founded_changes (hf : h.Founded count) (hs : Changes (·.Live h) h h') :
    h'.Founded count ∧ h.Evolves h' := by
  obtain ⟨hco, he⟩ := hs.coherent hf.coherent
  have hk := hs.keeps
  exact ⟨⟨hco, hs.closed hf.closed hf.coherent, hk.listed hf.listed, hf.acyclic.changes hf.coherent hs,
    by rw [hk.size]; exact hf.size, by rw [hk.freeRoots]; exact hf.unremoved⟩, he⟩

theorem intern_ok (hf : h.Founded count) {name : String} {atom : Atom}
    (hi : intern name h = .ok atom h') :
    h'.Founded count ∧ h.Evolves h' ∧ h'.atoms.Knows atom := by
  obtain ⟨rfl, rfl⟩ : (h.intern name).1 = atom ∧ (h.intern name).2 = h' := by
    simpa [intern, modifyGet_apply] using hi
  obtain ⟨hf', he⟩ := founded_changes hf (.single (.intern name))
  exact ⟨hf', he, AtomTable.knows_intern hf.coherent.atoms name⟩

theorem root_ok (hf : h.Founded count) {kind : CellKind} {prototype : Value} {shape : ShapeId} (hr : root kind prototype h = .ok shape h') :
    h'.Founded count ∧ h.Evolves h' ∧ h'.shapes.roots[(kind, prototype)]? = some shape := by
  obtain ⟨rfl, rfl⟩ : (h.rootShape kind prototype).1 = shape ∧
      (h.rootShape kind prototype).2 = h' := by
    simpa [root, modifyGet_apply] using hr
  obtain ⟨hf', he⟩ := founded_changes hf (.single (.root kind prototype))
  exact ⟨hf', he, (ShapeTable.root_spec hf.coherent.shapes kind prototype).2⟩

theorem size_allocate (shape : ShapeId) (payload : Payload) :
    (h.allocate shape payload).2.slots.size ≤ h.slots.size + 1 := by
  rcases allocate_cases h shape payload with ⟨_, heq⟩ | ⟨bytes, -, heq⟩
  · rw [heq]
    exact Nat.le_add_right _ _
  · rw [heq]
    simp only [place]
    split <;> simp

theorem allocate_ok (hf : h.Founded count) (hroom : count < 2 ^ 32) {shape : ShapeId}
    {payload : Payload} {kind : CellKind} {prototype : Value} {id : Handle}
    (ha : allocate shape payload h = .ok id h') (hkind : payload.kind = kind)
    (hroot : h.shapes.roots[(kind, prototype)]? = some shape) (hp : prototype.Live h)
    (hv : payload.references = []) :
    h'.Founded (count + 1) ∧ h.Evolves h' ∧ h'.isLive id = true := by
  obtain ⟨hid, rfl⟩ : (h.allocate shape payload).1 = .ok id ∧ (h.allocate shape payload).2 = h' := by
    simp only [allocate, bind, EStateM.bind, modifyGet_apply] at ha
    cases hr : (h.allocate shape payload).1 with
    | error failure =>
      rw [hr] at ha
      cases ha
    | ok new =>
      rw [hr] at ha
      obtain ⟨rfl, rfl⟩ := EStateM.Result.ok.inj ha
      exact ⟨rfl, rfl⟩
  subst hkind
  have hsize := size_allocate (h := h) shape payload
  have hcount := hf.size
  have hr : (h.allocate shape payload).2.slots.size ≤ 2 ^ 32 := by omega
  obtain ⟨hco, he⟩ := hf.coherent.allocate hroot
  have hother := (cell?_allocate hf.listed hid hr).2 id
  have hproto : (h.shapes.get shape).prototype.Live h := by
    rw [(hf.coherent.shapes.root _ _ _ hroot).2.2.1]
    exact hp
  refine ⟨⟨hco, hf.closed.allocate hf.coherent hf.listed hroot hp (by simp [hv]) hr, hf.listed.allocate hr,
    hf.acyclic.allocate hf.listed hproto hr, by omega, ?_⟩, he, isLive_of_cell? (hother.trans (if_pos rfl))⟩
  rcases allocate_cases h shape payload with ⟨_, heq⟩ | ⟨_, -, heq⟩ <;> rw [heq] <;>
    exact hf.unremoved

theorem define_ok (hf : h.Founded count) {id : Handle} {name : Atom}
    {value : Value} {attributes : Attributes} (hk : h.atoms.Knows name) (hv : value.Live h)
    (hd : define id name value attributes h = .ok () h') : h'.Founded count ∧ h.Evolves h' := by
  have hstorable : Storable (·.Live h) := ⟨fun _ h => by simp at h, fun _ h => by simp at h⟩
  have hs := defineProperty_changes hstorable hv hf.coherent id hk attributes
  unfold define at hd
  cases hr : Heap.defineProperty id name value attributes h with
  | ok u t =>
    rw [hr] at hd hs
    obtain ⟨-, rfl⟩ := EStateM.Result.ok.inj hd
    exact founded_changes hf hs
  | error fault t =>
    rw [hr] at hd
    cases hd

theorem not_cell_live {v : Value} (hv : v.cell? = none) : v.Live h := fun id hid => by
  rw [hv] at hid
  cases hid

/-- The prototype of one kind of error takes three cells at most. -/
theorem errorPrototype_ok (hf : h.Founded count) (hroom : count + 3 ≤ 2 ^ 32) (hk : n.Known h.atoms)
    {base id : Handle} {derived stringShape : ShapeId} {kind : ErrorKind}
    (hb : h.isLive base = true)
    (hd : h.shapes.roots[(CellKind.object, Value.cell base)]? = some derived)
    (hs : h.shapes.roots[(CellKind.string, Value.null)]? = some stringShape)
    (hr : errorPrototype n base derived stringShape kind h = .ok id h') :
    h'.Founded (count + 3) ∧ h.Evolves h' ∧ h'.isLive id = true := by
  unfold errorPrototype at hr
  obtain ⟨prototype, h₁, ⟨hf₁, he₁, hl₁⟩, hr⟩ : ∃ prototype h₁,
      (h₁.Founded (count + 1) ∧ h.Evolves h₁ ∧ h₁.isLive prototype = true) ∧
      (do let name ← allocate stringShape (.string kind.name)
          let empty ← allocate stringShape (.string "")
          define prototype n.name (.cell name) { dontEnum := true }
          define prototype n.message (.cell empty) { dontEnum := true }
          return prototype : SetupM Handle) h₁ = .ok id h' := by
    split at hr
    · exact ⟨base, h, ⟨{ hf with size := Nat.le_succ_of_le hf.size }, .refl h, hb⟩, hr⟩
    · obtain ⟨prototype, h₁, hp, hr⟩ := bind_ok.mp hr
      exact ⟨prototype, h₁, allocate_ok hf (by omega) hp rfl hd (live_cell.mpr hb) rfl, hr⟩
  obtain ⟨name, h₂, hn, hr⟩ := bind_ok.mp hr
  obtain ⟨hf₂, he₂, hl₂⟩ := allocate_ok hf₁ (by omega) hn rfl (he₁.roots _ _ hs)
    (not_cell_live rfl) rfl
  obtain ⟨empty, h₃, he, hr⟩ := bind_ok.mp hr
  have he₁₂ := he₁.trans he₂
  obtain ⟨hf₃, he₃, hl₃⟩ := allocate_ok hf₂ (by omega) he rfl (he₁₂.roots _ _ hs)
    (not_cell_live rfl) rfl
  have he₁₃ := he₁₂.trans he₃
  obtain ⟨_, h₄, hdef, hr⟩ := bind_ok.mp hr
  obtain ⟨hf₄, he₄⟩ := define_ok hf₃ (he₁₃.atoms.knows hk.name)
    (live_cell.mpr (he₃.live _ hl₂)) hdef
  obtain ⟨_, h₅, hdef, hr⟩ := bind_ok.mp hr
  obtain ⟨hf₅, he₅⟩ := define_ok hf₄ ((he₁₃.trans he₄).atoms.knows hk.message)
    (live_cell.mpr (he₄.live _ hl₃)) hdef
  obtain ⟨rfl, rfl⟩ := EStateM.Result.ok.inj hr
  exact ⟨hf₅, (he₁₃.trans he₄).trans he₅,
    he₅.live _ (he₄.live _ (he₃.live _ (he₂.live _ hl₁)))⟩

theorem errorPrototypes_ok {base : Handle} {derived stringShape : ShapeId} {kinds : List ErrorKind}
    {ids : List Handle} {h h' : Heap} {count : Nat} (hf : h.Founded count)
    (hroom : count + 3 * kinds.length ≤ 2 ^ 32) (hk : n.Known h.atoms) (hb : h.isLive base = true)
    (hd : h.shapes.roots[(CellKind.object, Value.cell base)]? = some derived)
    (hs : h.shapes.roots[(CellKind.string, Value.null)]? = some stringShape)
    (hr : kinds.mapM (errorPrototype n base derived stringShape) h = .ok ids h') :
    h'.Founded (count + 3 * kinds.length) ∧ h.Evolves h' ∧ ids.length = kinds.length ∧
      ∀ id ∈ ids, h'.isLive id = true := by
  induction kinds generalizing h count ids with
  | nil =>
    obtain ⟨rfl, rfl⟩ := EStateM.Result.ok.inj hr
    exact ⟨hf, .refl h, rfl, by simp⟩
  | cons kind kinds ih =>
    rw [List.mapM_cons] at hr
    obtain ⟨id, h₁, hp, hr⟩ := bind_ok.mp hr
    obtain ⟨ids, h₂, hm, hr⟩ := bind_ok.mp hr
    obtain ⟨rfl, rfl⟩ := EStateM.Result.ok.inj hr
    simp only [List.length_cons] at hroom
    obtain ⟨hf₁, he₁, hl₁⟩ := errorPrototype_ok hf (by omega) hk hb hd hs hp
    obtain ⟨hf₂, he₂, hlen, hl₂⟩ := ih hf₁ (by omega) (hk.extends he₁.atoms) (he₁.live _ hb)
      (he₁.roots _ _ hd) (he₁.roots _ _ hs) hm
    refine ⟨?_, he₁.trans he₂, by simp [hlen], fun id' hid => ?_⟩
    · have : count + 3 * (kind :: kinds).length = count + 3 + 3 * kinds.length := by
        simp only [List.length_cons]
        omega
      rw [this]
      exact hf₂
    · rcases List.mem_cons.mp hid with rfl | hid
      · exact he₂.live _ hl₁
      · exact hl₂ id' hid

theorem globals_ok {global : Handle} {attributes : Attributes} {constants : List (String × Value)}
    {u : PUnit} {h h' : Heap} (hf : h.Founded count) (hv : ∀ c ∈ constants, c.2.cell? = none)
    (hr : (forIn constants PUnit.unit fun x (_ : PUnit) => do
        define global (← intern x.1) x.2 attributes
        pure (ForInStep.yield PUnit.unit) : SetupM PUnit) h = .ok u h') :
    h'.Founded count ∧ h.Evolves h' := by
  induction constants generalizing h with
  | nil =>
    obtain ⟨-, rfl⟩ := EStateM.Result.ok.inj hr
    exact ⟨hf, .refl h⟩
  | cons x rest ih =>
    rw [List.forIn_cons] at hr
    obtain ⟨r, h₁, hx, hr⟩ := bind_ok.mp hr
    obtain ⟨atom, h₂, hi, hx⟩ := bind_ok.mp hx
    obtain ⟨hf₂, he₂, hk⟩ := intern_ok hf hi
    obtain ⟨_, h₃, hd, hx⟩ := bind_ok.mp hx
    obtain ⟨hf₃, he₃⟩ := define_ok hf₂ hk (not_cell_live (hv x (by simp))) hd
    obtain ⟨rfl, rfl⟩ := EStateM.Result.ok.inj hx
    obtain ⟨hf', he'⟩ := ih hf₃ (fun c hc => hv c (List.mem_cons_of_mem _ hc)) hr
    exact ⟨hf', (he₂.trans he₃).trans he'⟩

/-- Registering a live value as a root. -/
theorem addRoot_ok (hf : h.Founded count) {v : Value} (hv : v.Live h) :
    (h.addRoot v).2.Founded count ∧ h.Evolves (h.addRoot v).2 ∧ some v ∈ (h.addRoot v).2.roots := by
  have heq : (h.addRoot v).2 = { h with roots := h.roots.push (some v) } := by
    simp only [addRoot, hf.unremoved]
  rw [heq]
  refine ⟨⟨hf.coherent.congr (hf.coherent.white.congr rfl) rfl rfl rfl, ?_,
    hf.listed.congr rfl rfl, hf.acyclic.congr (fun _ => rfl) (fun _ => rfl), hf.size, hf.unremoved⟩, ?_, by simp⟩
  · refine ⟨hf.closed.held, hf.closed.prototype, fun w hw => ?_, hf.closed.temporaries⟩
    rcases Array.mem_push.mp hw with hw | hw
    · exact hf.closed.roots w hw
    · rw [Option.some.inj hw]
      exact hv
  · exact { Evolves.refl h with persistent := fun w hw => Array.mem_push_of_mem _ hw }

theorem roots_ok {ids : List Handle} {u : PUnit} {h h' : Heap} (hf : h.Founded count)
    (hl : ∀ id ∈ ids, h.isLive id = true)
    (hr : (forIn ids PUnit.unit fun id (_ : PUnit) => do
        modify fun heap => (heap.addRoot (Value.cell id)).2
        pure (ForInStep.yield PUnit.unit) : SetupM PUnit) h = .ok u h') :
    h'.Founded count ∧ h.Evolves h' ∧ ∀ id ∈ ids, some (Value.cell id) ∈ h'.roots := by
  induction ids generalizing h with
  | nil =>
    obtain ⟨-, rfl⟩ := EStateM.Result.ok.inj hr
    exact ⟨hf, .refl h, by simp⟩
  | cons id rest ih =>
    rw [List.forIn_cons] at hr
    obtain ⟨r, h₁, hx, hr⟩ := bind_ok.mp hr
    obtain ⟨rfl, rfl⟩ := EStateM.Result.ok.inj hx
    obtain ⟨hf₁, he₁, hmem⟩ := addRoot_ok hf (live_cell.mpr (hl id (by simp)))
    obtain ⟨hf', he', hroots⟩ := ih hf₁
      (fun id' hid => he₁.live _ (hl id' (List.mem_cons_of_mem _ hid))) hr
    refine ⟨hf', he₁.trans he', fun id' hid => ?_⟩
    rcases List.mem_cons.mp hid with rfl | hid
    · exact he'.persistent _ hmem
    · exact hroots id' hid

/-- **The intrinsic objects** are anchored. -/
theorem intrinsics_ok (hf : h.Founded 0) (hk : n.Known h.atoms)
    (hr : Bootstrap.intrinsics n h = .ok i h') :
    h'.Founded 29 ∧ i.Anchored h' ∧ h'.atoms.Extends h.atoms := by
  unfold Bootstrap.intrinsics at hr
  obtain ⟨bare, h₁, hx, hr⟩ := bind_ok.mp hr
  obtain ⟨hf₁, he₁, hbare⟩ := root_ok hf hx
  obtain ⟨objectPrototype, h₂, hx, hr⟩ := bind_ok.mp hr
  obtain ⟨hf₂, he₂, hobject⟩ := allocate_ok hf₁ (by omega) hx rfl hbare (not_cell_live rfl) rfl
  obtain ⟨objectShape, h₃, hx, hr⟩ := bind_ok.mp hr
  obtain ⟨hf₃, he₃, hobjectShape⟩ := root_ok hf₂ hx
  replace hobject := he₃.live _ hobject
  obtain ⟨functionPrototype, h₄, hx, hr⟩ := bind_ok.mp hr
  obtain ⟨hf₄, he₄, hfunction⟩ := allocate_ok hf₃ (by omega) hx rfl hobjectShape
    (live_cell.mpr hobject) rfl
  replace hobject := he₄.live _ hobject
  replace hobjectShape := he₄.roots _ _ hobjectShape
  obtain ⟨arrayPrototype, h₅, hx, hr⟩ := bind_ok.mp hr
  obtain ⟨hf₅, he₅, harray⟩ := allocate_ok hf₄ (by omega) hx rfl hobjectShape
    (live_cell.mpr hobject) rfl
  replace hobject := he₅.live _ hobject
  replace hobjectShape := he₅.roots _ _ hobjectShape
  obtain ⟨global, h₆, hx, hr⟩ := bind_ok.mp hr
  obtain ⟨hf₆, he₆, hglobal⟩ := allocate_ok hf₅ (by omega) hx rfl hobjectShape
    (live_cell.mpr hobject) rfl
  obtain ⟨stringShape, h₇, hx, hr⟩ := bind_ok.mp hr
  obtain ⟨hf₇, he₇, hstringShape⟩ := root_ok hf₆ hx
  obtain ⟨activationShape, h₈, hx, hr⟩ := bind_ok.mp hr
  obtain ⟨hf₈, he₈, hactivationShape⟩ := root_ok hf₇ hx
  obtain ⟨functionShape, h₉, hx, hr⟩ := bind_ok.mp hr
  obtain ⟨hf₉, he₉, hfunctionShape⟩ := root_ok hf₈ hx
  obtain ⟨arrayShape, h₁₀, hx, hr⟩ := bind_ok.mp hr
  obtain ⟨hf₁₀, he₁₀, harrayShape⟩ := root_ok hf₉ hx
  have he₆₁₀ := ((he₇.trans he₈).trans he₉).trans he₁₀
  have he₅₁₀ := he₆.trans he₆₁₀
  replace hobject := he₅₁₀.live _ hobject
  replace hobjectShape := he₅₁₀.roots _ _ hobjectShape
  obtain ⟨baseError, h₁₁, hx, hr⟩ := bind_ok.mp hr
  obtain ⟨hf₁₁, he₁₁, hbase⟩ := allocate_ok hf₁₀ (by omega) hx rfl hobjectShape
    (live_cell.mpr hobject) rfl
  obtain ⟨derived, h₁₂, hx, hr⟩ := bind_ok.mp hr
  obtain ⟨hf₁₂, he₁₂, hderived⟩ := root_ok hf₁₁ hx
  have he₁₀₁₂ := he₁₁.trans he₁₂
  have he₇₁₂ := ((he₈.trans he₉).trans he₁₀).trans he₁₀₁₂
  have he₄₁₂ := (he₅.trans he₅₁₀).trans he₁₀₁₂
  have hstart := (((he₁.trans he₂).trans he₃).trans he₄).trans he₄₁₂
  obtain ⟨errorPrototypes, h₁₃, hx, hr⟩ := bind_ok.mp hr
  obtain ⟨hf₁₃, he₁₃, hlength, herrors⟩ := errorPrototypes_ok hf₁₂ (by decide)
    (hk.extends hstart.atoms) (he₁₂.live _ hbase) hderived (he₇₁₂.roots _ _ hstringShape) hx
  obtain ⟨_, h₁₄, hx, hr⟩ := bind_ok.mp hr
  obtain ⟨hf₁₄, he₁₄⟩ := globals_ok hf₁₃ (by decide) hx
  have he₁₂₁₄ := he₁₃.trans he₁₄
  have hlive : ∀ id ∈ [objectPrototype, functionPrototype, arrayPrototype, global] ++ errorPrototypes,
      h₁₄.isLive id = true := by
    intro id hid
    rcases List.mem_append.mp hid with hid | hid
    · simp only [List.mem_cons, List.not_mem_nil, or_false] at hid
      rcases hid with rfl | rfl | rfl | rfl
      · exact he₁₂₁₄.live _ (he₁₀₁₂.live _ hobject)
      · exact he₁₂₁₄.live _ (he₄₁₂.live _ hfunction)
      · exact he₁₂₁₄.live _ (he₁₀₁₂.live _ (he₅₁₀.live _ harray))
      · exact he₁₂₁₄.live _ (he₁₀₁₂.live _ (he₆₁₀.live _ hglobal))
    · exact he₁₄.live _ (herrors id hid)
  obtain ⟨_, h₁₅, hx, hr⟩ := bind_ok.mp hr
  obtain ⟨hf₁₅, he₁₅, hroots⟩ := roots_ok hf₁₄ hlive hx
  obtain ⟨rfl, rfl⟩ := EStateM.Result.ok.inj hr
  have hend := he₁₂₁₄.trans he₁₅
  refine ⟨hf₁₅, ⟨?_, fun id hid => ?_, fun id hid => ?_, fun kind => ?_⟩,
    (hstart.trans hend).atoms⟩
  · exact ⟨hend.roots _ _ (he₁₀₁₂.roots _ _ hobjectShape),
      hend.roots _ _ (he₁₀₁₂.roots _ _ harrayShape),
      hend.roots _ _ (he₁₀₁₂.roots _ _ (he₁₀.roots _ _ hfunctionShape)),
      hend.roots _ _ (he₇₁₂.roots _ _ hstringShape),
      hend.roots _ _ (he₁₀₁₂.roots _ _ (he₁₀.roots _ _ (he₉.roots _ _ hactivationShape)))⟩
  · exact he₁₅.live _ (hlive id hid)
  · exact hroots id hid
  · refine List.mem_append_right _ ?_
    have hlt : kind.position < errorPrototypes.length := by
      rw [hlength]
      cases kind <;> decide
    simp [Intrinsics.errorPrototype, hlt]

theorem names_ok (hf : h.Founded count) (hr : Bootstrap.names h = .ok n h') :
    h'.Founded count ∧ h.Evolves h' ∧ n.Known h'.atoms := by
  unfold Bootstrap.names at hr
  obtain ⟨length, h₁, hx, hr⟩ := bind_ok.mp hr
  obtain ⟨hf₁, he₁, hk₁⟩ := intern_ok hf hx
  obtain ⟨prototype, h₂, hx, hr⟩ := bind_ok.mp hr
  obtain ⟨hf₂, he₂, hk₂⟩ := intern_ok hf₁ hx
  obtain ⟨constructor, h₃, hx, hr⟩ := bind_ok.mp hr
  obtain ⟨hf₃, he₃, hk₃⟩ := intern_ok hf₂ hx
  obtain ⟨name, h₄, hx, hr⟩ := bind_ok.mp hr
  obtain ⟨hf₄, he₄, hk₄⟩ := intern_ok hf₃ hx
  obtain ⟨message, h₅, hx, hr⟩ := bind_ok.mp hr
  obtain ⟨hf₅, he₅, hk₅⟩ := intern_ok hf₄ hx
  obtain ⟨rfl, rfl⟩ := EStateM.Result.ok.inj hr
  have he₃₅ := he₄.trans he₅
  have he₂₅ := he₃.trans he₃₅
  have he₁₅ := he₂.trans he₂₅
  exact ⟨hf₅, he₁.trans he₁₅, he₁₅.atoms.knows hk₁, he₂₅.atoms.knows hk₂, he₃₅.atoms.knows hk₃,
    he₅.atoms.knows hk₄, hk₅⟩

theorem founded_new (limits : HeapLimits) : (Heap.new limits).Founded 0 where
  coherent := coherent_new limits
  closed := ⟨by simp [Heap.new, cell?], by simp [Heap.new, cell?], by simp [Heap.new],
    by simp [Heap.new]⟩
  listed := (Regular.new limits).listed
  acyclic := .new limits
  size := by simp [Heap.new]
  unremoved := rfl

end Bootstrap

/-- **A fresh machine is anchored**, and its heap is in order; nothing runs yet. -/
theorem Machine.new_spec {config : Config} {m : Machine} (hm : Machine.new config = .ok m) :
    m.Anchored ∧ m.heap.Founded 29 ∧
      m = { config, heap := m.heap, names := m.names, intrinsics := m.intrinsics
            registers := { capacity := config.registerFileCapacity }
            watchdog := .new config.timeLimitMs config.ticksPerCheck } := by
  unfold Machine.new at hm
  dsimp only at hm
  split at hm
  case h_2 => cases hm
  case h_1 heap hs =>
    obtain rfl := Except.ok.inj hm
    obtain ⟨n, h₁, hn, hs⟩ := Bootstrap.bind_ok.mp hs
    obtain ⟨hf₁, -, hk⟩ := Bootstrap.names_ok (Bootstrap.founded_new _) hn
    obtain ⟨i, h₂, hi, hs⟩ := Bootstrap.bind_ok.mp hs
    obtain ⟨hf₂, ha, hext⟩ := Bootstrap.intrinsics_ok hf₁ hk hi
    obtain ⟨heq, rfl⟩ := EStateM.Result.ok.inj hs
    obtain ⟨rfl, rfl⟩ := Prod.mk.inj heq
    have hcell : h₂.clearTemporaries.cell? = h₂.cell? := Heap.cell?_congr rfl
    refine ⟨⟨⟨ha.shaped, ?_, ha.rooted, ha.errors⟩, hk.extends hext⟩,
      ⟨hf₂.coherent.congr (hf₂.coherent.white.congr rfl) hcell rfl rfl,
        hf₂.closed.congr hcell rfl rfl (by simp [Heap.clearTemporaries]),
        hf₂.listed.congr rfl rfl, hf₂.acyclic.congr (fun _ => rfl) (fun _ => rfl), hf₂.size,
        hf₂.unremoved⟩, rfl⟩
    rw [Heap.isLive_congr hcell]
    exact ha.live

end ScriptMachine
