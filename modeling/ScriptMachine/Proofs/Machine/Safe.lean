import ScriptMachine.Proofs.Machine.Uncached
import ScriptMachine.Proofs.Tier.Lowering

/-! # Safe machines

A machine is clean (`Machine.Clean`) when its heap is closed, prototypes lie in no circle, and everything a
collection starts from is live. `Machine.Safe` adds what the operations rely on: a coherent heap, valid caches, interned
names, and that nobody listens and no host function is registered.

Handles have 32-bit indices, so a heap with more than `2 ^ 32` slots gives one handle to two cells.
Cleanness is claimed of machines with fewer (`Machine.Addressable`), the rest of all machines; a value
is held (`Machine.Holds`) when it does not dangle in such a machine, and guarded (`Machine.Guards`)
when a collection would find it. -/

namespace ScriptMachine

namespace Machine

/-- Every slot of the heap has a handle of its own. -/
def Addressable (m : Machine) : Prop := m.heap.slots.size ≤ 2 ^ 32

/-- What a collection starts from. -/
def anchors (m : Machine) : List Value := m.heap.allRoots m.roots m.rootWords

/-- The value does not dangle. -/
def Holds (m : Machine) (v : Value) : Prop := m.Addressable → v.Live m.heap

/-- The value does not dangle, and a collection finds it. -/
structure Guards (m : Machine) (v : Value) : Prop where
  holds : m.Holds v
  reached : ∀ id, v.cell? = some id → m.heap.isLive id = true → m.heap.Reachable m.anchors id

/-- **A clean machine**: nothing dangles, and chains of prototypes end. -/
structure Clean (m : Machine) : Prop where
  closed : m.heap.Closed
  listed : m.heap.FreeListed
  acyclic : m.heap.Acyclic
  anchors : ∀ v ∈ m.anchors, v.Live m.heap

/-- **A safe machine.** -/
structure Safe (m : Machine) : Prop where
  heap : m.heap.Coherent
  anchored : m.Anchored
  caches : m.Remembers fun _ _ _ => True
  codes : ∀ entry ∈ m.codes, entry.Known m.heap.atoms
  listeners : m.listeners = #[]
  hosts : m.hosts = #[]
  parked : ∀ failure, m.stubUnwind = some (.fatal failure) → m.Addressable → failure ≠ .staleHandle
  clean : m.Addressable → m.Clean

/-- What only grows while a machine runs. -/
structure Grows (m m' : Machine) : Prop where
  slots : m.heap.slots.size ≤ m'.heap.slots.size
  atoms : m'.heap.atoms.Extends m.heap.atoms

variable {m m' m'' : Machine} {v w : Value} {h : Heap}

theorem Grows.refl (m : Machine) : m.Grows m := ⟨Nat.le_refl _, .refl _⟩

theorem Grows.trans (h₁ : m.Grows m') (h₂ : m'.Grows m'') : m.Grows m'' :=
  ⟨Nat.le_trans h₁.slots h₂.slots, h₂.atoms.trans h₁.atoms⟩

theorem Grows.addressable (hg : m.Grows m') (ha : m'.Addressable) : m.Addressable :=
  Nat.le_trans hg.slots ha

/-! ### Cells by what they hold -/

theorem scopeRecord?_eq_some {id : Handle} {record : ScopeRecord} :
    m.scopeRecord? id = some record ↔
      ∃ c room, m.heap.cell? id = some c ∧ c.payload = .activation record room := by
  unfold scopeRecord? Cell.scope?
  cases m.heap.cell? id with
  | none => simp
  | some c =>
    dsimp only
    split <;> simp_all

theorem functionData?_eq_some {id : Handle} {data : FunctionData}
    (h : m.functionData? (.cell id) = some data) :
    ∃ c, m.heap.cell? id = some c ∧ c.payload = .function data := by
  unfold functionData? Heap.cellOf? at h
  rw [Value.cell?_cell] at h
  dsimp only at h
  split at h
  case h_2 => cases h
  case h_1 c hc =>
    refine ⟨c, hc, ?_⟩
    unfold Cell.function? at h
    split at h
    · obtain rfl := Option.some.inj h
      assumption
    · cases h

/-! ### What a collection starts from -/

theorem mem_anchors : v ∈ m.anchors ↔
    v ∈ m.roots ∨ v.word ∈ m.rootWords ∨ some v ∈ m.heap.roots ∨ v ∈ m.heap.temporaries :=
  Heap.mem_allRoots

theorem mem_roots : v ∈ m.roots ↔
    v ∈ m.registers.registers ∨ (∃ f ∈ m.frames, v ∈ frameRoots f) ∨
      m.pendingException = some v ∨ m.lastRaised = some v ∨ v ∈ stubRoots m.stubUnwind ∨
        ∃ entry ∈ m.codes, v ∈ entry.constants := by
  simp only [roots, List.mem_append, Array.mem_toList_iff, List.mem_flatMap, Option.mem_toList,
    or_assoc]

theorem mem_frameRoots {f : Frame} : v ∈ frameRoots f ↔
    v = f.callee ∨ v = f.this ∨ f.scope.map Value.cell = some v ∨
      f.activation.map Value.cell = some v ∨ v ∈ f.extraArgs := by
  simp only [frameRoots, List.cons_append, List.mem_cons, List.mem_append, Option.mem_toList,
    Array.mem_toList_iff, or_assoc]

/-! ### Values that are held or guarded -/

theorem holds_of_not_cell (hv : v.cell? = none) : m.Holds v := by
  intro _ id hid
  rw [hv] at hid
  cases hid

theorem guards_of_not_cell (hv : v.cell? = none) : m.Guards v := by
  refine ⟨holds_of_not_cell hv, fun id hid => ?_⟩
  rw [hv] at hid
  cases hid

theorem Holds.congr (hh : m.Holds v) (hheap : m'.heap = m.heap) : m'.Holds v := by
  unfold Holds Addressable at *
  rw [hheap]
  exact hh

theorem Safe.guards (hs : m.Safe) (hv : v ∈ m.anchors) : m.Guards v := by
  refine ⟨fun ha => (hs.clean ha).anchors v hv, fun id hid hlive => ?_⟩
  rw [Value.cell?_eq_some.mp hid] at hv
  exact .root hv hlive

theorem Safe.holds_reference (hs : m.Safe) {id : Handle} {c : Cell}
    (hcell : m.heap.cell? id = some c) (hv : v ∈ m.heap.references c) : m.Holds v := by
  intro ha
  have hclosed := (hs.clean ha).closed
  simp only [Heap.references, List.cons_append, List.mem_cons, List.mem_append,
    Array.mem_toList_iff] at hv
  rcases hv with rfl | hslot | href
  · exact hclosed.prototype id c hcell
  · exact hclosed.held id c v hcell (.inl hslot)
  · exact hclosed.held id c v hcell (.inr href)

/-- What a guarded cell refers to is guarded. -/
theorem Safe.guards_reference (hs : m.Safe) {id : Handle} {c : Cell} (hid : m.Guards (.cell id))
    (hcell : m.heap.cell? id = some c) (hv : v ∈ m.heap.references c) : m.Guards v := by
  refine ⟨hs.holds_reference hcell hv, fun child hchild hlive => ?_⟩
  have hreach := hid.reached id (Value.cell?_cell id) (Heap.isLive_of_cell? hcell)
  rw [Value.cell?_eq_some.mp hchild] at hv
  exact .step hreach hcell (Heap.mem_references.mp hv) hlive

/-- Guarded values stay so while no cell changes and nothing is let go. -/
theorem Guards.congr (hg : m.Guards v) (hcell : m'.heap.cell? = m.heap.cell?)
    (hsize : m'.heap.slots.size = m.heap.slots.size)
    (href : ∀ id c, m.heap.cell? id = some c → m'.heap.references c = m.heap.references c)
    (ha : ∀ v ∈ m.anchors, v ∈ m'.anchors) : m'.Guards v := by
  have hlive (id : Handle) : m'.heap.isLive id = m.heap.isLive id := by
    unfold Heap.isLive
    rw [hcell]
  refine ⟨fun hm id hid => ?_, fun id hid hl => ?_⟩
  · have hm' : m.Addressable := by
      unfold Addressable at hm
      rwa [hsize] at hm
    rw [hlive]
    exact hg.holds hm' id hid
  · rw [hlive] at hl
    have hreach := hg.reached id hid hl
    clear hid hl
    induction hreach with
    | root hmem hl => exact .root (ha _ hmem) ((hlive _).trans hl)
    | step _ hc hr hl ih =>
      refine .step ih (by rw [hcell]; exact hc) ?_ ((hlive _).trans hl)
      rw [← Heap.mem_references] at hr ⊢
      rwa [href _ _ hc]

/-! ### Changes of the heap -/

theorem storable_holds (m : Machine) : Storable m.Holds :=
  ⟨holds_of_not_cell (by simp), holds_of_not_cell (by simp)⟩

/-- **Storing values that are held keeps a machine safe.** -/
theorem Safe.changes (hs : m.Safe) (hc : Heap.Changes m.Holds m.heap h) :
    Safe { m with heap := h } := by
  obtain ⟨hco, he⟩ := hc.coherent hs.heap
  have hk := hc.keeps
  have haddr (ha : Addressable { m with heap := h }) : m.Addressable := by
    have : h.slots.size ≤ 2 ^ 32 := ha
    rwa [hk.size] at this
  refine ⟨hco, ⟨hs.anchored.intrinsics.evolves he, hs.anchored.names.extends he.atoms⟩,
    hs.caches.evolves rfl he (fun _ _ _ h => h), fun entry hentry => (hs.codes entry hentry).extends he.atoms,
    hs.listeners, hs.hosts, fun failure hf ha => hs.parked failure hf (haddr ha), fun ha => ?_⟩
  have ha' := haddr ha
  have hclean := hs.clean ha'
  have hlive : Heap.Changes (·.Live m.heap) m.heap h := hc.mono fun v hv => hv ha'
  have hclosed : h.Closed := hlive.closed hclean.closed hs.heap
  refine ⟨hclosed, hk.listed hclean.listed, hclean.acyclic.changes hs.heap hc, fun v hv => ?_⟩
  rcases mem_anchors.mp hv with hv | hv | hv | hv
  · exact he.value (hclean.anchors v (mem_anchors.mpr (.inl hv)))
  · exact he.value (hclean.anchors v (mem_anchors.mpr (.inr (.inl hv))))
  · exact hclosed.roots v hv
  · exact hclosed.temporaries v hv

theorem grows_changes {P : Value → Prop} (hs : m.Safe) (hc : Heap.Changes P m.heap h) :
    m.Grows { m with heap := h } :=
  ⟨Nat.le_of_eq hc.keeps.size.symm, (hc.coherent hs.heap).2.atoms⟩

/-- Values that are held stay so. -/
theorem Holds.changes {P : Value → Prop} (hv : m.Holds v) (hs : m.Safe)
    (hc : Heap.Changes P m.heap h) : Machine.Holds { m with heap := h } v := by
  intro ha
  have ha' : m.Addressable := (grows_changes hs hc).addressable ha
  exact (hc.coherent hs.heap).2.value (hv ha')

/-! ### Changes of everything else -/

/-- **Holding on to other values that are held keeps a machine safe.** -/
theorem Safe.rehold (hs : m.Safe) (hheap : m'.heap = m.heap) (hi : m'.intrinsics = m.intrinsics)
    (hn : m'.names = m.names) (hc : m'.codes = m.codes) (hl : m'.listeners = m.listeners)
    (hh : m'.hosts = m.hosts)
    (hp : ∀ failure, m'.stubUnwind = some (.fatal failure) → m.Addressable → failure ≠ .staleHandle)
    (hr : ∀ v ∈ m'.roots, m.Holds v) (hw : ∀ v : Value, v.word ∈ m'.rootWords → m.Holds v) :
    m'.Safe := by
  have haddr (ha : m'.Addressable) : m.Addressable := by
    unfold Addressable at ha
    rwa [hheap] at ha
  refine ⟨by rw [hheap]; exact hs.heap,
    ⟨by rw [hi, hheap]; exact hs.anchored.intrinsics, by rw [hn, hheap]; exact hs.anchored.names⟩,
    hs.caches.evolves hc (by rw [hheap]; exact .refl _) fun _ _ _ h => h, ?_, hl.trans hs.listeners,
    hh.trans hs.hosts, fun failure hf ha => hp failure hf (haddr ha), fun ha => ?_⟩
  · rw [hc, hheap]
    exact hs.codes
  · have ha' := haddr ha
    have hclean := hs.clean ha'
    refine ⟨by rw [hheap]; exact hclean.closed, by rw [hheap]; exact hclean.listed,
      by rw [hheap]; exact hclean.acyclic, fun v hv => ?_⟩
    rw [hheap]
    rcases mem_anchors.mp hv with hv | hv | hv | hv
    · exact hr v hv ha'
    · exact hw v hv ha'
    · rw [hheap] at hv
      exact hclean.closed.roots v hv
    · rw [hheap] at hv
      exact hclean.closed.temporaries v hv

theorem Safe.holds_root (hs : m.Safe) (hv : v ∈ m.roots) : m.Holds v :=
  (hs.guards (mem_anchors.mpr (.inl hv))).holds

theorem Safe.holds_word (hs : m.Safe) (hv : v.word ∈ m.rootWords) : m.Holds v :=
  (hs.guards (mem_anchors.mpr (.inr (.inl hv)))).holds

/-! ### Collections -/

/-- A collection changes the heap and the caches of properties. -/
theorem collect_frame (m : Machine) : ∃ forget : CodeEntry → CodeEntry,
    (∀ e, forget e = { e with
      caches := { e.caches with properties := (forget e).caches.properties } }) ∧
    m.collect.2 = { m with heap := (m.heap.collect m.roots m.rootWords).2
                           codes := m.codes.map forget } := by
  by_cases hz : (m.heap.collect m.roots m.rootWords).1.freedShapes > 0
  · exact ⟨_, fun e => rfl, congrArg Prod.snd (collect_of_pos hz)⟩
  · refine ⟨id, fun e => rfl, (congrArg Prod.snd (collect_of_zero hz)).trans ?_⟩
    rw [Array.map_id]

theorem anchors_collect (hs : m.Safe) : m.collect.2.anchors = m.anchors := by
  obtain ⟨forget, hforget, heq⟩ := collect_frame m
  have hroots : m.collect.2.roots = m.roots := by
    have hconstants : ∀ e, (forget e).constants = e.constants := fun e => by rw [hforget e]
    rw [heq]
    simp only [roots, Array.toList_map, List.flatMap_map, hconstants]
  have hwords : m.collect.2.rootWords = m.rootWords := by
    rw [heq]
    rfl
  unfold anchors Heap.allRoots
  rw [hroots, hwords, heap_collect, Heap.collect_frame hs.heap.white]

theorem size_collect (hs : m.Safe) : m.collect.2.heap.slots.size = m.heap.slots.size := by
  rw [heap_collect]
  change ((m.heap.mark m.anchors).sweep.2.slots).size = _
  have hm := Heap.mark_marking hs.heap.white m.anchors
  rw [Heap.sweep_slots, Array.size_map, ← hm.slots, Array.size_map]

theorem grows_collect (hs : m.Safe) : m.Grows m.collect.2 := by
  refine ⟨Nat.le_of_eq (size_collect hs).symm, ?_⟩
  rw [heap_collect, Heap.collect_frame hs.heap.white]
  exact .refl _

/-- **A guarded value outlives a collection.** -/
theorem Guards.live_collect (hg : m.Guards v) (hs : m.Safe) (hv : v.Live m.heap) :
    v.Live m.collect.2.heap := by
  intro id hid
  have hreach := hg.reached id hid (hv id hid)
  obtain ⟨c, hc⟩ := Heap.isLive_iff.mp hreach.isLive
  rw [heap_collect]
  exact Heap.isLive_of_cell? ((Heap.cell?_collect hs.heap.white _ _).mpr ⟨hc, hreach⟩)

theorem Guards.collect (hg : m.Guards v) (hs : m.Safe) : m.collect.2.Holds v :=
  fun ha => hg.live_collect hs (hg.holds ((grows_collect hs).addressable ha))

/-- **A collection keeps a machine safe.** -/
theorem Safe.collect (hs : m.Safe) : m.collect.2.Safe := by
  obtain ⟨forget, hforget, heq⟩ := collect_frame m
  have hatoms : m.collect.2.heap.atoms = m.heap.atoms := by
    rw [heap_collect, Heap.collect_frame hs.heap.white]
  refine ⟨by rw [heap_collect]; exact hs.heap.collect _ _, ⟨?_, ?_⟩, hs.caches.collect hs.heap,
    fun entry hentry => ?_, by rw [heq]; exact hs.listeners, by rw [heq]; exact hs.hosts,
    fun failure hf ha => ?_, fun ha => ?_⟩
  · rw [heap_collect, heq]
    exact hs.anchored.intrinsics.collect hs.heap _ _
  · rw [hatoms, heq]
    exact hs.anchored.names
  · rw [hatoms]
    rw [heq] at hentry
    obtain ⟨e, he, rfl⟩ := Array.mem_map.mp hentry
    have hknown := hs.codes e he
    rw [hforget e]
    exact ⟨hknown.atoms, hknown.compiled⟩
  · rw [heq] at hf
    exact hs.parked failure hf ((grows_collect hs).addressable ha)
  · have ha' := (grows_collect hs).addressable ha
    have hclean := hs.clean ha'
    refine ⟨by rw [heap_collect]; exact hclean.closed.collect hs.heap.white _ _,
      by rw [heap_collect]; exact hclean.listed.collect hs.heap.white _ _,
      by rw [heap_collect]; exact hclean.acyclic.collect hs.heap.white _ _, fun v hv => ?_⟩
    rw [anchors_collect hs] at hv
    exact (hs.guards hv).collect hs ha

end Machine

end ScriptMachine
