import ScriptMachine.Proofs.Events.Invariants
import ScriptMachine.Proofs.Heap.Roots
import ScriptMachine.Proofs.Scope.Lines

/-! # Machines whose scope chains are in order

In a sheltered machine (`Machine.Sheltered`) the scope chain of every frame is in three parts, what every
function captured is a line, and where scopes end the global object is there. Silent changes keep a machine
sheltered (`Silent.sheltered`), and so do pushing a frame that begins over the scope its function captured,
and popping one (`Invariant.sheltered`). Moving the variables of a frame that has opened a block scope would
hide the record of that scope. Code never does that, but a host may ask for it, as it may give up the global
object. As long as none does (`Machine.Undisturbed`), all machines that a host can get at are sheltered
(`Undisturbed.sheltered`). -/

namespace ScriptMachine

open Machine

/-! ## The global object is a root

In a rooted machine (`Machine.Rooted`) a collection keeps the global object, since it is a persistent root,
and a new scope record has neither properties nor a prototype, since the shape of scope records is an empty root
shape. Silent changes keep a machine rooted (`Silent.rooted`), and so does whatever a host demands, unless it
gives up the last root of the global object (`Demand.uproots`). -/

namespace Heap

variable {h h' : Heap} {held : List (RootId × Value)}

theorem Rooted.congr (hr : h.Rooted held) (hroots : h'.roots = h.roots) (hfree : h'.freeRoots = h.freeRoots) :
    h'.Rooted held where
  listed := by rw [hroots]; exact hr.listed
  free := by rw [hroots, hfree]; exact hr.free
  nodup := by rw [hfree]; exact hr.nodup

/-- Roots that are not free are registered. -/
theorem exists_rooted (hfree : ∀ i ∈ h.freeRoots, h.roots[i]? = some none) (hnodup : h.freeRoots.Nodup) :
    ∃ held, h.Rooted held := by
  refine ⟨(List.range h.roots.size).filterMap fun i => (h.roots[i]?).join.map fun v => (⟨i⟩, v),
    fun root v => ?_, hfree, hnodup⟩
  simp only [List.mem_filterMap, List.mem_range, Option.map_eq_some_iff, Option.join_eq_some_iff, Prod.mk.injEq]
  constructor
  · rintro ⟨i, -, w, hw, rfl, rfl⟩
    exact hw
  · exact fun hv => ⟨root.index, (Array.getElem?_eq_some_iff.mp hv).1, v, hv, rfl, rfl⟩

theorem Rooted.mem_roots (hr : h.Rooted held) {v : Value} : some v ∈ h.roots ↔ ∃ root, (root, v) ∈ held := by
  simp only [Array.mem_iff_getElem?, hr.listed]
  exact ⟨fun ⟨i, hi⟩ => ⟨⟨i⟩, hi⟩, fun ⟨root, hroot⟩ => ⟨root.index, hroot⟩⟩

/-- **Protecting a value** keeps the values that are protected. -/
theorem Rooted.mem_addRoot (hr : h.Rooted held) {v : Value} (value : Value) (hv : some v ∈ h.roots) :
    some v ∈ (h.addRoot value).2.roots := by
  obtain ⟨root, hroot⟩ := hr.mem_roots.mp hv
  exact (hr.add value).mem_roots.mpr ⟨root, List.mem_cons_of_mem _ hroot⟩

end Heap

/-- The demand gives up the last root of the global object. -/
def Demand.uproots (m : Machine) : Demand → Prop
  | .unprotect root => some (.cell m.intrinsics.global) ∉ (m.heap.removeRoot root).roots
  | _ => False

namespace Machine

/-- **A rooted machine.** -/
structure Rooted (m : Machine) : Prop where
  /-- The persistent roots are in order. -/
  listed : ∃ held, m.heap.Rooted held
  /-- The global object is one of them. -/
  global : some (.cell m.intrinsics.global) ∈ m.heap.roots
  /-- Its handle was issued. -/
  issued : m.heap.Issued m.intrinsics.global
  /-- The shape of scope records. -/
  shape : ∃ shape, m.heap.shapes.Founds shape m.intrinsics.activationShape ∧
    shape.prototype = .null ∧ shape.properties = #[]

variable {m m' : Machine}

/-- Persistent roots and root shapes stay. -/
theorem Rooted.of_roots (hm : m.Rooted) (hroots : m'.heap.roots = m.heap.roots)
    (hfree : m'.heap.freeRoots = m.heap.freeRoots) (hintrinsics : m'.intrinsics = m.intrinsics)
    (ho : m.heap.Outlasts m'.heap) (hshapes : ∀ shape id, shape.prototype = .null → m.heap.shapes.Founds shape id →
      m'.heap.shapes.Founds shape id) : m'.Rooted where
  listed := hm.listed.imp fun _ hr => hr.congr hroots hfree
  global := by rw [hroots, hintrinsics]; exact hm.global
  issued := by rw [hintrinsics]; exact ho.issued _ hm.issued
  shape := by
    obtain ⟨shape, hfounds, hprototype, hproperties⟩ := hm.shape
    rw [hintrinsics]
    exact ⟨shape, hshapes shape _ hprototype hfounds, hprototype, hproperties⟩

/-- The heap and the intrinsic objects stay. -/
theorem Rooted.congr (hm : m.Rooted) (hheap : m'.heap = m.heap) (hintrinsics : m'.intrinsics = m.intrinsics) :
    m'.Rooted :=
  hm.of_roots (by rw [hheap]) (by rw [hheap]) hintrinsics (by rw [hheap]; exact .refl _)
    fun _ _ _ h => by rwa [hheap]

/-- **Silent changes** keep a machine rooted. -/
theorem Silent.rooted (hregular : m.Regular) (hm : m.Rooted) (hs : m.Silent m') : m'.Rooted := by
  have ho := (hs.abides hregular).heap
  cases hs with
  | heap hp => exact hm.of_roots hp.roots.1 hp.roots.2 rfl ho fun shape id _ => hp.shapes shape id
  | allocate shape _ _ =>
    obtain ⟨hshapes, -, hroots, -⟩ := Heap.allocate_frame m.heap shape _
    refine hm.of_roots hroots ?_ rfl ho fun _ _ _ h => by rwa [hshapes]
    rcases Heap.allocate_cases m.heap shape _ with ⟨_, heq⟩ | ⟨_, -, heq⟩ <;> rw [heq]
  | collect =>
    obtain ⟨forget, -, heq⟩ := collect_frame m
    have hheap : m.collect.2.heap = (m.heap.collect m.roots m.rootWords).2 := by rw [heq]
    have hframe := Heap.collect_frame hregular.white m.roots m.rootWords
    refine hm.of_roots ?_ ?_ (by rw [heq]) ho fun shape id hprototype h => ?_
    · rw [hheap, hframe]
    · rw [hheap, hframe]
    · rw [hheap]
      exact Heap.founds_collect hregular.white h (by rw [hprototype]; exact Value.cell?_null) _ _
  | recode => exact hm.congr rfl rfl
  | slot id index v => exact hm.of_roots rfl rfl rfl ho fun _ _ _ h => h
  | frame hf _ =>
    obtain ⟨below, hframes⟩ := frame?_eq_some.mp hf
    exact hm.congr rfl rfl
  | beside hheap _ _ _ _ _ _ hintrinsics => exact hm.congr hheap hintrinsics

/-- **Changing persistent roots**, unless the last root of the global object is given up. -/
theorem Rooted.reroot (hm : m.Rooted) {demand : Demand} {h : Heap} (hd : demand.Reroots m.heap h)
    (hkeeps : ¬demand.uproots m) : Rooted { m with heap := h } := by
  obtain ⟨held, hr⟩ := hm.listed
  obtain ⟨roots, freeRoots, heq⟩ := hd.frame
  suffices hroots : (∃ held, h.Rooted held) ∧ some (.cell m.intrinsics.global) ∈ h.roots from
    ⟨hroots.1, hroots.2, by rw [heq]; exact hm.issued, by rw [heq]; exact hm.shape⟩
  cases hd with
  | protect value => exact ⟨⟨_, hr.add value⟩, hr.mem_addRoot value hm.global⟩
  | unprotect root => exact ⟨⟨_, hr.remove root⟩, Classical.not_not.mp hkeeps⟩

/-- A fresh machine is rooted. -/
theorem rooted_new {config : Config} (hm : Machine.new config = .ok m) : m.Rooted := by
  obtain ⟨hanchored, hfounded, -⟩ := Machine.new_spec hm
  have hordered := hfounded.coherent.shapes
  have hlisted := hanchored.intrinsics.shaped.activation
  obtain ⟨⟨hlive, hshared⟩, hkind, hprototype, hproperties⟩ := hordered.root _ _ _ hlisted
  have hglobal : m.intrinsics.global ∈ m.intrinsics.objects := by simp [Intrinsics.objects]
  refine ⟨Heap.exists_rooted ?_ ?_, hanchored.intrinsics.rooted _ hglobal,
    fun _ => .inl (hanchored.intrinsics.live _ hglobal), _,
    ⟨?_, fun hfree => ?_, ?_, hshared⟩, hprototype, hproperties⟩
  · rw [hfounded.unremoved]
    exact fun i hi => (by cases hi)
  · rw [hfounded.unremoved]
    exact List.nodup_nil
  · rw [hkind, hprototype]
    exact hlisted
  · rw [(hordered.free _ hfree).2] at hlive
    cases hlive
  · rw [ShapeTable.get, Array.getD_eq_getD_getElem?,
      Array.getElem?_eq_getElem (ShapeTable.isLive_iff.mp hlive).1, Option.getD_some]

end Machine

/-! ## Sheltered machines -/

namespace Machine

/-- **A sheltered machine**: its scope chains are in order, and the global object is a root. -/
structure Sheltered (m : Machine) : Prop where
  regular : m.Regular
  registered : m.Registered
  rooted : m.Rooted
  /-- A frame with an open block scope has moved its variables, if its code ever does. -/
  moved : ∀ f ∈ m.frames, f.scopeDepth ≠ 0 → m.HasMoved f
  /-- What functions captured. -/
  functions : m.heap.Roomy → ∀ id data, m.heap.function? id = some data →
    ∃ ids, m.heap.Line ids data.scope
  /-- The scope chains of the frames. -/
  frames : m.heap.Roomy → ∀ f ∈ m.frames, ∃ blocks outer, m.Scopes f blocks outer

variable {m m' : Machine} {f : Frame} {g : Frame → Frame} {id : Handle}

theorem Sheltered.settled (hm : m.Sheltered) : m.Settled :=
  ⟨fun entry h => (hm.registered.codes entry h).compiled, hm.moved⟩

/-! ### Changes that leave the frames alone -/

theorem captured_of_function? (hf : f.callee = .cell id) (hsame : m'.heap.function? id = m.heap.function? id) :
    m'.captured f = m.captured f := by
  unfold captured
  rw [hf, functionData?_cell, functionData?_cell, hsame]

/-- A change that keeps the lines of frames and functions. -/
theorem Sheltered.still (hm : m.Sheltered) (ha : m.Abides m') (hregistered : m'.Registered)
    (hrooted : m'.Rooted) (hframes : m'.frames = m.frames) (hmoves : ∀ f, m.HasMoved f → m'.HasMoved f)
    (hlines : m'.heap.Roomy → ∀ f ∈ m.frames, ∀ ids, m.heap.Line ids f.scope → m'.heap.Line ids f.scope)
    (hfunctions : m'.heap.Roomy → ∀ id data, m'.heap.function? id = some data →
      ∃ ids, m'.heap.Line ids data.scope) : m'.Sheltered where
  regular := ha.regular
  registered := hregistered
  rooted := hrooted
  moved f hf hd := by
    rw [hframes] at hf
    exact hmoves f (hm.moved f hf hd)
  functions := hfunctions
  frames hr f hf := by
    rw [hframes] at hf
    obtain ⟨blocks, outer, hs⟩ := hm.frames (ha.heap.roomy hr) f hf
    have hcallee : f.callee ∈ m.callees := by
      simp only [callees, List.mem_map, List.mem_reverse, Array.mem_toList_iff]
      exact ⟨f, hf, rfl⟩
    obtain ⟨id, hid, -⟩ := hm.regular.callees _ hcallee
    refine ⟨blocks, outer, hs.transfer (captured_of_function? hid ?_) (hlines hr f hf _ hs.line)⟩
    exact ha.functions hr id (hid ▸ hcallee)

/-- A change of cells that keeps all links and functions. -/
theorem Sheltered.relink (hm : m.Sheltered) (ha : m.Abides m') (hregistered : m'.Registered)
    (hrooted : m'.Rooted) (hframes : m'.frames = m.frames) (hmoves : ∀ f, m.HasMoved f → m'.HasMoved f)
    (hlinks : m'.heap.link? = m.heap.link?)
    (hfunctions : ∀ id, m'.heap.function? id = m.heap.function? id) : m'.Sheltered := by
  have hline {ids : List Handle} {scope : Option Handle} (hl : m.heap.Line ids scope) :
      m'.heap.Line ids scope := hl.transfer fun id _ => by rw [hlinks]
  refine hm.still ha hregistered hrooted hframes hmoves (fun _ _ _ _ hl => hline hl) fun hr id data hd => ?_
  rw [hfunctions] at hd
  obtain ⟨ids, hl⟩ := hm.functions (ha.heap.roomy hr) id data hd
  exact ⟨ids, hline hl⟩

/-- **An allocation**: a new function captures the scope of a frame, or nothing. -/
theorem Sheltered.allocate (hm : m.Sheltered) (shape : ShapeId) {payload : Payload}
    (ha : m.Abides { m with heap := (m.heap.allocate shape payload).2 })
    (hregistered : Registered { m with heap := (m.heap.allocate shape payload).2 })
    (hrooted : Rooted { m with heap := (m.heap.allocate shape payload).2 })
    (hsupplied : m.Supplies payload) : Sheltered { m with heap := (m.heap.allocate shape payload).2 } := by
  let h := (m.heap.allocate shape payload).2
  have hline (hr : h.Roomy) {ids : List Handle} {scope : Option Handle} (hl : m.heap.Line ids scope) :
      h.Line ids scope := hl.allocate (hm.regular.listed (ha.heap.roomy hr)) shape payload (Nat.le_of_lt hr)
  refine hm.still ha hregistered hrooted rfl (fun _ h => h) (fun hr _ _ _ hl => hline hr hl) fun hr id data hd => ?_
  obtain ⟨c, hc, hp⟩ := Heap.function?_eq_some.mp hd
  rcases Heap.cell?_allocate_cases hc with hold | hnew
  · obtain ⟨ids, hl⟩ := hm.functions (ha.heap.roomy hr) id data (Heap.function?_eq_some.mpr ⟨c, hold, hp⟩)
    exact ⟨ids, hline hr hl⟩
  · rw [hnew] at hp
    rw [hp] at hsupplied
    rcases hsupplied.2 with hnone | ⟨f, hf, hscope⟩
    · exact ⟨[], hnone⟩
    · obtain ⟨blocks, outer, hs⟩ := hm.frames (ha.heap.roomy hr) f hf
      exact ⟨_, hscope ▸ hline hr hs.line⟩

/-- **A collection**: the scopes of frames are roots, and a function that is left leads to what it
captured. -/
theorem Sheltered.collect (hm : m.Sheltered) (ha : m.Abides m.collect.2) (hregistered : m.collect.2.Registered)
    (hrooted : m.collect.2.Rooted) : m.collect.2.Sheltered := by
  obtain ⟨-, hquiet⟩ := arrives_collect m
  obtain ⟨forget, -, heq⟩ := collect_frame m
  have hheap : m.collect.2.heap = (m.heap.collect m.roots m.rootWords).2 := by rw [heq]
  refine hm.still ha hregistered hrooted hquiet.frames (fun _ h => h.quiet hquiet) ?_ ?_
  · intro _ f hf ids hl
    rw [hheap]
    refine hl.collect hm.regular.white _ _ fun id hid hlive => .root ?_ hlive
    refine mem_anchors.mpr (.inl (mem_roots.mpr (.inr (.inl ⟨f, hf, mem_frameRoots.mpr ?_⟩))))
    exact .inr (.inr (.inl (by rw [hid]; rfl)))
  · intro hr id data hd
    rw [hheap] at hd ⊢
    obtain ⟨c, hc, hp⟩ := Heap.function?_eq_some.mp hd
    obtain ⟨hold, hreach⟩ := (Heap.cell?_collect hm.regular.white _ _).mp hc
    obtain ⟨ids, hl⟩ := hm.functions (ha.heap.roomy hr) id data (Heap.function?_eq_some.mpr ⟨c, hold, hp⟩)
    exact ⟨ids, hl.collect hm.regular.white _ _ fun next hnext hlive =>
      .step hreach hold (.scope hp hnext) hlive⟩

/-! ### The running frame -/

/-- **What the running frame does to its scopes** leaves its chain in order. -/
theorem Scopes.rescopes {f' : Frame} {blocks outer : List Handle} (hs : m.Scopes f blocks outer)
    (hr : m.heap.Roomy) (h : m.Rescopes f f') : ∃ blocks', m.Scopes f' blocks' outer := by
  cases h with
  | moves depth pc hd => exact ⟨_, hs.leaves hd pc⟩
  | opens id _ hlink => exact ⟨_, hs.opens hr (hlink hr)⟩
  | tears id ha hd hlink => exact ⟨_, hs.tears ha hd (hlink hr)⟩

/-- With an open block scope, the variables have moved if they ever do. -/
theorem HasMoved.rescopes {f' : Frame} (hf : f.scopeDepth ≠ 0 → m.HasMoved f) (h : m.Rescopes f f')
    (hd : f'.scopeDepth ≠ 0) : m.HasMoved f' := by
  cases h with
  | moves depth pc hle =>
    refine hf fun hzero => hd (UInt32.toNat_inj.mp (Nat.le_zero.mp ?_))
    rw [hzero] at hle
    exact UInt32.le_iff_toNat_le.mp hle
  | opens id hmoves _ => exact hmoves
  | tears id _ hzero _ => exact absurd hzero hd

theorem Sheltered.modifyFrame (hm : m.Sheltered) (hregular : (m.modifyFrame g).Regular)
    (hf : m.frame? = some f) (hg : m.Rescopes f (g f)) : (m.modifyFrame g).Sheltered := by
  obtain ⟨below, hframes⟩ := frame?_eq_some.mp hf
  have hmem := Array.mem_of_back? hf
  have hcases {k : Frame} (hk : k ∈ (m.modifyFrame g).frames) : k ∈ m.frames ∨ k = g f := by
    rw [frames_modifyFrame hframes] at hk
    rw [hframes]
    exact (Array.mem_push.mp hk).imp_left fun h => Array.mem_push.mpr (.inl h)
  refine ⟨hregular, hm.registered.modifyFrame hf hg.code, hm.rooted.congr rfl rfl, fun k hk hd => ?_,
    hm.functions, fun hr k hk => ?_⟩
  · rcases hcases hk with hk | rfl
    · exact hm.moved k hk hd
    · have hmoves : m.HasMoved (g f) := HasMoved.rescopes (hm.moved f hmem) hg hd
      exact hmoves
  · rcases hcases hk with hk | rfl
    · obtain ⟨blocks, outer, hs⟩ := hm.frames hr k hk
      exact ⟨blocks, outer, hs.congr rfl⟩
    · obtain ⟨blocks, outer, hs⟩ := hm.frames hr f hmem
      obtain ⟨blocks', hs'⟩ := hs.rescopes hr hg
      exact ⟨blocks', outer, hs'.congr rfl⟩

/-- Neither the heap nor the frames nor the code change, nor the intrinsic objects. -/
theorem Sheltered.beside (hm : m.Sheltered) (hheap : m'.heap = m.heap) (hframes : m'.frames = m.frames)
    (hcodes : m'.codes = m.codes) (hintrinsics : m'.intrinsics = m.intrinsics) (hhosts : m.hosts.size ≤ m'.hosts.size) : m'.Sheltered := by
  have hproper := Invariant.proper.beside ⟨hm.regular, hm.registered⟩ hheap hframes hcodes hintrinsics hhosts
  refine ⟨hproper.regular, hproper.registered, hm.rooted.congr hheap hintrinsics, fun f hf hd => ?_, ?_,
    fun hr f hf => ?_⟩
  · rw [hframes] at hf
    unfold HasMoved code?
    rw [hcodes]
    exact hm.moved f hf hd
  · rw [hheap]
    exact hm.functions
  · rw [hframes] at hf
    rw [hheap] at hr
    obtain ⟨blocks, outer, hs⟩ := hm.frames hr f hf
    exact ⟨blocks, outer, hs.congr hheap⟩

/-- **Silent changes keep scope chains in order.** -/
theorem Silent.sheltered (hm : m.Sheltered) (hs : m.Silent m') : m'.Sheltered := by
  have ha := hs.abides hm.regular
  have hregistered := hs.registered hm.regular hm.registered
  have hrooted := hs.rooted hm.regular hm.rooted
  cases hs with
  | heap hp => exact hm.relink ha hregistered hrooted rfl (fun _ h => h) hp.retains.links hp.retains.function?
  | allocate shape _ hsupplied => exact hm.allocate shape ha hregistered hrooted hsupplied
  | collect => exact hm.collect ha hregistered hrooted
  | recode _ hr =>
    refine hm.relink ha hregistered hrooted rfl (fun f h => ?_) rfl fun _ => rfl
    obtain ⟨entry, hentry, hmoved⟩ := h
    obtain ⟨entry', hentry', hfixed⟩ := hr.kept _ entry hentry
    have hblock : entry'.block = entry.block := (congrArg CodeEntry.block hfixed :)
    exact ⟨entry', hentry', fun hnone => by rw [hblock]; exact hmoved hnone⟩
  | slot id index v =>
    exact hm.relink ha hregistered hrooted rfl (fun _ h => h)
      (Heap.link?_modifyCell m.heap id (Cell.link?_mapScope fun _ => rfl)) (function?_setScopeSlot m id index v)
  | frame hf hg => exact hm.modifyFrame ha.regular hf hg
  | beside hheap hframes hcodes hhosts _ _ _ hintrinsics =>
    exact hm.beside hheap hframes hcodes hintrinsics (by rw [hhosts])

/-! ### Pushing and popping -/

/-- **A frame that begins** over the scope that its function captured. -/
theorem Sheltered.push (hm : m.Sheltered) (hi : m.heap.Issued id) (hf : m.Starts id f)
    (registers : RegisterFile) : Sheltered { m with frames := m.frames.push f, registers } := by
  refine ⟨hm.regular.push hf.callee hi registers, hm.registered.push hf.code registers,
    hm.rooted.congr rfl rfl, fun k hk hd => ?_, hm.functions, fun hr k hk => ?_⟩
  · rcases Array.mem_push.mp hk with hk | rfl
    · exact hm.moved k hk hd
    · exact absurd hf.depth hd
  · rcases Array.mem_push.mp hk with hk | rfl
    · obtain ⟨blocks, outer, hs⟩ := hm.frames hr k hk
      exact ⟨blocks, outer, hs.congr rfl⟩
    · have hcaptured : ∃ ids, m.heap.Line ids (m.captured k) := by
        unfold captured
        rw [hf.callee, functionData?_cell]
        cases hd : m.heap.function? id with
        | none => exact ⟨[], rfl⟩
        | some data => exact hm.functions hr id data hd
      obtain ⟨outer, hl⟩ := hcaptured
      refine ⟨[], outer, by rw [hf.depth]; rfl, hl, ?_⟩
      rw [hf.activation, hf.scope]
      exact hl

theorem Sheltered.pop (hm : m.Sheltered) (registers : RegisterFile) :
    Sheltered { m with frames := m.frames.pop, registers } := by
  have hmem {f : Frame} (hf : f ∈ m.frames.pop) : f ∈ m.frames := by
    rw [← Array.mem_toList_iff, Array.toList_pop] at hf
    exact Array.mem_toList_iff.mp (List.dropLast_subset _ hf)
  refine ⟨hm.regular.pop registers, hm.registered.pop registers, hm.rooted.congr rfl rfl,
    fun f hf => hm.moved f (hmem hf), hm.functions, fun hr f hf => ?_⟩
  obtain ⟨blocks, outer, hs⟩ := hm.frames hr f (hmem hf)
  exact ⟨blocks, outer, hs.congr rfl⟩

/-- Changing persistent roots. -/
theorem Sheltered.reroot (hm : m.Sheltered) {demand : Demand} {h : Heap} (hd : demand.Reroots m.heap h)
    (hkeeps : ¬demand.uproots m) : Sheltered { m with heap := h } := by
  have hrooted := hm.rooted.reroot hd hkeeps
  obtain ⟨roots, freeRoots, rfl⟩ := hd.frame
  have hr : m.heap.Retains { m.heap with roots, freeRoots } := .of_slots rfl rfl
  exact hm.relink (hm.regular.abides_retains hr hm.regular.ordered (.refl _)) (hm.registered.retains hr) hrooted
    rfl (fun _ h => h) rfl fun _ => rfl

end Machine

/-- **To have scope chains in order is an invariant.** -/
theorem Invariant.sheltered : Invariant Machine.Sheltered where
  regular hm := hm.regular
  registered hm := hm.registered
  settled := .inr fun _ hm => hm.settled
  silent hm hs := hs.sheltered hm
  push registers hm hi hf := hm.push hi hf registers
  pop registers hm := hm.pop registers
  beside hm := hm.beside

/-! ### Hosts -/

/-- The question asks for the variables of the running frame to be moved inside a block scope. -/
def HostQuery.intrudes (query : HostQuery) (m : Machine) : Bool :=
  match query with
  | .stub .tearOffActivation _ => m.frame?.any fun f => f.activation.isNone && f.scopeDepth != 0
  | _ => false

/-- Answers a question, unless it asks for variables to be moved inside a block scope. -/
def answerHeeding (query : HostQuery) : MachineM query.Reply := do
  if query.intrudes (← get) then throw .exhausted else answer query

/-- **A machine that a host can get at** without ever asking for variables to be moved inside a block scope, so
that whatever it does is done as well when such questions are not answered, and without giving up the last
root of the global object. -/
inductive Machine.Undisturbed : Machine → Prop
  /-- A fresh machine. -/
  | fresh {config : Config} {m : Machine} : Machine.new config = .ok m → Undisturbed m
  /-- What a demand leaves, however it ends. -/
  | demand {m : Machine} (demand : Demand) (pause : Machine → List Value → Bool) (fuel : Nat) :
      Undisturbed m → ¬demand.uproots m →
      m.evalAnswering answerHeeding pause fuel demand = m.evalPausing pause fuel demand.perform →
      Undisturbed (leaves (m.evalPausing pause fuel demand.perform))

variable {m : Machine}

/-- **Moving variables on request**, while no block scope is open. -/
theorem Regime.Ends.callStub_tearOffActivation {R : Regime} {env : Env} {n : Nat} (hs : R.Serves env)
    (hk : R.keeps n m) (hclosed : ∀ f, m.frame? = some f → f.activation = none → f.scopeDepth = 0)
    (words : List StubWord) :
    R.Ends n m (fun _ => R.keeps n) (callStub .tearOffActivation words env m) := by
  rw [callStub_eq]
  have hpushed {frame : StubFrame} : R.Ends n m (fun _ m' => R.keeps n m' ∧ m'.frame? = m.frame?)
      ((modify fun m => { m with stubFrames := m.stubFrames.push frame } : MachineM Unit) env m) :=
    change hs hk (Silently.beside rfl rfl rfl rfl rfl rfl rfl rfl) fun h => ⟨h, rfl⟩
  refine look (bind hpushed ?_)
  rintro _ m₁ - ⟨hk₁, hframe⟩
  have hmoves (f : StubFrame) : R.Ends n m₁ (fun _ => R.keeps n) (runRoutine f .tearOffActivation env m₁) := by
    refine bind (.tearOffActivation hs hk₁ (.inr fun k hk => hclosed k ?_)) fun _ _ _ h => ret h.1
    rw [← hframe, hk]
  refine bind (.attempt (hmoves _)) fun r m₂ _ hk₂ => ?_
  refine (Respects.bind .popStubFrame fun _ => ?_) env n m₂ hs hk₂
  cases r with
  | ok answer => exact .ret _
  | error u => exact .bind (.park u) fun _ => .ret _

/-- **Answers keep scope chains in order.** -/
theorem Lasting.answerHeeding (query : HostQuery) : Lasting Machine.Sheltered (answerHeeding query) := by
  intro env m he hm
  refine .look (.ite (fun _ => hm) fun hheeds => ?_)
  by_cases hquery : ∃ words, query = .stub .tearOffActivation words
  · obtain ⟨words, rfl⟩ := hquery
    have hs := Invariant.sheltered.serves he
    have hclosed (f : Frame) (hf : m.frame? = some f) (ha : f.activation = none) : f.scopeDepth = 0 := by
      by_contra hd
      exact hheeds (by simp [HostQuery.intrudes, hf, ha, hd])
    refine .bind (.callStub_tearOffActivation hs hm hclosed words) fun result m' _ hm' => ?_
    exact .ite (fun _ => (Regime.Respects.bind .takeStubUnwind fun _ => .ret _) env 0 m' hs hm') fun _ => .ret hm'
  · refine metered .sheltered (.answer (.inr fun words h => hquery ⟨words, h⟩) ?_) (Metered.answer_act query)
      env m he hm
    exact fun entry _ env n m hs hk => ⟨⟨.refl _, fun _ h => h⟩, hk.beside rfl rfl rfl rfl (Nat.le_refl _)⟩

/-- The scope chains of a fresh machine are in order: it has neither frames nor functions. -/
theorem Machine.sheltered_new {config : Config} (hm : Machine.new config = .ok m) : m.Sheltered := by
  obtain ⟨-, -, hframe⟩ := Machine.new_spec hm
  have hframes : m.frames = #[] := by rw [hframe]
  refine ⟨regular_new hm, registered_new hm, rooted_new hm, fun f hf => ?_, fun _ id data hd => ?_, fun _ f hf => ?_⟩
  · rw [hframes] at hf
    cases Array.mem_def.mp hf
  · obtain ⟨c, hc, hp⟩ := Heap.function?_eq_some.mp hd
    exact absurd hp ((inert_new hm hc).function data)
  · rw [hframes] at hf
    cases Array.mem_def.mp hf

/-- **Scope chains are in order**, between demands and in the middle of them, as long as no host asks for
variables to be moved inside a block scope, or gives up the global object. -/
theorem Machine.Undisturbed.sheltered (hm : m.Undisturbed) : m.Sheltered := by
  induction hm with
  | fresh hnew => exact sheltered_new hnew
  | demand demand pause fuel _ hkeeps hheeds ih =>
    rw [← hheeds]
    exact Invariant.sheltered.demand .answerHeeding ih demand (fun _ hd => ih.reroot hd hkeeps) pause fuel

/-- Any host can get at such a machine. -/
theorem Machine.Undisturbed.visited (hm : m.Undisturbed) : m.Visited := by
  induction hm with
  | fresh hnew => exact .fresh hnew
  | demand demand pause fuel _ _ _ ih => exact .demand demand pause fuel ih

end ScriptMachine
