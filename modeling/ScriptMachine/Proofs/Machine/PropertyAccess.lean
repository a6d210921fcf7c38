import ScriptMachine.Machine.Embedding
import ScriptMachine.Proofs.Machine.Access
import ScriptMachine.Proofs.Machine.Uncached

/-! # Property access is transparent

Allocating, raising and property access do the same with and without property caches: they return the
same, fail the same, and leave the same heap. A hit replays a valid entry, which is what a lookup or a
write would have done (`replayRead?_alike`, `replayedWrite?_same`); a miss only records an entry, and
a valid one. -/

namespace ScriptMachine

open Machine

namespace Agrees

variable {α : Type} {names : SiteNames} {env : Env} [env.Unwatched] {m : Machine}

/-- Nothing is promised of the result. -/
abbrev Any {α : Type} : α → Machine → Prop := fun _ _ => True

/-! ### Allocation -/

omit [env.Unwatched] in
theorem discardCollect (hs : m.Sound names) :
    Agrees names env m (discard collectGarbage) (discard collectGarbage) fun _ m' =>
      m' = m.collect.2 := by
  change Agrees names env m (collectGarbage >>= fun _ => pure ())
    (collectGarbage >>= fun _ => pure ()) _
  exact bind (collect hs) fun _ _ hs' _ hm' => ret hs' hm'

/-- Allocating with an empty shape of an intrinsic prototype. -/
theorem allocate (hs : m.Sound names) {shape : ShapeId} {payload : Payload} {hexact : payload.Exact}
    {kind : CellKind} {prototype : Value} (hk : payload.kind = kind)
    (hr : m.heap.shapes.roots[(kind, prototype)]? = some shape)
    (hp : prototype ∈ Value.null :: m.intrinsics.objects.map Value.cell) :
    Agrees names env m (allocate shape payload hexact) (allocate shape payload hexact) Any := by
  have hplace {m : Machine} (hs : m.Sound names)
      (hr : m.heap.shapes.roots[(kind, prototype)]? = some shape) :
      Agrees names env m
        (allocateCell shape payload) (allocateCell shape payload) Any := by
    subst hk
    refine bind (checkpoint hs _) ?_
    rintro _ m hs - rfl
    obtain ⟨hh, he⟩ := hs.heap.allocate hr
    refine bind (heapStep hs hh he) fun a m' hs' _ _ => ?_
    cases a with
    | ok id => exact ret hs' trivial
    | error failure => exact fail hs' failure
  unfold ScriptMachine.allocate
  refine bind (checkpoint hs _) ?_
  rintro _ m hs - rfl
  refine look (ite (fun _ => bind (discardCollect hs) fun _ m' hs' _ hm' => hplace hs' ?_)
    fun _ => hplace hs hr)
  rw [hm', heap_collect]
  exact hs.anchored.intrinsics.root_collect hs.heap _ _ hp hr

theorem newObject (hs : m.Sound names) :
    Agrees names env m newObject newObject Any := by
  unfold ScriptMachine.newObject
  have hroot := hs.anchored.intrinsics.shaped.object
  exact look (bind (allocate hs rfl hroot (by simp [Intrinsics.objects]))
    fun _ _ hs' _ _ => ret hs' trivial)

theorem newArray (hs : m.Sound names) (elements : Elements) :
    Agrees names env m (newArray elements) (newArray elements) Any := by
  unfold ScriptMachine.newArray
  have hroot := hs.anchored.intrinsics.shaped.array
  exact look (bind (allocate hs rfl hroot (by simp [Intrinsics.objects]))
    fun _ _ hs' _ _ => ret hs' trivial)

theorem newString (hs : m.Sound names) (text : String) :
    Agrees names env m (newString text) (newString text) Any := by
  unfold ScriptMachine.newString
  have hroot := hs.anchored.intrinsics.shaped.string
  exact look (bind (allocate hs rfl hroot (by simp)) fun _ _ hs' _ _ => ret hs' trivial)

/-! ### Operations of the heap, and their faults -/

omit [env.Unwatched] in
theorem tryHeap (hs : m.Sound names) {x : HeapM α}
    (hx : (leaves (x m.heap)).Coherent ∧ m.heap.Evolves (leaves (x m.heap))) :
    Agrees names env m (tryHeap x) (tryHeap x) (Ran x m.heap) := by
  obtain ⟨hh, he⟩ := hx
  have heq := tryHeap_eq x env m
  have heq' := tryHeap_eq x env m.uncached
  rw [heap_uncached] at heq'
  cases hr : x m.heap with
  | ok a h =>
    rw [hr] at heq heq' hh he
    refine ⟨by rw [heq]; exact hs.withHeap hh he, by rw [heq]; exact he.atoms, fun b m' h' => ?_,
      fun _ => by rw [heq, heq']; rfl⟩
    obtain ⟨rfl, rfl⟩ := EStateM.Result.ok.inj (heq.symm.trans h')
    exact hr
  | error fault h =>
    rw [hr] at heq heq' hh he
    refine ⟨by rw [heq]; exact hs.withHeap hh he, by rw [heq]; exact he.atoms, fun b m' h' => ?_,
      fun _ => by rw [heq, heq']; rfl⟩
    obtain ⟨rfl, rfl⟩ := EStateM.Result.ok.inj (heq.symm.trans h')
    exact hr

omit [env.Unwatched] in
theorem notifyAt (hs : m.Sound names) (kind : EventKind) (exception : Option Value)
    (line : Option UInt32) :
    Agrees names env m (notifyAt kind exception line) (notifyAt kind exception line) Any := by
  unfold ScriptMachine.notifyAt
  refine look (ite (fun h => ?_) fun _ => ret hs trivial)
  rw [hs.quiet] at h
  cases h

omit [env.Unwatched] in
theorem raise (hs : m.Sound names) (value : Value) {Q : α → Machine → Prop} :
    Agrees names env m (raise value) (raise value) Q := by
  unfold ScriptMachine.raise
  have hprotect : Heap.Change (fun _ => True) m.heap (m.heap.pushTemporary value) :=
    .protect trivial
  obtain ⟨hh, he⟩ := hprotect.coherent hs.heap
  refine bind (update (Q := Any) (hs.evolves hh he rfl rfl rfl rfl) he.atoms ?_ trivial)
    fun _ _ hs' _ _ => bind (notifyAt hs' _ _ _) fun _ _ hs'' _ _ => stop hs'' _
  simp only [captureTrace_uncached]
  rfl

theorem newError (hs : m.Sound names) (kind : ErrorKind) (message : String) :
    Agrees names env m (newError kind message) (newError kind message) Any := by
  unfold ScriptMachine.newError
  have hstorable : Storable fun _ => True := ⟨trivial, trivial⟩
  obtain ⟨hh, he⟩ := hs.heap.root .object (.cell (m.intrinsics.errorPrototype kind))
  refine look (bind (heapStep hs hh he) ?_)
  rintro shape m₁ hs₁ - ⟨rfl, rfl⟩
  have hroot := (ShapeTable.root_spec hs.heap.shapes .object
    (.cell (m.intrinsics.errorPrototype kind))).2
  refine bind (allocate hs₁ rfl hroot ?_) fun object m₂ hs₂ _ _ => bind (newString hs₂ message)
    fun text _ hs₃ _ _ => bind (checkpoint hs₃ _) fun _ m₃ hs₃ _ _ =>
      look (bind (tryHeap hs₃ ((Heap.defineProperty_changes hstorable trivial
        hs₃.heap object hs₃.anchored.names.message _).coherent hs₃.heap)) fun result m₄ hs₄ _ _ => ?_)
  · exact List.mem_cons_of_mem _ (List.mem_map_of_mem (hs.anchored.intrinsics.errors kind))
  · cases result with
    | ok _ => exact ret hs₄ trivial
    | error _ => exact fail hs₄ _

theorem raiseError (hs : m.Sound names) (kind : ErrorKind) (message : String)
    {Q : α → Machine → Prop} :
    Agrees names env m (raiseError kind message) (raiseError kind message) Q :=
  bind (newError hs kind message) fun value _ hs' _ _ => raise hs' value

theorem propertyFault (hs : m.Sound names) (fault : PropertyFault) {Q : α → Machine → Prop} :
    Agrees names env m (propertyFault fault) (propertyFault fault) Q := by
  cases fault with
  | staleHandle => exact fail hs _
  | outOfMemory => exact look (fail hs _)
  | invalidArrayLength => exact raiseError hs _ _
  | prototypeCycle | prototypeChainTooLong | invalidPrototype => exact raiseError hs _ _

theorem runHeap (hs : m.Sound names) {x : HeapM α}
    (hx : (leaves (x m.heap)).Coherent ∧ m.heap.Evolves (leaves (x m.heap))) :
    Agrees names env m (runHeap x) (runHeap x) fun a m' => x m.heap = .ok a m'.heap := by
  refine bind (tryHeap hs hx) fun result m' hs' _ hr => ?_
  cases result with
  | ok a => exact ret hs' hr
  | error fault => exact propertyFault hs' fault

/-- A write that is tried again after a collection. -/
theorem heapWrite (hs : m.Sound names) (held : List Value) {x : HeapM α}
    (hx : ∀ h : Heap, h.Coherent → h.atoms.Extends m.heap.atoms →
      Heap.Changes (fun _ => True) h (leaves (x h))) :
    Agrees names env m (heapWrite held x) (heapWrite held x) fun a m' =>
      ∃ h : Heap, h.Coherent ∧ h.atoms.Extends m.heap.atoms ∧ x h = .ok a m'.heap := by
  unfold ScriptMachine.heapWrite
  refine bind (checkpoint hs _) ?_
  rintro _ m hs - rfl
  refine bind (tryHeap hs ((hx m.heap hs.heap (.refl _)).coherent hs.heap)) fun result m₁ hs₁ hext hr => ?_
  cases result with
  | ok a => exact ret hs₁ ⟨m.heap, hs.heap, .refl _, hr⟩
  | error fault =>
    cases fault with
    | outOfMemory =>
      refine bind (discardCollect hs₁) fun _ _ hs₂ hext' _ => bind (checkpoint hs₂ _) ?_
      rintro _ m₂ hs₂ - rfl
      exact (runHeap hs₂ ((hx m₂.heap hs₂.heap (hext'.trans hext)).coherent hs₂.heap)).mono
        fun a m' h => ⟨m₂.heap, hs₂.heap, hext'.trans hext, h⟩
    | staleHandle | invalidArrayLength | prototypeCycle | prototypeChainTooLong
    | invalidPrototype => exact propertyFault hs₁ _

omit [env.Unwatched] in
theorem intern (hs : m.Sound names) (name : String) :
    Agrees names env m (intern name) (intern name) fun atom m' =>
      m'.heap.atoms.Knows atom ∧ m'.heap.atoms.get? name = some atom := by
  obtain ⟨hh, he⟩ := hs.heap.intern name
  refine (heapStep hs hh he).mono ?_
  rintro atom m' ⟨rfl, rfl⟩
  exact ⟨AtomTable.knows_intern hs.heap.atoms name, (AtomTable.intern_spec hs.heap.atoms name).2.2⟩

/-! ### Reading -/

/-- The site is used with the name. -/
def SiteFor (names : SiteNames) (m : Machine) (site : Site) (name : Atom) : Prop :=
  ∀ code index, site = some (code, index) →
    m.heap.atoms.get? (names code index.toNat) = some name

/-- Two outcomes of a lookup that no operation tells apart. -/
def Alike (l l' : PropertyLookup) : Prop := l.value = l'.value ∧ (l = .missing ↔ l' = .missing)

omit [env.Unwatched] in
/-- **Replaying a valid entry** gives what a lookup finds, which ends. -/
theorem replayRead?_alike (hc : m.heap.Coherent) (hfit : m.heap.atoms.Fits) {id : Handle} {name : Atom}
    {c : Cell} {value : Value} (hcell : m.heap.cell? id = some c) {e : PropertyEntry}
    (hguard : c.shape = e.guardShape) (hv : e.Valid m.heap name)
    (hr : m.replayRead? id (some e) = some value) :
    ∃ l, m.heap.lookupProperty? id name = some l ∧ Alike (.synthesized value) l := by
  cases e with
  | getOwn shape offset =>
    obtain rfl : c.shape = shape := hguard
    obtain ⟨attributes, hl⟩ := Heap.lookupProperty?_own hc hcell hv
    rw [← Option.some.inj hr]
    exact ⟨_, hl, rfl, by simp⟩
  | getPrototype shape holder holderShape offset =>
    obtain rfl : c.shape = shape := hguard
    simp only [replayRead?] at hr
    split at hr
    case isFalse => cases hr
    case isTrue hholder =>
      rw [← Option.some.inj hr]
      exact ⟨_, Heap.lookupProperty?_prototype hc hfit hcell hv hholder, rfl, by simp⟩
  | replace _ _ => cases hr
  | transition _ _ _ => cases hr

theorem afterRead_sound (hs : m.Sound names) {id : Handle} {name : Atom} {site : Site}
    (hk : m.heap.atoms.Knows name) (hsite : SiteFor names m site name) :
    (afterRead m id name site).Sound names ∧
      (afterRead m id name site).heap = m.heap ∧
      (afterRead m id name site).uncached = m.uncached := by
  unfold afterRead
  split
  case h_1 e _ he =>
    have hv := recorded?_valid hs.heap he
    exact ⟨hs.cacheProperty hv hk hsite, heap_cacheProperty _ _ _, uncached_cacheProperty _ _ _⟩
  case h_2 => exact ⟨hs, rfl, rfl⟩

/-- What a lookup through a site found is what the lookup finds, as long as no two names have one atom. -/
theorem found?_alike (hs : m.Sound names) (hfit : m.heap.atoms.Fits) {id : Handle} {name : Atom}
    {site : Site} (hsite : SiteFor names m site name) {l : PropertyLookup}
    (hl : m.found? id name site = some l) :
    ∃ l', m.heap.lookupProperty? id name = some l' ∧ Alike l l' := by
  unfold found? at hl
  cases hr : m.replayed? id site with
  | none =>
    rw [hr] at hl
    exact ⟨l, hl, rfl, Iff.rfl⟩
  | some value =>
    rw [hr] at hl
    rw [← Option.some.inj hl]
    cases hcell : m.heap.cell? id with
    | none =>
      simp only [replayed?, Heap.shapeOf?, hcell, Option.map_none] at hr
      cases hr
    | some c =>
      simp only [replayed?, Heap.shapeOf?, hcell, Option.map_some] at hr
      cases he : m.cachedProperty? site c.shape with
      | none =>
        rw [he] at hr
        cases hr
      | some e =>
        obtain ⟨code, index, rfl, hguard, name', hname, -, hv⟩ := hs.caches.cached he
        obtain rfl : name' = name := Option.some.inj (hname.symm.trans (hsite code index rfl))
        exact replayRead?_alike hs.heap hfit hcell hguard hv (he ▸ hr)

/-- Without caches a read of a cell is a lookup. -/
theorem readCell_uncached (id : Handle) (name : Atom) (site : Site) (env : Env) :
    ScriptMachine.readCell id name site env m.uncached =
      match m.heap.lookupProperty? id name with
      | some lookup => .ok lookup m.uncached
      | none => .error .exhausted m.uncached := by
  have hnone : m.uncached.replayed? id site = none := by
    simp only [replayed?, cachedProperty?_uncached, replayRead?]
    cases m.uncached.heap.shapeOf? id <;> rfl
  have hafter : m.uncached.afterRead id name site = m.uncached := by
    simp only [afterRead, cacheProperty_uncached]
    split <;> rfl
  have hfound : m.uncached.found? id name site = m.heap.lookupProperty? id name := by
    rw [found?, hnone, heap_uncached]
  cases hlookup : m.heap.lookupProperty? id name <;> simp [readCell_eq, hafter, hfound, hlookup]

omit [env.Unwatched] in
/-- **A read through a site is transparent**, if what follows does not tell a replayed value from one
that was looked up. -/
theorem readCell (hs : m.Sound names) {id : Handle} {name : Atom} {site : Site}
    (hk : m.heap.atoms.Knows name) (hsite : SiteFor names m site name)
    {f : PropertyLookup → MachineM α} {Q : α → Machine → Prop}
    (hf : ∀ l l', Alike l l' → f l = f l')
    (hnext : ∀ l m', m'.Sound names → m'.heap = m.heap → Agrees names env m' (f l) (f l) Q) :
    Agrees names env m (readCell id name site >>= f) (readCell id name site >>= f) Q := by
  obtain ⟨hs', hheap, hun⟩ := @afterRead_sound names m hs id name site hk hsite
  have hplain := readCell_uncached (m := m) id name site env
  cases hfound : m.found? id name site with
  | none =>
    -- neither lookup ends: only a miss can go on without end, and it looks up what the other does
    have heq := readCell_eq id name site env m
    rw [hfound] at heq
    rw [lookupProperty?_of_found? hfound] at hplain
    have hhalted : Agrees names env m (ScriptMachine.readCell id name site)
        (ScriptMachine.readCell id name site) fun _ _ => False := halted hs heq hplain
    exact bind hhalted fun _ _ _ _ h => h.elim
  | some lookup =>
    have heq : (ScriptMachine.readCell id name site >>= f) env m =
        f lookup env (afterRead m id name site) := by
      simp only [Bind.bind, ReaderT.bind, EStateM.bind, readCell_eq, hfound]
    have hgo := hnext lookup _ hs' hheap
    refine ⟨by rw [heq]; exact hgo.sound, by rw [heq, ← hheap]; exact hgo.atoms,
      by rw [heq]; exact hgo.post, fun hfit => ?_⟩
    rw [heq] at hfit
    have hfit' : m.heap.atoms.Fits := by
      rw [← hheap]
      exact hgo.atoms.fits hfit
    obtain ⟨l, hl, halike⟩ := found?_alike hs hfit' hsite hfound
    rw [hl] at hplain
    have heq' : (ScriptMachine.readCell id name site >>= f) env m.uncached = f l env m.uncached := by
      simp only [Bind.bind, ReaderT.bind, EStateM.bind, hplain]
    rw [heq, heq', ← hf _ _ halike, ← hun]
    exact hgo.same hfit

theorem getById (hs : m.Sound names) (base : Value) {name : Atom} {site : Site}
    (hk : m.heap.atoms.Knows name) (hsite : SiteFor names m site name) :
    Agrees names env m (getById base name site) (getById base name site) Any := by
  unfold ScriptMachine.getById
  refine look ?_
  simp only [liveCell?_uncached, atomName_uncached, display_uncached]
  cases m.liveCell? base with
  | some id =>
    exact readCell hs hk hsite (fun _ _ h => by rw [h.1]) fun _ _ hs' _ => ret hs' trivial
  | none => exact ite (fun _ => raiseError hs _ _) fun _ => ret hs trivial

theorem getGlobalById (hs : m.Sound names) {name : Atom} {site : Site}
    (hk : m.heap.atoms.Knows name) (hsite : SiteFor names m site name) :
    Agrees names env m (getGlobalById name site) (getGlobalById name site) Any := by
  unfold ScriptMachine.getGlobalById
  refine look (readCell hs hk hsite (fun l l' h => ?_) fun l m' hs' _ => ?_)
  · by_cases hl : l = .missing
    · rw [hl, h.2.mp hl]
    · have hl' := fun h' => hl (h.2.mpr h')
      cases l <;> cases l' <;> first | contradiction | exact congrArg (fun v => (pure v : MachineM Value)) h.1
  · cases l with
    | missing =>
      refine look ?_
      simp only [atomName_uncached]
      exact raiseError hs' _ _
    | own _ _ _ _ | prototype _ _ _ _ _ | synthesized _ => exact ret hs' trivial

/-! ### Writing -/

/-- **A replayed write** does what a write does. -/
theorem replayedWrite?_same (hs : m.Sound names) {id : Handle} {name : Atom} {site : Site}
    (hsite : SiteFor names m site name) {shape : ShapeId} {offset : Nat} (value : Value)
    (hr : replayedWrite? m id site = some (shape, offset)) :
    ∃ outcome, outcome ≠ .readOnly ∧ Heap.setProperty id name value m.heap =
      .ok outcome (m.heap.writeSlot id shape offset value) := by
  obtain ⟨code, index, name', rfl, hname, -, hwrite⟩ := hs.caches.replayedWrite? hs.heap hr
  obtain rfl : name' = name := Option.some.inj (hname.symm.trans (hsite code index rfl))
  exact hwrite value

theorem refuseWrite (hs : m.Sound names) (name : Atom) :
    Agrees names env m (refuseWrite name) (refuseWrite name) Any := by
  unfold ScriptMachine.refuseWrite
  refine look ?_
  simp only [policy_uncached, atomName_uncached]
  cases m.config.readOnlyPolicy with
  | ignore => exact ret hs trivial
  | throw => exact raiseError hs _ _

theorem recordWrite_agrees (hs : m.Sound names) {id : Handle} {name : Atom} {site : Site}
    {outcome : PutOutcome} (hsite : SiteFor names m site name) (hk : m.heap.atoms.Knows name)
    (hv : ∀ e, m.isElementBacked id name = false → m.cacheableWrite? outcome = some e →
      e.Valid m.heap name) :
    Agrees names env m (recordWrite id name site outcome) (recordWrite id name site outcome) Any := by
  unfold recordWrite
  refine ite (fun _ => refuseWrite hs name) fun _ => look ?_
  have hsame : m.uncached.cacheableWrite? outcome = m.cacheableWrite? outcome := rfl
  simp only [isElementBacked_uncached, hsame]
  refine ite (fun hb => ?_) fun _ => ret hs trivial
  cases he : m.cacheableWrite? outcome with
  | none => exact ret hs trivial
  | some e =>
    refine update (hs.cacheProperty (hv e (by simpa using hb) he) hk hsite) ?_ ?_ trivial
    · rw [heap_cacheProperty]
      exact .refl _
    · rw [uncached_cacheProperty]
      rfl

omit [env.Unwatched] in
/-- A write that was not replayed is recorded to no effect without caches. -/
theorem recordWrite_uncached {id : Handle} {name : Atom} {site : Site} {outcome : PutOutcome}
    (ho : outcome ≠ .readOnly) :
    recordWrite id name site outcome env m.uncached = .ok () m.uncached := by
  have heq : recordWrite id name site outcome env m.uncached =
      cacheWrite m.uncached id name site outcome env m.uncached := by
    unfold recordWrite
    rw [if_neg ho]
    rfl
  rw [heq]
  unfold cacheWrite
  cases !m.uncached.isElementBacked id name with
  | false => rfl
  | true =>
    simp only [if_true]
    cases m.uncached.cacheableWrite? outcome <;> rfl

theorem putById (hs : m.Sound names) (base value : Value) {name : Atom} {site : Site}
    (hk : m.heap.atoms.Knows name) (hsite : SiteFor names m site name) :
    Agrees names env m (putById base name value site) (putById base name value site) Any := by
  have hstorable : Storable fun _ => True := ⟨trivial, trivial⟩
  unfold ScriptMachine.putById
  refine look ?_
  simp only [liveCell?_uncached, atomName_uncached, display_uncached]
  cases m.liveCell? base with
  | none => exact ite (fun _ => raiseError hs _ _) fun _ => ret hs trivial
  | some id =>
    have hnone : replayedWrite? m.uncached id site = none := by
      simp only [replayedWrite?, cachedProperty?_uncached, replayWrite?]
      cases m.uncached.heap.shapeOf? id <;> rfl
    have hslow : Agrees names env m
        (ScriptMachine.heapWrite [.cell id, value] (Heap.setProperty id name value) >>= recordWrite id name site)
        (ScriptMachine.heapWrite [.cell id, value] (Heap.setProperty id name value) >>= recordWrite id name site)
        Any := by
      refine bind (heapWrite hs _ fun h hh hext =>
        Heap.setProperty_changes hstorable trivial hh id (hext.knows hk)) ?_
      rintro outcome m' hs' hext ⟨h, hh, hext', hw⟩
      refine recordWrite_agrees hs' (fun code index h => ?_) (hext.knows hk) fun e hb he =>
        cacheableWrite?_valid hh (hext'.knows hk) hw hb he
      exact hext.get? hs.heap.atoms hs'.heap.atoms (hsite code index h)
    change Agrees names env m (putCell m id name value site) (putCell m.uncached id name value site)
      Any
    unfold putCell
    rw [hnone]
    cases hr : replayedWrite? m id site with
    | none => exact hslow
    | some entry =>
      obtain ⟨shape, offset⟩ := entry
      obtain ⟨outcome, ho, hw⟩ := replayedWrite?_same hs hsite value hr
      have hchanges : Heap.Changes (fun _ => True) m.heap
          (leaves (Heap.setProperty id name value m.heap)) :=
        Heap.setProperty_changes hstorable trivial hs.heap id hk
      rw [hw] at hchanges
      obtain ⟨hh, he⟩ := hchanges.coherent hs.heap
      have hfast := @heapUpdate names env m (·.writeSlot id shape offset value) hs hh he
      refine ⟨hfast.sound, hfast.atoms, fun _ _ _ => trivial, fun _ => ?_⟩
      have htry := tryHeap_eq (Heap.setProperty id name value) env m.uncached
      rw [heap_uncached, hw] at htry
      have hwrite : ScriptMachine.heapWrite [.cell id, value] (Heap.setProperty id name value) env m.uncached =
          .ok outcome { m with heap := m.heap.writeSlot id shape offset value }.uncached := by
        simp only [ScriptMachine.heapWrite, Bind.bind, ReaderT.bind, EStateM.bind, checkpoint_unwatched,
          htry]
        rfl
      simp only [Bind.bind, ReaderT.bind, EStateM.bind, hwrite]
      exact recordWrite_uncached ho

theorem putGlobalById (hs : m.Sound names) (value : Value) {name : Atom} {site : Site}
    (hk : m.heap.atoms.Knows name) (hsite : SiteFor names m site name) :
    Agrees names env m (putGlobalById name value site) (putGlobalById name value site) Any :=
  look (putById hs _ value hk hsite)

end Agrees

end ScriptMachine
