import ScriptMachine.Proofs.Safety.Call
import ScriptMachine.Proofs.Tandem.Writes

/-! # Machines of two runs

Two machines are twins (`Machine.Twins`) if a script cannot tell them apart: their heaps are twins under
a pairing of handles, their frames and registers hold matching values, and their code has the same
counts. Inline caches may differ, since a collection drops entries and one of the machines may have
caching turned off. All that is asked of them is that they are right: each machine's property caches for
the names at their sites (`Machine.SiteNamed`), and its call caches for the functions that are live
(`Machine.Recognizes`).

What one machine does on its own that scripts do not see, such as a collection, leaves it a twin of the
other (`Machine.Twins.sheds`). -/

namespace ScriptMachine

/-! ### Names at sites -/

/-- The property site of an instruction and the identifier that is looked up through it. -/
def Opcode.propertySite? : Opcode → Option (UInt32 × UInt32)
  | .getById _ _ name cache | .putById _ name _ cache | .getGlobal _ name cache
  | .putGlobal name _ cache | .callMethod _ _ name _ _ cache _ => some (cache, name)
  | _ => none

/-- An instruction looks the name up through the site. -/
def CodeEntry.Names (entry : CodeEntry) (index : Nat) (name : Atom) : Prop :=
  ∃ instruction ∈ entry.block.instructions, ∃ site identifier,
    instruction.opcode.propertySite? = some (site, identifier) ∧ site.toNat = index ∧
      entry.atoms[identifier.toNat]? = some name

/-- **Lawful code**: one name at each site, and tier code is the lowering of the block. -/
structure CodeEntry.Lawful (entry : CodeEntry) : Prop where
  single : ∀ index name name', entry.Names index name → entry.Names index name' → name = name'
  lowered : ∀ l, entry.compiled = some l → entry.lower = .ok l

/-- The code looks the name up through the site. -/
def Machine.SiteNamed (m : Machine) (code : CodeId) (index : Nat) (name : Atom) : Prop :=
  ∃ entry, m.code? code = some entry ∧ entry.Names index name

/-- The site, if any, is used with the name. -/
def Machine.SiteFor (m : Machine) (site : Site) (name : Atom) : Prop :=
  ∀ code index, site = some (code, index) → m.SiteNamed code index.toNat name

/-! ### Functions at call sites -/

/-- **What a call site may remember**: a handle that was issued, and the target of the function that it
names, as long as it names a cell. -/
structure Heap.Recognizes (h : Heap) (ids : List Handle) (callee : Handle) (target : CallTarget) :
    Prop where
  issued : callee ∈ ids
  target : ∀ c, h.cell? callee = some c → ∃ d, c.payload = .function d ∧ d.target = target

/-- **Call sites are right** about the functions of handles that were issued. -/
def Machine.Recognizes (m : Machine) (ids : List Handle) : Prop :=
  ∀ entry ∈ m.codes, ∀ cache ∈ entry.caches.calls, ∀ callee target,
    (callee, target) ∈ cache.entries → m.heap.Recognizes ids callee target

/-- What the handle names was there before, as the same function if it was one. -/
def Heap.SameFunction (h k : Heap) (id : Handle) : Prop :=
  ∀ c', k.cell? id = some c' → ∃ c, h.cell? id = some c ∧
    ∀ d, c.payload = .function d → c'.payload = .function d

/-- **The functions of a heap stay**, and no handle begins to name a cell. -/
def Heap.SameFunctions (h k : Heap) : Prop := ∀ id, h.SameFunction k id

namespace Heap

variable {ids ids' : List Handle} {h k : Heap} {callee : Handle} {target : CallTarget}

theorem Recognizes.transfer (hr : h.Recognizes ids callee target) (hk : h.SameFunction k callee)
    (hsub : ids ⊆ ids') : k.Recognizes ids' callee target := by
  refine ⟨hsub hr.issued, fun c' hc' => ?_⟩
  obtain ⟨c, hc, hsame⟩ := hk c' hc'
  obtain ⟨d, hd, htarget⟩ := hr.target c hc
  exact ⟨d, hsame d hd, htarget⟩

theorem SameFunctions.refl (h : Heap) : h.SameFunctions h := fun _ c hc => ⟨c, hc, fun _ hd => hd⟩

/-- What is not about slots does not matter. -/
theorem SameFunctions.of_slots (hs : k.slots = h.slots) : h.SameFunctions k := by
  intro id c hc
  rw [cell?_congr hs] at hc
  exact ⟨c, hc, fun _ hd => hd⟩

/-- Operations on properties leave functions as they are. -/
theorem Retains.sameFunctions (hr : h.Retains k) : h.SameFunctions k := by
  intro id c' hc'
  obtain ⟨c, hc, hf⟩ := hr.cell? hc'
  refine ⟨c, hc, fun d hd => ?_⟩
  rw [← Cell.fixture_eq_function] at hd ⊢
  rw [hf, hd]

/-- Neither does a write to a variable of a scope record. -/
theorem SameFunctions.mapScope (h : Heap) (id : Handle) (f : ScopeRecord → ScopeRecord) :
    h.SameFunctions (h.modifyCell id (Cell.mapScope f)) := by
  intro other c' hc'
  rw [cell?_modifyCell] at hc'
  split at hc'
  case isFalse => exact ⟨c', hc', fun _ hd => hd⟩
  case isTrue heq =>
    obtain ⟨c, hc, rfl⟩ := Option.map_eq_some_iff.mp hc'
    rw [heq]
    refine ⟨c, hc, fun d hd => ?_⟩
    obtain ⟨shape, slots, capacity, payload⟩ := c
    cases hd
    rfl

end Heap

namespace Machine

variable {m k : Machine} {ids ids' : List Handle} {callee : Handle} {target : CallTarget}

/-- What a lookup in the heap finds may be remembered. -/
theorem recognizes_function {d : FunctionData} (hid : callee ∈ ids)
    (hd : m.functionData? (.cell callee) = some d) : m.heap.Recognizes ids callee d.target := by
  obtain ⟨c, hc, hp⟩ := functionData?_eq_some hd
  refine ⟨hid, fun c' hc' => ⟨d, ?_, rfl⟩⟩
  obtain rfl := Option.some.inj (hc.symm.trans hc')
  exact hp

theorem mem_modifyCode {code : CodeId} {g : CodeEntry → CodeEntry} {entry : CodeEntry}
    (h : entry ∈ (m.modifyCode code g).codes) : entry ∈ m.codes ∨ ∃ old ∈ m.codes, entry = g old := by
  unfold Machine.modifyCode at h
  exact (mem_modify h).imp_right fun ⟨old, hold, heq⟩ => ⟨old, Array.mem_of_getElem? hold, heq⟩

/-- What call sites remember stays right while functions stay. -/
theorem Recognizes.transfer (hr : m.Recognizes ids)
    (hcodes : ∀ entry ∈ k.codes, ∃ old ∈ m.codes, entry.caches.calls = old.caches.calls)
    (hk : ∀ id ∈ ids, m.heap.SameFunction k.heap id) (hsub : ids ⊆ ids') : k.Recognizes ids' := by
  intro entry hentry cache hcache callee target hmem
  obtain ⟨old, hold, heq⟩ := hcodes entry hentry
  rw [heq] at hcache
  have hold := hr old hold cache hcache callee target hmem
  exact hold.transfer (hk callee hold.issued) hsub

/-- Other parts of the machine do not matter. -/
theorem Recognizes.rest (hr : m.Recognizes ids) (hcodes : k.codes = m.codes)
    (hk : ∀ id ∈ ids, m.heap.SameFunction k.heap id) (hsub : ids ⊆ ids') : k.Recognizes ids' :=
  hr.transfer (fun entry hentry => ⟨entry, hcodes ▸ hentry, rfl⟩) hk hsub

/-- **A call site is right about a live callee.** -/
theorem Recognizes.cachedTarget? (hr : m.Recognizes ids) {site : Site}
    (hlive : m.heap.isLive callee = true) (hc : m.cachedTarget? site callee = some target) :
    ∃ d, m.functionData? (.cell callee) = some d ∧ d.target = target := by
  obtain ⟨c, hcell⟩ := Heap.isLive_iff.mp hlive
  have hentry : m.heap.Recognizes ids callee target := by
    unfold Machine.cachedTarget? at hc
    split at hc
    case isTrue => cases hc
    case isFalse =>
      split at hc
      case h_1 => cases hc
      case h_2 code index =>
        cases hcode : m.code? code with
        | none =>
          rw [hcode] at hc
          cases hc
        | some entry =>
          rw [hcode] at hc
          dsimp only at hc
          cases hcache : entry.caches.calls[index.toNat]? with
          | none =>
            rw [hcache] at hc
            cases hc
          | some cache =>
            rw [hcache] at hc
            exact hr entry (Array.mem_of_getElem? hcode) cache (Array.mem_of_getElem? hcache) callee target
              (InlineCache.mem_of_lookup? hc)
  obtain ⟨d, hd, htarget⟩ := hentry.target c hcell
  refine ⟨d, ?_, htarget⟩
  unfold functionData? Heap.cellOf?
  rw [Value.cell?_cell]
  simp only [hcell, Cell.function?, hd]

/-- What a call site remembers of a callee that was looked up is right. -/
theorem Recognizes.cacheTarget (hr : m.Recognizes ids) (site : Site)
    (hk : m.heap.Recognizes ids callee target) : (m.cacheTarget site callee target).Recognizes ids := by
  unfold Machine.cacheTarget
  split
  case isTrue => exact hr
  case isFalse =>
    cases site with
    | none => exact hr
    | some site =>
      intro entry hentry cache hcache key target' hmem
      rcases mem_modifyCode hentry with hentry | ⟨old, hold, rfl⟩
      · exact hr entry hentry cache hcache key target' hmem
      · have hold := hr old hold
        dsimp only at hcache
        rcases mem_modify hcache with hcache | ⟨before, hbefore, rfl⟩
        · exact hold cache hcache key target' hmem
        · rcases InlineCache.mem_update hmem with hmem | ⟨rfl, rfl⟩
          · exact hold before (Array.mem_of_getElem? hbefore) key target' hmem
          · exact hk

end Machine

variable {ρ ρ' : Pairing}

/-! ### Code and frames -/

theorem CodeEntry.Lawful.congr {entry entry' : CodeEntry} (h : entry.Lawful)
    (hb : entry'.block = entry.block) (ha : entry'.atoms = entry.atoms)
    (hc : entry'.constants = entry.constants) (hl : entry'.compiled = entry.compiled) :
    entry'.Lawful := by
  obtain ⟨hsingle, hlowered⟩ := h
  refine ⟨fun index name name' => ?_, fun l => ?_⟩
  · unfold CodeEntry.Names at *
    rw [hb, ha]
    exact hsingle index name name'
  · unfold CodeEntry.lower CodeEntry.tables at *
    rw [hb, ha, hc, hl]
    exact hlowered l

/-- **Code of two runs.** -/
structure CodeEntry.Twins (ρ : Pairing) (entry entry' : CodeEntry) : Prop where
  same : { entry' with constants := entry.constants, caches := entry.caches } = entry
  constants : Aligned ρ.Matches entry.constants entry'.constants
  lawful : entry.Lawful
  lawful' : entry'.Lawful

namespace CodeEntry.Twins

variable {entry entry' : CodeEntry}

theorem mono (h : entry.Twins ρ entry') (hle : ρ ⊆ ρ') : entry.Twins ρ' entry' :=
  { h with constants := h.constants.mono fun _ _ h => h.mono hle }

/-- Caches do not matter. -/
theorem recache (h : entry.Twins ρ entry') {kept kept' : CodeEntry}
    (hk : { kept with caches := entry.caches } = entry)
    (hk' : { kept' with caches := entry'.caches } = entry') : kept.Twins ρ kept' := by
  have hlawful {e k : CodeEntry} (hk : { k with caches := e.caches } = e) (hlaw : e.Lawful) : k.Lawful :=
    hlaw.congr (congrArg CodeEntry.block hk :) (congrArg CodeEntry.atoms hk :)
      (congrArg CodeEntry.constants hk :) (congrArg CodeEntry.compiled hk :)
  refine ⟨?_, ?_, hlawful hk h.lawful, hlawful hk' h.lawful'⟩
  · have hsame := h.same
    rw [← hk, ← hk'] at hsame
    exact (congrArg (fun e : CodeEntry => { e with caches := kept.caches }) hsame :)
  · have hconst := h.constants
    rw [← hk, ← hk'] at hconst
    exact hconst

theorem block (h : entry.Twins ρ entry') : entry'.block = entry.block := (congrArg CodeEntry.block h.same :)

theorem atoms (h : entry.Twins ρ entry') : entry'.atoms = entry.atoms := (congrArg CodeEntry.atoms h.same :)

theorem functions (h : entry.Twins ρ entry') : entry'.functions = entry.functions :=
  (congrArg CodeEntry.functions h.same :)

theorem variableNames (h : entry.Twins ρ entry') : entry'.variableNames = entry.variableNames :=
  (congrArg CodeEntry.variableNames h.same :)

theorem scopeLayouts (h : entry.Twins ρ entry') : entry'.scopeLayouts = entry.scopeLayouts :=
  (congrArg CodeEntry.scopeLayouts h.same :)

end CodeEntry.Twins

/-- **Frames of two runs.** -/
structure Frame.Twins (ρ : Pairing) (f f' : Frame) : Prop where
  same : { f' with extraArgs := f.extraArgs, callee := f.callee, this := f.this, scope := f.scope
                   activation := f.activation } = f
  extraArgs : Aligned ρ.Matches f.extraArgs f'.extraArgs
  callee : ρ.Matches f.callee f'.callee
  this : ρ.Matches f.this f'.this
  scope : Option.Rel ρ.Pairs f.scope f'.scope
  activation : Option.Rel ρ.Pairs f.activation f'.activation

namespace Frame.Twins

variable {f f' : Frame}

theorem mono (h : f.Twins ρ f') (hle : ρ ⊆ ρ') : f.Twins ρ' f' :=
  ⟨h.same, h.extraArgs.mono fun _ _ h => h.mono hle, h.callee.mono hle, h.this.mono hle,
    h.scope.mono fun _ _ h => h.mono hle, h.activation.mono fun _ _ h => h.mono hle⟩

theorem code (h : f.Twins ρ f') : f'.code = f.code := (congrArg Frame.code h.same :)

theorem pc (h : f.Twins ρ f') : f'.pc = f.pc := (congrArg Frame.pc h.same :)

theorem base (h : f.Twins ρ f') : f'.base = f.base := (congrArg Frame.base h.same :)

theorem varCount (h : f.Twins ρ f') : f'.varCount = f.varCount := (congrArg Frame.varCount h.same :)

theorem argc (h : f.Twins ρ f') : f'.argc = f.argc := (congrArg Frame.argc h.same :)

theorem scopeDepth (h : f.Twins ρ f') : f'.scopeDepth = f.scopeDepth :=
  (congrArg Frame.scopeDepth h.same :)

theorem returnRegister (h : f.Twins ρ f') : f'.returnRegister = f.returnRegister :=
  (congrArg Frame.returnRegister h.same :)

theorem isConstruct (h : f.Twins ρ f') : f'.isConstruct = f.isConstruct :=
  (congrArg Frame.isConstruct h.same :)

end Frame.Twins

/-! ### Machines -/

/-- Nothing interrupts the machine, and no stub has raised anything that was not taken. -/
structure Machine.Uninterrupted (m : Machine) : Prop where
  interrupt : m.interruptRequested = false
  limit : m.watchdog.limit = none
  parked : m.stubUnwind = none

/-- **Machines of two runs.** -/
structure Machine.Twins (ρ : Pairing) (m m' : Machine) : Prop where
  safe : m.Safe
  safe' : m'.Safe
  recalled : m.Remembers m.SiteNamed
  recalled' : m'.Remembers m'.SiteNamed
  known : m.Recognizes (ρ.map Prod.fst)
  known' : m'.Recognizes (ρ.map Prod.snd)
  calm : m.Uninterrupted
  calm' : m'.Uninterrupted
  heap : m.heap.Twins ρ m'.heap
  config : { m'.config with gcThresholdBytes := m.config.gcThresholdBytes
                            inlineCaching := m.config.inlineCaching } = m.config
  codes : Aligned (CodeEntry.Twins ρ) m.codes m'.codes
  registers : Aligned ρ.Matches m.registers.registers m'.registers.registers
  capacity : m'.registers.capacity = m.registers.capacity
  frames : Aligned (Frame.Twins ρ) m.frames m'.frames
  pending : Option.Rel ρ.Matches m.pendingException m'.pendingException
  intrinsics : m'.intrinsics = m.intrinsics
  anchored : ∀ id ∈ m.intrinsics.objects, ρ.Pairs id id
  names : m'.names = m.names
  tier : m'.tier.isSome = m.tier.isSome

namespace Machine

variable {m m' k k' : Machine} {v w : Value} {h h' : Heap} {a b : Handle}

/-! ### Names stay at their sites -/

theorem SiteNamed.codes {code : CodeId} {index : Nat} {name : Atom} (hn : m.SiteNamed code index name)
    (hcodes : ∀ entry, m.code? code = some entry → ∃ entry', k.code? code = some entry' ∧
      entry'.block = entry.block ∧ entry'.atoms = entry.atoms) : k.SiteNamed code index name := by
  obtain ⟨entry, hentry, hnames⟩ := hn
  obtain ⟨entry', hentry', hblock, hatoms⟩ := hcodes entry hentry
  refine ⟨entry', hentry', ?_⟩
  unfold CodeEntry.Names at *
  rw [hblock, hatoms]
  exact hnames

theorem SiteNamed.of_codes {code : CodeId} {index : Nat} {name : Atom}
    (hn : m.SiteNamed code index name) (hcodes : k.codes = m.codes) : k.SiteNamed code index name :=
  hn.codes fun entry h => ⟨entry, by rwa [code?, hcodes], rfl, rfl⟩

theorem Remembers.mono {named named' : CodeId → Nat → Atom → Prop} (hr : m.Remembers named)
    (hn : ∀ code index name, named code index name → named' code index name) : m.Remembers named' := by
  intro code entry index cache key e hcode hcache hmem
  obtain ⟨hkey, name, hname, hrest⟩ := hr code entry index cache key e hcode hcache hmem
  exact ⟨hkey, name, hn _ _ _ hname, hrest⟩

/-- Other parts of the machine do not matter. -/
theorem Remembers.rest (hr : m.Remembers m.SiteNamed) (hcodes : k.codes = m.codes)
    (he : m.heap.Evolves k.heap) : k.Remembers k.SiteNamed :=
  hr.evolves hcodes he fun _ _ _ hn => hn.of_codes hcodes

/-- What code has besides names and property caches does not matter. -/
theorem Remembers.recode (hr : m.Remembers m.SiteNamed) {code : CodeId} {g : CodeEntry → CodeEntry}
    (hg : ∀ e, (g e).block = e.block ∧ (g e).atoms = e.atoms ∧
      (g e).caches.properties = e.caches.properties) :
    (m.modifyCode code g).Remembers (m.modifyCode code g).SiteNamed := by
  refine (hr.modifyCode fun e => (hg e).2.2).mono fun code' index name hn => hn.codes fun e he => ?_
  simp only [code?, Machine.modifyCode, Array.getElem?_modify] at he ⊢
  rw [he]
  split
  · exact ⟨g e, rfl, (hg e).1, (hg e).2.1⟩
  · exact ⟨e, rfl, rfl, rfl⟩

/-! ### What one machine does on its own -/

/-- **What scripts do not see**: cells are lost, and property caches change. -/
structure Sheds (m k : Machine) : Prop where
  heap : m.heap.Sheds k.heap
  atoms : k.heap.atoms = m.heap.atoms
  codes : Aligned (fun entry entry' => { entry' with caches :=
    { entry'.caches with properties := entry.caches.properties } } = entry) m.codes k.codes
  rest : k = { m with heap := k.heap, codes := k.codes, stubFrames := k.stubFrames
                      lastRaised := k.lastRaised, exceptionTrace := k.exceptionTrace }

theorem Sheds.refl (m : Machine) : m.Sheds m := ⟨.refl _, rfl, .refl fun _ _ => rfl, rfl⟩

/-- The same code. -/
theorem Sheds.beside {stubFrames : Array StubFrame} {lastRaised : Option Value}
    {exceptionTrace : List TraceEntry} (hh : m.heap.Sheds h) (ha : h.atoms = m.heap.atoms) :
    m.Sheds { m with heap := h, stubFrames, lastRaised, exceptionTrace } :=
  ⟨hh, ha, .refl fun _ _ => rfl, rfl⟩

theorem Sheds.collect (hs : m.Safe) : m.Sheds m.collect.2 := by
  obtain ⟨forget, hforget, heq⟩ := collect_frame m
  have hatoms : m.collect.2.heap.atoms = m.heap.atoms := by
    rw [heap_collect, Heap.collect_frame hs.heap.white]
  refine ⟨by rw [heap_collect]; exact .collect _ _ _, hatoms, ?_, ?_⟩
  · rw [heq]
    intro i
    rw [Array.getElem?_map]
    cases m.codes[i]? with
    | none => exact .none
    | some entry =>
      refine .some ?_
      rw [hforget entry]
  · rw [heq]

theorem Sheds.cacheProperty (m : Machine) (site : Site) (e : PropertyEntry) :
    m.Sheds (m.cacheProperty site e) := by
  unfold Machine.cacheProperty
  split
  · exact .refl m
  · split
    case h_1 => exact .refl m
    case h_2 code index =>
      refine ⟨.refl _, rfl, fun i => ?_, rfl⟩
      simp only [modifyCode, Array.getElem?_modify]
      cases m.codes[i]? with
      | none => split <;> exact .none
      | some entry => split <;> exact .some rfl

theorem Sheds.siteNamed (hl : m.Sheds k) {code : CodeId} {index : Nat} {name : Atom}
    (hn : m.SiteNamed code index name) : k.SiteNamed code index name := by
  refine hn.codes fun entry hentry => ?_
  obtain ⟨entry', hentry', heq⟩ := (hl.codes).exists_left hentry
  exact ⟨entry', hentry', (congrArg CodeEntry.block heq :), (congrArg CodeEntry.atoms heq :)⟩

/-- What call sites remember stays right. -/
theorem Sheds.recognizes (hl : m.Sheds k) (hf : m.heap.Fitted) {ids : List Handle}
    (hr : m.Recognizes ids) : k.Recognizes ids := by
  refine hr.transfer (fun entry hentry => ?_) (fun id _ c hc => ?_) (List.Subset.refl ids)
  · obtain ⟨i, hi⟩ := Array.mem_iff_getElem?.mp hentry
    obtain ⟨old, hold, heq⟩ := hl.codes.swap.exists_left hi
    exact ⟨old, Array.mem_of_getElem? hold, (congrArg (fun e => e.caches.calls) heq :)⟩
  · exact ⟨c, (hl.heap.cells id c hf hc).1, fun _ hd => hd⟩

theorem Remembers.temporaries {named : CodeId → Nat → Atom → Prop} (hr : m.Remembers named)
    (temporaries : Array Value) : Remembers { m with heap := { m.heap with temporaries } } named := by
  intro code entry index cache key e hcode hcache hmem
  obtain ⟨hkey, name, hname, hk, hv⟩ := hr code entry index cache key e hcode hcache hmem
  exact ⟨hkey, name, hname, hk, hv.transfer (fun _ _ h => ⟨h, rfl⟩) (fun _ _ _ _ h => h)
    (fun _ h => ⟨h.element, h.length⟩) fun _ h => h⟩

namespace Twins

/-! ### Changes -/

/-- **What either machine does on its own.** -/
theorem sheds (ht : m.Twins ρ m') (hl : m.Sheds k) (hl' : m'.Sheds k') (hs : k.Safe) (hs' : k'.Safe)
    (hr : k.Remembers m.SiteNamed) (hr' : k'.Remembers m'.SiteNamed) : k.Twins ρ k' where
  safe := hs
  safe' := hs'
  recalled := hr.mono fun _ _ _ => hl.siteNamed
  recalled' := hr'.mono fun _ _ _ => hl'.siteNamed
  known := hl.recognizes ht.heap.fitted ht.known
  known' := hl'.recognizes ht.heap.fitted' ht.known'
  calm := by
    rw [hl.rest]
    exact ⟨ht.calm.interrupt, ht.calm.limit, ht.calm.parked⟩
  calm' := by
    rw [hl'.rest]
    exact ⟨ht.calm'.interrupt, ht.calm'.limit, ht.calm'.parked⟩
  heap := ht.heap.sheds hl.heap hl'.heap (by rw [hl.atoms, hl'.atoms, ht.heap.atoms])
  config := by
    rw [hl.rest, hl'.rest]
    exact ht.config
  codes := by
    have hcaches {entry kept : CodeEntry} (h : { kept with caches :=
        { kept.caches with properties := entry.caches.properties } } = entry) :
        { kept with caches := entry.caches } = entry :=
      (congrArg (fun e : CodeEntry => { e with caches := entry.caches }) h :)
    exact ht.codes.transport hl.codes hl'.codes fun _ _ _ _ he hk hk' =>
      he.recache (hcaches hk) (hcaches hk')
  registers := by
    rw [hl.rest, hl'.rest]
    exact ht.registers
  capacity := by
    rw [hl.rest, hl'.rest]
    exact ht.capacity
  frames := by
    rw [hl.rest, hl'.rest]
    exact ht.frames
  pending := by
    rw [hl.rest, hl'.rest]
    exact ht.pending
  intrinsics := by
    rw [hl.rest, hl'.rest]
    exact ht.intrinsics
  anchored := by
    rw [hl.rest]
    exact ht.anchored
  names := by
    rw [hl.rest, hl'.rest]
    exact ht.names
  tier := by
    rw [hl.rest, hl'.rest]
    exact ht.tier

/-- Releasing temporaries. -/
theorem truncate (ht : m.Twins ρ m') (mark mark' : Nat) :
    Twins ρ { m with heap := m.heap.truncateTemporaries mark }
      { m' with heap := m'.heap.truncateTemporaries mark' } := by
  have hsheds (m : Machine) (mark : Nat) :
      m.Sheds { m with heap := m.heap.truncateTemporaries mark } := by
    refine .beside ?_ ?_
    all_goals unfold Heap.truncateTemporaries; split
    · exact .refl _
    · exact .congr rfl rfl rfl rfl rfl
    · rfl
    · rfl
  have hrecalled {m : Machine} {named : CodeId → Nat → Atom → Prop} (hr : m.Remembers named)
      (mark : Nat) : Remembers { m with heap := m.heap.truncateTemporaries mark } named := by
    unfold Heap.truncateTemporaries
    split
    · exact hr
    · exact hr.temporaries _
  exact ht.sheds (hsheds m mark) (hsheds m' mark') (ht.safe.truncate mark) (ht.safe'.truncate mark')
    (hrecalled ht.recalled mark) (hrecalled ht.recalled' mark')

/-- **Both heaps change**, and cells may be new. -/
theorem rehouse (ht : m.Twins ρ m') (hle : ρ ⊆ ρ') (hs : Safe { m with heap := h })
    (hs' : Safe { m' with heap := h' }) (he : m.heap.Evolves h) (he' : m'.heap.Evolves h')
    (hf : ∀ id ∈ ρ.map Prod.fst, m.heap.SameFunction h id)
    (hf' : ∀ id ∈ ρ.map Prod.snd, m'.heap.SameFunction h' id)
    (hh : h.Twins ρ' h') : Twins ρ' { m with heap := h } { m' with heap := h' } where
  safe := hs
  safe' := hs'
  recalled := Remembers.rest (k := { m with heap := h }) ht.recalled rfl he
  recalled' := Remembers.rest (k := { m' with heap := h' }) ht.recalled' rfl he'
  known := ht.known.rest rfl hf (List.map_subset _ hle)
  known' := ht.known'.rest rfl hf' (List.map_subset _ hle)
  calm := ⟨ht.calm.interrupt, ht.calm.limit, ht.calm.parked⟩
  calm' := ⟨ht.calm'.interrupt, ht.calm'.limit, ht.calm'.parked⟩
  heap := hh
  config := ht.config
  codes := ht.codes.mono fun _ _ h => h.mono hle
  registers := ht.registers.mono fun _ _ h => h.mono hle
  capacity := ht.capacity
  frames := ht.frames.mono fun _ _ h => h.mono hle
  pending := ht.pending.mono fun _ _ h => h.mono hle
  intrinsics := ht.intrinsics
  anchored id hid := (ht.anchored id hid).mono hle
  names := ht.names
  tier := ht.tier

/-- **Values that are held are stored** in both heaps. -/
theorem changes (ht : m.Twins ρ m') (hc : Heap.Changes m.Holds m.heap h)
    (hc' : Heap.Changes m'.Holds m'.heap h') (hf : m.heap.SameFunctions h)
    (hf' : m'.heap.SameFunctions h') (hh : h.Twins ρ h') :
    Twins ρ { m with heap := h } { m' with heap := h' } :=
  ht.rehouse (List.Subset.refl _) (ht.safe.changes hc) (ht.safe'.changes hc')
    (hc.coherent ht.safe.heap).2 (hc'.coherent ht.safe'.heap).2 (fun id _ => hf id) (fun id _ => hf' id) hh

/-- **Other frames and registers.** -/
theorem reframe (ht : m.Twins ρ m') {registers registers' : RegisterFile} {frames frames' : Array Frame}
    (hs : Safe { m with registers, frames }) (hs' : Safe { m' with registers := registers', frames := frames' })
    (hr : Aligned ρ.Matches registers.registers registers'.registers)
    (hc : registers'.capacity = registers.capacity) (hf : Aligned (Frame.Twins ρ) frames frames') :
    Twins ρ { m with registers, frames } { m' with registers := registers', frames := frames' } :=
  { ht with
    safe := hs, safe' := hs'
    recalled := Remembers.rest (k := { m with registers, frames }) ht.recalled rfl (.refl _)
    recalled' := Remembers.rest (k := { m' with registers := registers', frames := frames' })
      ht.recalled' rfl (.refl _)
    calm := ⟨ht.calm.interrupt, ht.calm.limit, ht.calm.parked⟩
    calm' := ⟨ht.calm'.interrupt, ht.calm'.limit, ht.calm'.parked⟩
    registers := hr, capacity := hc, frames := hf }

/-- Another exception that is pending. -/
theorem withPending (ht : m.Twins ρ m') {pending pending' : Option Value}
    (hs : Safe { m with pendingException := pending })
    (hs' : Safe { m' with pendingException := pending' }) (hp : Option.Rel ρ.Matches pending pending') :
    Twins ρ { m with pendingException := pending } { m' with pendingException := pending' } :=
  { ht with
    safe := hs, safe' := hs'
    recalled := Remembers.rest (k := { m with pendingException := pending }) ht.recalled rfl (.refl _)
    recalled' := Remembers.rest (k := { m' with pendingException := pending' }) ht.recalled' rfl (.refl _)
    calm := ⟨ht.calm.interrupt, ht.calm.limit, ht.calm.parked⟩
    calm' := ⟨ht.calm'.interrupt, ht.calm'.limit, ht.calm'.parked⟩
    pending := hp }

/-- Other counts of the compiler. -/
theorem withTier (ht : m.Twins ρ m') {tier tier' : Option TierStats} (hsome : tier'.isSome = tier.isSome) :
    Twins ρ { m with tier } { m' with tier := tier' } :=
  { ht with
    safe := ht.safe.withTier tier, safe' := ht.safe'.withTier tier'
    recalled := Remembers.rest (k := { m with tier }) ht.recalled rfl (.refl _)
    recalled' := Remembers.rest (k := { m' with tier := tier' }) ht.recalled' rfl (.refl _)
    calm := ⟨ht.calm.interrupt, ht.calm.limit, ht.calm.parked⟩
    calm' := ⟨ht.calm'.interrupt, ht.calm'.limit, ht.calm'.parked⟩
    tier := hsome }

/-- **The same code changes** in what scripts see of it. -/
theorem modifyCode (ht : m.Twins ρ m') {code : CodeId} {g g' : CodeEntry → CodeEntry}
    (hs : (m.modifyCode code g).Safe) (hs' : (m'.modifyCode code g').Safe)
    (hg : ∀ e, (g e).block = e.block ∧ (g e).atoms = e.atoms ∧ (g e).caches = e.caches)
    (hg' : ∀ e, (g' e).block = e.block ∧ (g' e).atoms = e.atoms ∧ (g' e).caches = e.caches)
    (htwins : ∀ e e', m.code? code = some e → m'.code? code = some e' → e.Twins ρ e' →
      (g e).Twins ρ (g' e')) :
    (m.modifyCode code g).Twins ρ (m'.modifyCode code g') := by
  have hknown {m : Machine} {g : CodeEntry → CodeEntry} {ids : List Handle} (hr : m.Recognizes ids)
      (hg : ∀ e, (g e).caches = e.caches) : (m.modifyCode code g).Recognizes ids := by
    refine hr.transfer (fun entry hentry => ?_) (fun id _ => Heap.SameFunctions.refl _ id) (List.Subset.refl ids)
    rcases mem_modifyCode hentry with hmem | ⟨old, hold, rfl⟩
    · exact ⟨entry, hmem, rfl⟩
    · exact ⟨old, hold, by rw [hg]⟩
  exact { ht with
    safe := hs, safe' := hs'
    recalled := ht.recalled.recode fun e => ⟨(hg e).1, (hg e).2.1, by rw [(hg e).2.2]⟩
    recalled' := ht.recalled'.recode fun e => ⟨(hg' e).1, (hg' e).2.1, by rw [(hg' e).2.2]⟩
    known := hknown ht.known fun e => (hg e).2.2
    known' := hknown ht.known' fun e => (hg' e).2.2
    calm := ⟨ht.calm.interrupt, ht.calm.limit, ht.calm.parked⟩
    calm' := ⟨ht.calm'.interrupt, ht.calm'.limit, ht.calm'.parked⟩
    codes := ht.codes.modify _ htwins }

/-! ### What twins have in common -/

theorem clean (ht : m.Twins ρ m') : m.Clean := ht.safe.clean ht.heap.addressable

theorem clean' (ht : m.Twins ρ m') : m'.Clean := ht.safe'.clean ht.heap.addressable'

theorem readOnlyPolicy (ht : m.Twins ρ m') : m'.config.readOnlyPolicy = m.config.readOnlyPolicy :=
  (congrArg Config.readOnlyPolicy ht.config :)

theorem maxCallDepth (ht : m.Twins ρ m') : m'.config.maxCallDepth = m.config.maxCallDepth :=
  (congrArg Config.maxCallDepth ht.config :)

theorem tierUpThreshold (ht : m.Twins ρ m') : m'.config.tierUpThreshold = m.config.tierUpThreshold :=
  (congrArg Config.tierUpThreshold ht.config :)

theorem atomName (ht : m.Twins ρ m') (name : Atom) : m'.atomName name = m.atomName name := by
  unfold Machine.atomName
  rw [ht.heap.atoms]

theorem code? (ht : m.Twins ρ m') (code : CodeId) :
    Option.Rel (CodeEntry.Twins ρ) (m.code? code) (m'.code? code) := ht.codes _

theorem frame? (ht : m.Twins ρ m') : Option.Rel (Frame.Twins ρ) m.frame? m'.frame? := ht.frames.back?

end Twins

end Machine

end ScriptMachine
