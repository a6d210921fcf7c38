import ScriptMachine.Machine.Perform
import ScriptMachine.Proofs.Safety.Interpreter

/-! # Programs run safely

The constants of a program are temporaries until its code is registered, and roots from then on. An
activity runs in an environment with less fuel, so that all of them are safe by induction on the fuel
(`sound_perform`). -/

namespace ScriptMachine

open Machine

section

variable {env : Env} {m m' : Machine}

/-! ### Registered code -/

/-- Registering code whose constants are held. -/
theorem Machine.Safe.pushCode (hs : m.Safe) {entry : CodeEntry} {sites calls : Nat}
    (hnew : entry.caches = .new sites calls) (hatoms : ∀ a ∈ entry.atoms, m.heap.atoms.Knows a)
    (hc : entry.compiled = none) (hv : ∀ v ∈ entry.constants, m.Holds v) :
    Safe { m with codes := m.codes.push entry } := by
  refine ⟨hs.heap, ⟨hs.anchored.intrinsics, hs.anchored.names⟩, hs.caches.pushCode hnew,
    fun e he => ?_, hs.listeners, hs.hosts, hs.parked, fun ha => ?_⟩
  · rcases Array.mem_push.mp he with he | rfl
    · exact hs.codes e he
    · refine ⟨hatoms, fun lowered h => ?_⟩
      rw [hc] at h
      cases h
  · have hclean := hs.clean ha
    refine ⟨hclean.closed, hclean.listed, hclean.acyclic, fun v hmem => ?_⟩
    rcases mem_anchors.mp hmem with hroot | hrest
    · rcases mem_roots.mp hroot with h | h | h | h | h | ⟨e, he, h⟩
      · exact hs.holds_root (mem_roots.mpr (.inl h)) ha
      · exact hs.holds_root (mem_roots.mpr (.inr (.inl h))) ha
      · exact hs.holds_root (mem_roots.mpr (.inr (.inr (.inl h)))) ha
      · exact hs.holds_root (mem_roots.mpr (.inr (.inr (.inr (.inl h))))) ha
      · exact hs.holds_root (mem_roots.mpr (.inr (.inr (.inr (.inr (.inl h)))))) ha
      · rcases Array.mem_push.mp he with he | rfl
        · exact hs.holds_root (mem_roots.mpr (.inr (.inr (.inr (.inr (.inr ⟨e, he, h⟩)))))) ha
        · exact hv v h ha
    · exact hclean.anchors v (mem_anchors.mpr (.inr hrest))

namespace Runs

variable {α β : Type}

/-- Collecting the results of an action on each item, of which something is true that is kept. -/
theorem mapM {f : α → MachineM β} {P : β → Machine → Prop}
    (hP : ∀ {b} {m m' : Machine}, m.Grows m' → m.Steady m' → P b m → P b m')
    (hf : ∀ a {m : Machine}, m.Safe → Runs env m (f a) fun b m' => m.Steady m' ∧ P b m')
    (items : Array α) (hs : m.Safe) :
    Runs env m (items.mapM f) fun bs m' => m.Steady m' ∧ ∀ b ∈ bs, P b m' := by
  have hlist : ∀ (items : List α) {m : Machine}, m.Safe →
      Runs env m (items.mapM f) fun bs m' => m.Steady m' ∧ ∀ b ∈ bs, P b m' := by
    intro items
    induction items with
    | nil => exact fun hs => ret hs ⟨.refl _, fun _ h => by cases h⟩
    | cons a items ih =>
      intro m hs
      rw [List.mapM_cons]
      refine bind (hf a hs) ?_
      rintro b m₁ hs₁ _ ⟨hsteady₁, hb⟩
      refine bind (ih hs₁) ?_
      rintro bs m₂ hs₂ hg₂ ⟨hsteady₂, hbs⟩
      refine ret hs₂ ⟨hsteady₁.trans hsteady₂, fun b' hb' => ?_⟩
      rcases List.mem_cons.mp hb' with rfl | hmem
      · exact hP hg₂ hsteady₂ hb
      · exact hbs b' hmem
  rw [Array.mapM_eq_mapM_toList, map_eq_pure_bind]
  refine bind (hlist items.toList hs) ?_
  rintro bs m₁ hs₁ _ ⟨hsteady, hbs⟩
  exact ret hs₁ ⟨hsteady, by simpa using hbs⟩

/-- The value of a constant is a temporary, or no cell. -/
theorem constantValue (hs : m.Safe) (c : Constant) :
    Runs env m (constantValue c) fun v m' =>
      m.Steady m' ∧ (v ∈ m'.anchors ∨ v.cell? = none) := by
  cases c with
  | string text =>
    exact (newString hs text).mono fun _ _ h =>
      ⟨h.steady, .inl (mem_anchors.mpr (.inr (.inr (.inr h.temporary))))⟩
  | number n => exact ret hs ⟨.refl m, .inr (Value.cell?_number n)⟩
  | boolean b => exact ret hs ⟨.refl m, .inr (Value.cell?_boolean b)⟩
  | null => exact ret hs ⟨.refl m, .inr (by decide)⟩
  | undefined => exact ret hs ⟨.refl m, .inr (by decide)⟩

mutual

theorem registerCode (block : Block) {m : Machine} (hs : m.Safe) :
    Runs env m (registerCode block) fun _ _ => True := by
  cases block with
  | mk name instructions constants identifiers functions scopeLayouts handlers variableIds
      paramCount varCount registerCount needsActivation propertyCacheCount callCacheCount =>
    unfold ScriptMachine.registerCode
    refine bind (registerAll functions hs) ?_
    intro nested m₁ hs₁ _ _
    refine bind (mapM (P := fun a m => m.heap.atoms.Knows a) (fun hg _ h => hg.atoms.knows h)
      (fun text m hs => ?_) identifiers hs₁) ?_
    · refine (intern hs text).mono ?_
      rintro atom _ ⟨rfl, hk⟩
      exact ⟨steady_changes (P := m.Holds) hs (.single (.intern text)), hk⟩
    rintro atoms m₂ hs₂ _ ⟨-, hatoms⟩
    refine bind (mapM (P := fun v m => v ∈ m.anchors ∨ v.cell? = none)
      (fun _ hsteady h => h.imp_left (hsteady.anchors _)) (fun c m hs => constantValue hs c)
      constants hs₂) ?_
    rintro values m₃ hs₃ hg₃ ⟨-, hvalues⟩
    have hheld : ∀ v ∈ values, m₃.Holds v := by
      intro v hv
      rcases hvalues v hv with h | h
      · exact (hs₃.guards h).holds
      · exact holds_of_not_cell h
    refine pass hs₃ (by simpa using hheld) (look ?_)
    refine bind (Q := fun _ _ => True) (update (hs₃.pushCode rfl (fun a ha =>
      hg₃.atoms.knows (hatoms a ha)) rfl hheld) ⟨Nat.le_refl _, .refl _⟩ trivial) ?_
    intro _ m₄ hs₄ _ _
    exact ret hs₄ trivial

theorem registerAll (blocks : List Block) {m : Machine} (hs : m.Safe) :
    Runs env m (registerAll blocks) fun _ _ => True := by
  cases blocks with
  | nil => exact ret hs trivial
  | cons block blocks =>
    unfold ScriptMachine.registerAll
    refine bind (registerCode block hs) ?_
    intro code m₁ hs₁ _ _
    refine bind (registerAll blocks hs₁) ?_
    intro codes m₂ hs₂ _ _
    exact ret hs₂ trivial

end

/-! ### Programs -/

theorem load (hs : m.Safe) (block : Block) :
    Runs env m (load block) fun v m' => m'.Holds v := by
  unfold ScriptMachine.load
  split
  case h_1 => exact fatal hs fun _ => by simp
  case h_2 =>
    refine bind (registerCode block hs) ?_
    intro code m₁ hs₁ _ _
    refine bind (internOption hs₁ block.name) ?_
    intro name m₂ hs₂ _ _
    refine bind (newFunctionCell hs₂ _ _ _ fun _ h => by cases h) ?_
    intro function m₃ hs₃ _ hv
    exact ret hs₃ (hs₃.guards hv).holds

/-- **A call from the host.** -/
theorem enter (hs : m.Safe) {body : MachineM Value}
    (hbody : ∀ m₁ : Machine, m₁.Safe → m₁.heap = m.heap → Runs env m₁ body fun v m' => m'.Holds v) :
    Runs env m (enter body) fun v m' => m'.Holds v := by
  have hdepth {m : Machine} (hs : m.Safe) (reentryDepth : Nat) (watchdog : Watchdog) :
      Safe { m with reentryDepth, watchdog } :=
    hs.rehold rfl rfl rfl rfl rfl rfl hs.parked (fun _ hv => hs.holds_root hv) fun _ hv =>
      hs.holds_word hv
  refine look (ite (fun _ => raiseError hs _ _) fun _ => ?_)
  refine bind (Q := fun _ m' => m'.heap = m.heap) (update (hdepth hs _ _) (grows_of_heap rfl) rfl) ?_
  intro _ m₁ hs₁ _ hheap
  refine bind (attempt (hbody m₁ hs₁ hheap)) ?_
  intro r m₂ hs₂ _ hr
  refine bind (Q := fun _ m' => m'.heap = m₂.heap) (update (hdepth hs₂ _ _) (grows_of_heap rfl)
    rfl) ?_
  intro _ m₃ hs₃ _ hheap₃
  cases r with
  | ok value => exact ret hs₃ (Holds.congr hr hheap₃)
  | error u => exact unwind hs₃ (Carries.congr hr hheap₃)

/-- **A program.** -/
theorem runProgram (he : env.Sound) (hs : m.Safe) (block : Block) :
    Runs env m (runProgram block) fun v m' => m'.Holds v := by
  refine bind (load hs block) ?_
  intro program m₁ hs₁ _ hprogram
  refine bind (notify hs₁ _) ?_
  rintro _ m₁ _ _ rfl
  refine look (bind (attempt (enter hs₁ fun m₂ hs₂ hheap => callValue he hs₂
    ⟨fun v hv => ?_, fun h => by cases h⟩)) ?_)
  · simp only [List.mem_cons, List.not_mem_nil, or_false] at hv
    rcases hv with rfl | rfl
    · exact hprogram.congr hheap
    · exact (hs₁.guards_intrinsic (by simp [Intrinsics.objects])).holds.congr hheap
  · intro r m₂ hs₂ _ hr
    refine bind (notify hs₂ _) ?_
    rintro _ m₂ _ _ rfl
    cases r with
    | ok value => exact ret hs₂ hr
    | error u => exact unwind hs₂ hr

/-! ### Activities -/

theorem runHostFunction (hs : m.Safe) (function : HostId) (c : HostCall) :
    Runs env m (runHostFunction function c) fun _ _ => False := by
  refine look ?_
  rw [hs.hosts]
  exact fatal hs fun _ => by simp

end Runs

/-- **Nested activities are safe**, whatever the fuel. -/
theorem sound_perform (pause : Machine → List Value → Bool) (fuel : Nat) :
    Env.Sound { reenter := perform pause fuel, fuel, pause } := by
  induction fuel with
  | zero =>
    exact ⟨fun _ _ hs => ⟨⟨hs, .refl _, trivial⟩, fun h => h.host _ _ hs⟩,
      fun hs => ⟨⟨hs, .refl _, trivial⟩, fun h => h.frame hs⟩⟩
  | succ fuel ih =>
    refine ⟨fun {m} function call hs => ⟨?_, fun h => h.host _ _ hs⟩,
      fun {m} hs => ⟨?_, fun h => h.frame hs⟩⟩
    · have h : Runs { reenter := perform pause fuel, fuel, pause } m
          (runHostFunction function call) fun _ _ => False := Runs.runHostFunction hs function call
      exact ⟨h.safe, h.grows, h.ends⟩
    · have h := Runs.runFrame ih hs
      exact ⟨h.safe, h.grows, h.ends⟩

/-- **Nested activities go on** where nothing stops them. -/
theorem unpaused_perform (pause : Machine → List Value → Bool) (fuel : Nat) :
    Env.Unpaused { reenter := perform pause fuel, fuel, pause }
      { reenter := perform (fun _ _ => false) fuel, fuel, pause := fun _ _ => false } := by
  induction fuel with
  | zero =>
    exact ⟨rfl, fun _ _ => rfl, fun _ _ hs => ⟨⟨hs, .refl _, trivial⟩, .refl _⟩,
      fun hs => ⟨⟨hs, .refl _, trivial⟩, .refl _⟩⟩
  | succ fuel ih =>
    refine ⟨rfl, fun _ _ => rfl, fun {m} function call hs => ?_, fun {m} hs => ?_⟩
    · have h : Runs { reenter := perform pause fuel, fuel, pause } m
          (runHostFunction function call) fun _ _ => False := Runs.runHostFunction hs function call
      obtain ⟨⟨hsafe, hgrows, hends⟩, hresumes⟩ := h.resumes ih
      exact ⟨⟨hsafe, hgrows, hends⟩, hresumes⟩
    · obtain ⟨⟨hsafe, hgrows, hends⟩, hresumes⟩ := (Runs.runFrame (sound_perform pause fuel) hs).resumes ih
      exact ⟨⟨hsafe, hgrows, hends⟩, hresumes⟩

end

/-! ## No handle dangles

`Machine.NoDangling` lists every place from which a script can get at a cell, and says that each handle
found there names a live one. It holds in every state that scripts go through, and what an operation
keeps to itself over a collection is live as well (`never_dangling`).

Every intermediate state is the end of a run that is stopped there: `pause` may stop the machine before
any instruction, and before and after any point where an allocation or a write may collect. A handle
has a 32-bit index, so a heap with more than `2 ^ 32` slots is out of scope. -/

namespace Heap

/-- **What a cell refers to**: each handle in it names a live cell. -/
structure Sound (h : Heap) (c : Cell) : Prop where
  /-- The prototype of its shape. -/
  prototype : (h.shapes.get c.shape).prototype.Live h
  /-- Its properties. -/
  slots : ∀ v ∈ c.slots, v.Live h
  /-- Its elements. -/
  elements : ∀ e, c.payload = .array e → ∀ v ∈ e.items, v.Live h
  /-- The scope a function closes over. -/
  scope : ∀ data id, c.payload = .function data → data.scope = some id → h.isLive id = true
  /-- The variables of a scope record. -/
  captured : ∀ record room, c.payload = .activation record room → ∀ v ∈ record.slots, v.Live h
  /-- The enclosing scope of a scope record. -/
  parent : ∀ record room id, c.payload = .activation record room → record.parent = some id →
    h.isLive id = true

end Heap

/-- **What a frame refers to**: each handle in it names a live cell. -/
structure Frame.Sound (f : Frame) (h : Heap) : Prop where
  callee : f.callee.Live h
  this : f.this.Live h
  scope : ∀ id, f.scope = some id → h.isLive id = true
  activation : ∀ id, f.activation = some id → h.isLive id = true
  extraArgs : ∀ v ∈ f.extraArgs, v.Live h

/-- **No handle dangles.** -/
structure Machine.NoDangling (m : Machine) : Prop where
  registers : ∀ v ∈ m.registers.registers, v.Live m.heap
  frames : ∀ f ∈ m.frames, f.Sound m.heap
  stubWords : ∀ f ∈ m.stubFrames, ∀ v : Value, v.word ∈ f.words → v.Live m.heap
  pendingException : ∀ v, m.pendingException = some v → v.Live m.heap
  lastRaised : ∀ v, m.lastRaised = some v → v.Live m.heap
  stubUnwind : ∀ v, m.stubUnwind = some (.throw v) → v.Live m.heap
  constants : ∀ entry ∈ m.codes, ∀ v ∈ entry.constants, v.Live m.heap
  intrinsics : ∀ id ∈ m.intrinsics.objects, m.heap.isLive id = true
  cells : ∀ id c, m.heap.cell? id = some c → m.heap.Sound c
  temporaries : ∀ v ∈ m.heap.temporaries, v.Live m.heap

/-- What a run hands out, or stopped with, does not dangle; and it did not fail for a stale handle. -/
def HandsOut : EStateM.Result Stop Machine Value → Prop
  | .ok value m => value.Live m.heap
  | .error (.unwound (.throw value)) m => value.Live m.heap
  | .error (.unwound (.fatal failure)) _ => failure ≠ .staleHandle
  | .error .exhausted _ => True
  | .error (.paused held) m => ∀ v ∈ held, v.Live m.heap

variable {env : Env} {m : Machine}

/-! ### Safe machines -/

theorem Heap.Closed.sound {h : Heap} (hc : h.Closed) {id : Handle} {c : Cell}
    (hcell : h.cell? id = some c) : h.Sound c := by
  have hpayload (v : Value) (hv : v ∈ c.payload.references) : v.Live h :=
    hc.held id c v hcell (.inr hv)
  refine ⟨hc.prototype id c hcell, fun v hv => hc.held id c v hcell (.inl hv),
    fun e he v hv => hpayload v ?_, fun data scope hd hscope => Heap.live_cell.mp (hpayload _ ?_),
    fun record _ hr v hv => hpayload v ?_, fun record _ scope hr hp => Heap.live_cell.mp (hpayload _ ?_)⟩
  · simp [he, Payload.references, hv]
  · simp [hd, Payload.references, hscope]
  · simp [hr, Payload.references, hv]
  · simp [hr, Payload.references, hp]

/-- Nothing dangles in a safe machine. -/
theorem Machine.Safe.noDangling (hs : m.Safe) (ha : m.Addressable) : m.NoDangling := by
  have hclean := hs.clean ha
  have hroot (v : Value) (hv : v ∈ m.roots) : v.Live m.heap := hs.holds_root hv ha
  have hframe (f : Frame) (hf : f ∈ m.frames) (v : Value) (hv : v ∈ frameRoots f) :
      v.Live m.heap := hroot v (mem_roots.mpr (.inr (.inl ⟨f, hf, hv⟩)))
  refine ⟨fun v hv => hroot v (mem_roots.mpr (.inl hv)), fun f hf => ?_,
    fun f hf v hv => hs.holds_stubs f hf v hv ha, fun v hv => hroot v ?_, fun v hv => hroot v ?_,
    fun v hv => hroot v ?_, fun entry he v hv => hroot v ?_, hs.anchored.intrinsics.live,
    fun id c hcell => hclean.closed.sound hcell, hclean.closed.temporaries⟩
  · refine ⟨hframe f hf _ ?_, hframe f hf _ ?_, fun id hid => Heap.live_cell.mp (hframe f hf _ ?_),
      fun id hid => Heap.live_cell.mp (hframe f hf _ ?_), fun v hv => hframe f hf v ?_⟩
    · exact mem_frameRoots.mpr (.inl rfl)
    · exact mem_frameRoots.mpr (.inr (.inl rfl))
    · exact mem_frameRoots.mpr (.inr (.inr (.inl (by simp [hid]))))
    · exact mem_frameRoots.mpr (.inr (.inr (.inr (.inl (by simp [hid])))))
    · exact mem_frameRoots.mpr (.inr (.inr (.inr (.inr hv))))
  · exact mem_roots.mpr (.inr (.inr (.inl hv)))
  · exact mem_roots.mpr (.inr (.inr (.inr (.inl hv))))
  · exact mem_roots.mpr (.inr (.inr (.inr (.inr (.inl (by simp [hv, stubRoots]))))))
  · exact mem_roots.mpr (.inr (.inr (.inr (.inr (.inr ⟨entry, he, hv⟩)))))

/-- **A fresh machine is safe.** -/
theorem safe_new {config : Config} (hm : Machine.new config = .ok m) : m.Safe := by
  obtain ⟨hanchored, hfounded, hframe⟩ := Machine.new_spec hm
  refine ⟨hfounded.coherent, hanchored, ?_, ?_, by rw [hframe], by rw [hframe], ?_, fun _ => ?_⟩
  · intro code entry index cache key e hcode
    rw [hframe] at hcode
    simp [code?] at hcode
  · rw [hframe]
    intro entry hentry
    simp at hentry
  · rw [hframe]
    intro failure h
    cases h
  · refine ⟨hfounded.closed, hfounded.listed, hfounded.acyclic, fun v hv => ?_⟩
    rcases mem_anchors.mp hv with h | h | h | h
    · rw [hframe] at h
      simp [roots, stubRoots] at h
    · rw [hframe] at h
      simp [rootWords] at h
    · exact hfounded.closed.roots v h
    · exact hfounded.closed.temporaries v h

theorem safe_installTier (hs : m.Safe) : m.installTier.Safe := hs.withTier _

/-! ### Programs -/

/-- Runs programs one after the other, whatever becomes of them, and then a last one. -/
def runPrograms : List Block → Block → MachineM Value
  | [], block => runProgram block
  | earlier :: rest, block => do
    discard <| attempt (runProgram earlier)
    runPrograms rest block

theorem Runs.runPrograms (he : env.Sound) (hs : m.Safe) (earlier : List Block) (block : Block) :
    Runs env m (runPrograms earlier block) fun v m' => m'.Holds v := by
  induction earlier generalizing m with
  | nil => exact Runs.runProgram he hs block
  | cons program rest ih =>
    refine bind (Q := fun _ _ => True) (bind (attempt (Runs.runProgram he hs program)) ?_) ?_
    · intro _ m₁ hs₁ _ _
      exact ret hs₁ trivial
    · intro _ m₁ hs₁ _ _
      exact ih hs₁

/-- **Programs leave a fresh machine safe**, with or without a compiler, wherever they are stopped. -/
theorem Machine.safe_programs {m : Machine} {config : Config} (hm : Machine.new config = .ok m) (tier : Bool)
    (earlier : List Block) (block : Block) (pause : Machine → List Value → Bool) (fuel : Nat) :
    (leaves ((if tier then m.installTier else m).evalPausing pause fuel (runPrograms earlier block))).Safe := by
  have hstart : (if tier then m.installTier else m).Safe := by
    split
    · exact safe_installTier (safe_new hm)
    · exact safe_new hm
  exact (Runs.runPrograms (sound_perform pause fuel) hstart earlier block).safe

/-- **Programs lay prototypes in no circle.** -/
theorem Machine.acyclic_programs {m : Machine} {config : Config} (hm : Machine.new config = .ok m) (tier : Bool)
    (earlier : List Block) (block : Block) (pause : Machine → List Value → Bool) (fuel : Nat)
    (ha : (leaves ((if tier then m.installTier else m).evalPausing pause fuel
      (runPrograms earlier block))).Addressable) :
    (leaves ((if tier then m.installTier else m).evalPausing pause fuel
      (runPrograms earlier block))).heap.Acyclic :=
  ((safe_programs hm tier earlier block pause fuel).clean ha).acyclic

/-- **No handle ever dangles while scripts run**: in any state of a run of programs on a fresh machine,
with or without a compiler, every handle that a script can get at names a live cell, and so does
every value that the running operation goes on to use. -/
theorem never_dangling (config : Config) (tier : Bool) (earlier : List Block) (block : Block)
    (pause : Machine → List Value → Bool) (fuel : Nat) :
    match Machine.new config with
    | .error _ => True
    | .ok m =>
      let start := if tier then m.installTier else m
      let result := start.evalPausing pause fuel (runPrograms earlier block)
      (leaves result).NoDangling ∧ HandsOut result ∨ 2 ^ 32 < (leaves result).heap.slots.size := by
  split
  case h_1 => trivial
  case h_2 m hm =>
    have hstart : (if tier then m.installTier else m).Safe := by
      split
      · exact safe_installTier (safe_new hm)
      · exact safe_new hm
    have hrun := Runs.runPrograms (sound_perform pause fuel) hstart earlier block
    dsimp only
    unfold evalPausing
    have hsafe := hrun.safe
    have hends := hrun.ends
    generalize ScriptMachine.runPrograms earlier block _ _ = result at hsafe hends ⊢
    rcases Nat.lt_or_ge (2 ^ 32) (leaves result).heap.slots.size with hlarge | ha
    · exact .inr hlarge
    · refine .inl ⟨hsafe.noDangling ha, ?_⟩
      cases result with
      | ok value m' => exact hends ha
      | error stop m' =>
        cases stop with
        | exhausted => trivial
        | paused held => exact fun v hv => hends v hv ha
        | unwound u =>
          cases u with
          | throw value => exact hends ha
          | fatal failure => exact hends ha

end ScriptMachine
