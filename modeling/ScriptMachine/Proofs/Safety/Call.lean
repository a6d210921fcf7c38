import ScriptMachine.Machine.Call
import ScriptMachine.Proofs.Safety.Scope

/-! # Calls are safe

The function, the receiver and the arguments of a call are held when the frame is pushed. Only a
construction allocates before that, so only a construction needs them guarded (`Runs.Operands`). What a
nested activity does is an assumption here (`Env.Sound`). -/

namespace ScriptMachine

/-- Nested activities run safely: frames give values that do not dangle, and host functions, of which
there are none, give nothing. -/
structure Env.Sound (env : Env) : Prop where
  host : ∀ {m : Machine} (function : HostId) (call : HostCall), m.Safe →
    Runs env m (ScriptMachine.reenter (.host function call)) fun _ _ => False
  frame : ∀ {m : Machine}, m.Safe → Runs env m (ScriptMachine.reenter .frame) fun v m' => m'.Holds v

namespace Machine

variable {m m' : Machine} {v : Value} {id : Handle} {f : Frame}

/-! ### Releasing temporaries -/

theorem mem_of_mem_extract {values : Array Value} {start stop : Nat}
    (hv : v ∈ values.extract start stop) : v ∈ values := by
  obtain ⟨i, hi, rfl⟩ := Array.mem_extract_iff_getElem.mp hv
  exact Array.getElem_mem _

theorem Safe.release (hs : m.Safe) {temporaries : Array Value}
    (ht : ∀ v ∈ temporaries, m.Holds v) :
    Safe { m with heap := { m.heap with temporaries } } := by
  refine ⟨hs.heap.congr (hs.heap.white.congr rfl) rfl rfl rfl,
    ⟨⟨hs.anchored.intrinsics.shaped, hs.anchored.intrinsics.live, hs.anchored.intrinsics.rooted,
      hs.anchored.intrinsics.errors⟩, hs.anchored.names⟩,
    fun code entry index cache key e hcode hcache hmem => ?_, hs.codes, hs.listeners, hs.hosts,
    hs.parked, fun ha => ?_⟩
  · obtain ⟨hkey, name, hname, hk, hv⟩ := hs.caches code entry index cache key e hcode hcache hmem
    exact ⟨hkey, name, hname, hk, hv.transfer (fun _ _ h => ⟨h, rfl⟩) (fun _ _ _ _ h => h)
      (fun _ h => ⟨h.element, h.length⟩) fun _ h => h⟩
  have hclean := hs.clean ha
  refine ⟨hclean.closed.congr rfl rfl rfl fun v hv => ht v hv ha, hclean.listed.congr rfl rfl,
    hclean.acyclic.congr (fun _ => rfl) (fun _ => rfl), fun v hv => ?_⟩
  rcases mem_anchors.mp hv with hv | hv | hv | hv
  · exact hclean.anchors v (mem_anchors.mpr (.inl hv))
  · exact hclean.anchors v (mem_anchors.mpr (.inr (.inl hv)))
  · exact hclean.closed.roots v hv
  · exact ht v hv ha

theorem Safe.truncate (hs : m.Safe) (mark : Nat) :
    Safe { m with heap := m.heap.truncateTemporaries mark } := by
  unfold Heap.truncateTemporaries
  split
  · exact hs
  · refine hs.release fun v hv => (hs.guards_temporary ?_).holds
    rw [Array.shrink_eq_take] at hv
    exact mem_of_mem_extract hv

theorem Holds.truncate (hv : m.Holds v) (mark : Nat) :
    Machine.Holds { m with heap := m.heap.truncateTemporaries mark } v := by
  unfold Heap.truncateTemporaries
  split
  · exact hv
  · exact hv

theorem grows_truncate (m : Machine) (mark : Nat) :
    m.Grows { m with heap := m.heap.truncateTemporaries mark } := by
  unfold Heap.truncateTemporaries
  split
  · exact .refl m
  · exact ⟨Nat.le_refl _, .refl _⟩

/-! ### Registered code -/

theorem Remembers.modifyCode {named : CodeId → Nat → Atom → Prop} (hr : m.Remembers named)
    {code : CodeId} {g : CodeEntry → CodeEntry}
    (hg : ∀ c, (g c).caches.properties = c.caches.properties) :
    (m.modifyCode code g).Remembers named := by
  intro code' entry index cache key e hcode hcache hmem
  simp only [code?, Machine.modifyCode, Array.getElem?_modify] at hcode
  split at hcode
  case isFalse => exact hr code' entry index cache key e hcode hcache hmem
  case isTrue =>
    obtain ⟨c, hc, rfl⟩ := Option.map_eq_some_iff.mp hcode
    rw [hg] at hcache
    exact hr code' c index cache key e hc hcache hmem

/-- Changing what a code block has besides names, constants and property caches. -/
theorem Safe.retable (hs : m.Safe) {code : CodeId} {g : CodeEntry → CodeEntry}
    (hconstants : ∀ c, (g c).constants = c.constants)
    (hcaches : ∀ c, (g c).caches.properties = c.caches.properties)
    (hknown : ∀ c, c.Known m.heap.atoms → m.code? code = some c → (g c).Known m.heap.atoms) :
    (m.modifyCode code g).Safe ∧ m.Steady (m.modifyCode code g) :=
  hs.modifyCode hconstants (hs.caches.modifyCode hcaches) hknown

theorem Safe.cacheTarget (hs : m.Safe) (site : Site) (callee : Handle) (target : CallTarget) :
    (m.cacheTarget site callee target).Safe ∧ m.Steady (m.cacheTarget site callee target) ∧
      (m.cacheTarget site callee target).heap = m.heap := by
  unfold Machine.cacheTarget
  split
  · exact ⟨hs, .refl m, rfl⟩
  · cases site with
    | none => exact ⟨hs, .refl m, rfl⟩
    | some s =>
      rw [← and_assoc]
      refine ⟨hs.retable ?_ ?_ ?_, rfl⟩
      · exact fun _ => rfl
      · exact fun _ => rfl
      · exact fun c hc _ => ⟨hc.atoms, hc.compiled⟩

theorem Safe.withTier (hs : m.Safe) (tier : Option TierStats) : Safe { m with tier } :=
  hs.rehold rfl rfl rfl rfl rfl rfl hs.parked (fun _ hv => hs.holds_root hv) fun _ hv =>
    hs.holds_word hv

/-- Compiling keeps a machine safe, and the names of the code to run are interned. -/
theorem Safe.tierUp (hs : m.Safe) :
    m.tierUp.2.Safe ∧ m.tierUp.2.heap = m.heap ∧
      ∀ lowered, m.tierUp.1 = some lowered → ∀ op ∈ lowered.ops, op.Known m.heap.atoms := by
  have hcount (code : CodeId) (callCount : UInt32) :
      (m.modifyCode code fun e => { e with callCount }).Safe := by
    refine (hs.retable ?_ ?_ ?_).1
    · exact fun _ => rfl
    · exact fun _ => rfl
    · exact fun c hc _ => ⟨hc.atoms, hc.compiled⟩
  unfold Machine.tierUp
  split
  case h_1 => exact ⟨hs, rfl, fun _ h => by cases h⟩
  case h_2 f _ =>
    split
    case h_1 => exact ⟨hs, rfl, fun _ h => by cases h⟩
    case h_2 entry hentry =>
      have hknown := hs.codes entry (Array.mem_of_getElem? hentry)
      split
      case h_1 lowered hl =>
        refine ⟨hs, rfl, fun _ h => ?_⟩
        obtain rfl := Option.some.inj h
        exact hknown.compiled lowered hl
      case h_2 =>
        dsimp only
        split
        case h_1 => exact ⟨hcount _ _, rfl, fun _ h => by cases h⟩
        case h_2 stats _ =>
          split
          case isTrue => exact ⟨hcount _ _, rfl, fun _ h => by cases h⟩
          case isFalse =>
            have hops (lowered : Lowered) (h : entry.tierCode? = some lowered) :
                ∀ op ∈ lowered.ops, op.Known m.heap.atoms :=
              CodeEntry.known_lower hknown.atoms (CodeEntry.lower_of_tierCode? h)
            refine ⟨((hs.withTier _).retable ?_ ?_ ?_).1, rfl, hops⟩
            · exact fun _ => rfl
            · exact fun _ => rfl
            · exact fun c hc _ => ⟨hc.atoms, hops⟩

/-! ### Frames -/

theorem mem_fill {file : RegisterFile} {base : Nat} {values : Array Value}
    (hv : v ∈ (file.fill base values).registers) : v ∈ file.registers ∨ v ∈ values := by
  obtain ⟨values⟩ := values
  unfold RegisterFile.fill at hv
  rw [← Array.foldl_toList] at hv
  induction values generalizing file base with
  | nil => exact .inl hv
  | cons value values ih =>
    rcases ih hv with hold | hmem
    · rcases Array.mem_or_eq_of_mem_setIfInBounds hold with hold | rfl
      · exact .inl hold
      · exact .inr (by simp)
    · right
      simp only [List.mem_toArray, List.mem_cons] at hmem ⊢
      exact .inr hmem

theorem Safe.findHandler (hs : m.Safe) :
    m.findHandler.2.Safe ∧ m.findHandler.2.heap = m.heap := by
  have hpops (count : List Nat) {m : Machine} (hs : m.Safe) :
      (count.foldl (fun m _ => m.popScope) m).Safe ∧
        (count.foldl (fun m _ => m.popScope) m).heap = m.heap := by
    induction count generalizing m with
    | nil => exact ⟨hs, rfl⟩
    | cons _ count ih =>
      obtain ⟨hsafe, hheap⟩ := ih hs.popScope
      exact ⟨hsafe, hheap.trans (heap_popScope m)⟩
  unfold Machine.findHandler
  split
  case h_1 => exact ⟨hs, rfl⟩
  case h_2 f _ =>
    split
    case h_1 => exact ⟨hs, rfl⟩
    case h_2 entry _ =>
      split
      case h_1 => exact ⟨hs, rfl⟩
      case h_2 handler _ =>
        obtain ⟨hsafe, hheap⟩ := hpops
          (List.range (f.scopeDepth - min f.scopeDepth handler.scopeDepth).toNat) hs
        exact ⟨hsafe.setPc _, hheap⟩

/-- Replacing the pending exception. -/
theorem Safe.withPending (hs : m.Safe) {pendingException : Option Value}
    (hv : ∀ v, pendingException = some v → m.Holds v) : Safe { m with pendingException } := by
  refine hs.rehold rfl rfl rfl rfl rfl rfl hs.parked (fun v hmem => ?_) fun v hw => hs.holds_word hw
  rcases mem_roots.mp hmem with h | h | h | h
  · exact hs.holds_root (mem_roots.mpr (.inl h))
  · exact hs.holds_root (mem_roots.mpr (.inr (.inl h)))
  · exact hv v h
  · exact hs.holds_root (mem_roots.mpr (.inr (.inr (.inr h))))

end Machine

open Machine

namespace Runs

variable {α : Type} {env : Env} {m : Machine} {callee this value : Value} {args : Array Value}
  {site : Site} {isConstruct : Bool}

/-! ### Frames -/

theorem notify (hs : m.Safe) (kind : EventKind) :
    Runs env m (notify kind) fun _ m' => m' = m := notifyAt hs _ _ _

theorem pushFrame (hs : m.Safe) {function : Handle} (code : CodeId) (returnRegister : Option Register)
    (entryBoundary : Bool) (hf : m.Holds (.cell function)) (ht : m.Holds this)
    (hargs : ∀ v ∈ args, m.Holds v) :
    Runs env m (pushFrame function code this args returnRegister isConstruct entryBoundary)
      fun _ _ => True := by
  refine look (ite (fun _ => raiseError hs _ _) fun _ => update (hs.reframe ?_ ?_) (grows_of_heap rfl)
    trivial)
  · intro v hv
    rcases mem_fill hv with hv | hv
    · rcases Array.mem_append.mp hv with hv | hv
      · exact hs.holds_register_file v hv
      · exact holds_of_not_cell (by simp [(Array.mem_replicate.mp hv).2])
    · exact hargs v (mem_of_mem_extract hv)
  · intro f hmem v hv
    rcases Array.mem_push.mp hmem with hmem | rfl
    · exact hs.holds_frames f hmem v hv
    · rcases mem_frameRoots.mp hv with rfl | rfl | hscope | hactivation | hextra
      · exact hf
      · exact ht
      · dsimp only at hscope
        split at hscope
        case h_2 => cases hscope
        case h_1 data hdata =>
          obtain ⟨c, hc, hp⟩ := functionData?_eq_some hdata
          refine hs.holds_reference hc ?_
          simp only [Heap.references, hp, Payload.references, List.mem_append, Option.mem_toList]
          exact .inr hscope
      · cases hactivation
      · exact hargs v (mem_of_mem_extract hextra)

theorem functionEntry (hs : m.Safe) : Runs env m functionEntry fun r m' =>
    ∀ lowered, r = some lowered → ∀ op ∈ lowered.ops, op.Known m'.heap.atoms := by
  refine bind (notify hs _) ?_
  rintro _ _ _ _ rfl
  refine bind (checkInterrupt hs) ?_
  intro _ m₁ hs₁ _ _
  obtain ⟨hsafe, hheap, hops⟩ := hs₁.tierUp
  refine step hsafe (grows_of_heap hheap) ?_
  rw [hheap]
  exact hops

theorem popFrame (hs : m.Safe) : Runs env m popFrame fun r m' =>
    m'.heap = m.heap ∧ ∀ f, r = some f → m.Holds f.this := by
  refine look (ite (fun _ => ret hs ⟨rfl, fun _ h => by cases h⟩) fun _ => ?_)
  refine bind (notify hs _) ?_
  rintro _ m _ _ rfl
  cases hb : m.frames.back? with
  | none => exact stepTo (by rw [hb]) hs (.refl m) ⟨rfl, fun _ h => by cases h⟩
  | some f =>
    have hsafe : Safe { m with frames := m.frames.pop, registers := m.registers.truncate f.base } := by
      refine hs.reframe (fun v hv => ?_) fun g hg => ?_
      · unfold RegisterFile.truncate at hv
        rw [Array.shrink_eq_take] at hv
        exact hs.holds_register_file v (mem_of_mem_extract hv)
      · rw [← Array.mem_toList_iff, Array.toList_pop] at hg
        exact hs.holds_frames g (Array.mem_toList_iff.mp (List.dropLast_subset _ hg))
    refine stepTo (by rw [hb]) hsafe (grows_of_heap rfl) ⟨rfl, fun g hg => ?_⟩
    obtain rfl := Option.some.inj hg
    exact hs.holds_frames f (Array.mem_of_back? hb) _ (mem_frameRoots.mpr (.inr (.inl rfl)))

theorem popFrames (hs : m.Safe) (count : Nat) :
    Runs env m (popFrames count) fun _ m' => m'.heap = m.heap := by
  induction count generalizing m with
  | zero => exact ret hs rfl
  | succ count ih =>
    refine bind (Q := fun _ m' => m'.heap = m.heap) (bind (popFrame hs) ?_) ?_
    · intro _ m₁ hs₁ _ h
      exact ret hs₁ h.1
    · intro _ m₁ hs₁ _ hheap
      exact (ih hs₁).mono fun _ _ h => h.trans hheap

theorem popFramesTo (hs : m.Safe) (depth : Nat) :
    Runs env m (popFramesTo depth) fun _ m' => m'.heap = m.heap := look (popFrames hs _)

theorem finishReturn (hs : m.Safe) (hv : m.Holds value) :
    Runs env m (finishReturn value) fun r m' => m'.Holds r.1 := by
  have hc : Heap.Changes m.Holds m.heap (m.heap.pushTemporary value) := .single (.protect hv)
  refine bind (modifyHeap (Q := fun _ m' => m' = { m with heap := m.heap.pushTemporary value }) hs hc
    rfl) ?_
  rintro _ _ hs₁ _ rfl
  have hv₁ : Machine.Holds { m with heap := m.heap.pushTemporary value } value := hv.changes hs hc
  refine bind (popFrame hs₁) ?_
  rintro r m₂ hs₂ _ ⟨hheap, hthis⟩
  cases r with
  | none => exact ret hs₂ (hv₁.congr hheap)
  | some f =>
    refine look (ret hs₂ ?_)
    dsimp only
    unfold constructResult
    split
    · exact (hthis f rfl).congr hheap
    · exact hv₁.congr hheap

/-! ### Handlers -/

theorem enterHandler (hs : m.Safe) (hv : m.Holds value) :
    Runs env m (enterHandler value) fun _ m' => m'.heap = m.heap := by
  obtain ⟨hsafe, hheap⟩ := hs.findHandler
  cases hfind : m.findHandler with
  | mk target m' =>
    rw [hfind] at hsafe hheap
    cases target with
    | none => exact stepTo (by rw [hfind]) hsafe (grows_of_heap hheap) hheap
    | some target =>
      have hpending : Safe { m' with pendingException := some value } := by
        refine hsafe.withPending fun v h => ?_
        rw [← Option.some.inj h]
        exact hv.congr hheap
      exact stepTo (by rw [hfind]) hpending (grows_of_heap hheap) hheap

theorem takeException (hs : m.Safe) : Runs env m takeException fun v m' => m'.Holds v := by
  refine step (hs.withPending fun _ h => by cases h) (grows_of_heap rfl) ?_
  change m.Holds _
  cases hp : m.pendingException with
  | none => exact holds_of_not_cell (by simp)
  | some v => exact hs.holds_root (mem_roots.mpr (.inr (.inr (.inl hp))))

/-! ### Calls -/

theorem resolveCallee (hs : m.Safe) :
    Runs env m (resolveCallee callee site isConstruct) fun r m' =>
      callee = .cell r.1 ∧ m.Steady m' ∧ m'.heap = m.heap := by
  unfold ScriptMachine.resolveCallee
  refine look ?_
  cases hcell : callee.cell? with
  | none => exact raiseError hs _ _
  | some id =>
    have hcallee := Value.cell?_eq_some.mp hcell
    dsimp only
    cases m.cachedTarget? site id with
    | some target => exact ret hs ⟨hcallee, .refl m, rfl⟩
    | none =>
      dsimp only [Option.map_none]
      cases m.functionData? callee with
      | none => exact raiseError hs _ _
      | some data =>
        obtain ⟨hsafe, hsteady, hheap⟩ := hs.cacheTarget site id data.target
        refine bind (Q := fun _ m' => m.Steady m' ∧ m'.heap = m.heap)
          (update hsafe (grows_of_heap hheap) ⟨hsteady, hheap⟩) ?_
        intro _ m' hs' _ h
        exact ret hs' ⟨hcallee, h⟩

/-- The new object of a construction; what was guarded before is held afterwards. -/
theorem constructReceiver (hs : m.Safe) {function : Handle} (hf : m.Guards (.cell function)) :
    Runs env m (constructReceiver function) fun v m' =>
      m'.Holds v ∧ ∀ w, m.Guards w → m'.Holds w := by
  have hplace {m₁ : Machine} {shape : ShapeId} (hx : Runs env m₁
        (ScriptMachine.allocate shape .plain) fun id => Allocated m₁ (.cell id))
      (hg : ∀ w, m.Guards w → m₁.Guards w) :
      Runs env m₁ (do return .cell (← ScriptMachine.allocate shape .plain)) fun v m' =>
        m'.Holds v ∧ ∀ w, m.Guards w → m'.Holds w := by
    refine bind hx ?_
    intro id m₂ hs₂ _ ha
    exact ret hs₂ ⟨(hs₂.guards_temporary ha.temporary).holds, fun w hw => ha.kept w (hg w hw)⟩
  refine look (bind (Q := fun prototype m' => m.Guards prototype ∧ m' = m)
    (settled hs fun prototype hp => ⟨hs.guards_property hf hp, rfl⟩) ?_)
  rintro prototype m - - ⟨hprototype, rfl⟩
  dsimp only
  split
  case h_2 =>
    refine bind (Q := fun shape m' => shape = m.intrinsics.objectShape ∧ m' = m)
      (ret hs ⟨rfl, rfl⟩) ?_
    rintro _ m _ _ ⟨rfl, rfl⟩
    have hmem : m.intrinsics.objectPrototype ∈ m.intrinsics.objects := by simp [Intrinsics.objects]
    exact hplace (allocate hs rfl hs.anchored.intrinsics.shaped.object (hs.guards_intrinsic hmem)
      (Heap.live_cell.mpr (hs.anchored.intrinsics.live _ hmem)) (by simp [Payload.references]))
      fun _ hw => hw
  case h_1 id hobject =>
    obtain ⟨hcell, hlive⟩ := objectCell?_eq_some hobject
    have hroot := (ShapeTable.root_spec hs.heap.shapes .object prototype).2
    refine bind (Q := fun shape m' => shape = (m.heap.rootShape .object prototype).1 ∧
      m' = { m with heap := (m.heap.rootShape .object prototype).2 })
      (withHeap hs (.single (.root .object _)) ⟨rfl, rfl⟩) ?_
    rintro _ _ hs₁ _ ⟨rfl, rfl⟩
    refine hplace (allocate hs₁ rfl hroot (hprototype.rootShape hs _ _) ?_
      (by simp [Payload.references])) fun w hw => hw.rootShape hs _ _
    rw [hcell]
    exact Heap.live_cell.mpr hlive

/-- The operands of a call are held, and guarded if it is a construction. -/
structure Operands (m : Machine) (callee this : Value) (args : Array Value) (isConstruct : Bool) :
    Prop where
  holds : ∀ v ∈ callee :: this :: args.toList, m.Holds v
  guards : isConstruct = true → ∀ v ∈ callee :: this :: args.toList, m.Guards v

/-- **What a call does before anything runs**: what it goes on to use is held. -/
theorem callReady (hs : m.Safe) (ho : Operands m callee this args isConstruct) {function : Handle}
    (hcallee : callee = .cell function) {k : Value → MachineM α} {R : α → Machine → Prop}
    (hk : ∀ this' m', m'.Safe → m'.Holds (.cell function) → m'.Holds this' →
      (∀ v ∈ args, m'.Holds v) → Runs env m' (k this') R) :
    Runs env m (do
      let this ← receiver function this isConstruct
      ScriptMachine.checkpoint (.cell function :: callee :: this :: args.toList)
      k this) R := by
  subst hcallee
  have hgo {m₁ : Machine} {this' : Value} (hs₁ : m₁.Safe) (ht : m₁.Holds this')
      (hkept : ∀ v ∈ .cell function :: this :: args.toList, m₁.Holds v) :
      Runs env m₁ (do
        ScriptMachine.checkpoint (.cell function :: .cell function :: this' :: args.toList)
        k this') R := by
    have hfunction := hkept (.cell function) (by simp)
    have hargs : ∀ v ∈ args, m₁.Holds v := fun v hv => hkept v (by simp [hv])
    refine pass hs₁ (fun v hv => ?_) (hk this' m₁ hs₁ hfunction ht hargs)
    simp only [List.mem_cons, Array.mem_toList_iff] at hv
    rcases hv with rfl | rfl | rfl | hv
    · exact hfunction
    · exact hfunction
    · exact ht
    · exact hargs v hv
  unfold receiver
  cases isConstruct with
  | false => exact hgo hs (ho.holds this (by simp)) ho.holds
  | true =>
    refine bind (constructReceiver hs (ho.guards rfl _ (by simp))) ?_
    rintro this' m₁ hs₁ _ ⟨ht, hkept⟩
    exact hgo hs₁ ht fun v hv => hkept v (ho.guards rfl v hv)

/-- Finding the function keeps the operands. -/
theorem Operands.congr {m' : Machine} (ho : Operands m callee this args isConstruct)
    (hsteady : m.Steady m') (hheap : m'.heap = m.heap) : Operands m' callee this args isConstruct :=
  ⟨fun v hv => (ho.holds v hv).congr hheap, fun hc v hv => (ho.guards hc v hv).congr (by rw [hheap])
    (by rw [hheap]) (fun _ _ _ => by rw [hheap]) hsteady.anchors⟩

theorem invokeHost (he : env.Sound) (hs : m.Safe) (function : HostId) :
    Runs env m (invokeHost function callee this args isConstruct) fun _ _ => False := by
  refine bind (he.host function _ hs) ?_
  intro _ _ _ _ h
  exact h.elim

/-- **A call.** -/
theorem callValue (he : env.Sound) (hs : m.Safe) (ho : Operands m callee this args isConstruct) :
    Runs env m (callValue callee this args isConstruct site) fun v m' => m'.Holds v := by
  refine bind (resolveCallee hs) ?_
  rintro ⟨function, target⟩ m₁ hs₁ _ ⟨hcallee, hsteady, hheap⟩
  refine callReady hs₁ (ho.congr hsteady hheap) hcallee ?_
  intro this' m₂ hs₂ hf ht hargs
  cases target with
  | host host => exact (invokeHost he hs₂ host).mono fun _ _ h => h.elim
  | script code =>
    refine bind (pushFrame hs₂ code none true hf ht hargs) ?_
    intro _ m₃ hs₃ _ _
    exact he.frame hs₃

end Runs

end ScriptMachine
