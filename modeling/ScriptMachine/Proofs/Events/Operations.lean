import ScriptMachine.Proofs.Events.Regime

/-! # Operations respect every regime

Whatever a regime is, the operations that start no activity of their own respect it: allocation, properties,
scopes, popping frames, and every instruction that is no call. New functions have names that are known, and
a callee that was resolved has a handle that was issued. -/

namespace ScriptMachine

open Machine

/-- **What an allocation leaves**: the frames as they were, and a cell with the payload. -/
structure Machine.Places (m : Machine) (payload : Payload) (id : Handle) (m' : Machine) : Prop where
  quiet : m.Quiet m'
  cell : m'.heap.Roomy → ∃ c, m'.heap.cell? id = some c ∧ c.payload = payload

theorem Machine.Places.frame? {m m' : Machine} {payload : Payload} {id : Handle}
    (h : m.Places payload id m') : m'.frame? = m.frame? := h.quiet.frame?

/-- Code that is registered keeps its block. -/
theorem Machine.HasMoved.quiet {m m' : Machine} {f : Frame} (h : m.HasMoved f) (hq : m.Quiet m') : m'.HasMoved f := by
  obtain ⟨entry, hentry, hmoved⟩ := h
  obtain ⟨entry', hentry', hfixed⟩ := hq.calm.code? hentry
  have hblock : entry'.block = entry.block := (congrArg CodeEntry.block hfixed :)
  exact ⟨entry', hentry', fun ha => by rw [hblock]; exact hmoved ha⟩

/-- A new scope record is linked to its parent. -/
theorem Machine.Places.link {m m' : Machine} {record : ScopeRecord} {id : Handle}
    (h : m.Places (.activation record) id m') (hr : m'.heap.Roomy) :
    m'.heap.link? id = some record.parent := by
  obtain ⟨c, hc, hp⟩ := h.cell hr
  exact link?_eq_some.mpr ⟨record, scopeRecord?_eq_some.mpr ⟨c, _, hc, hp⟩, rfl⟩

namespace Regime

variable {α β : Type} {R : Regime} {env : Env} {n : Nat} {m : Machine}

/-! ### Allocation and exceptions -/

theorem Ends.allocateCell (hs : R.Serves env) (hk : R.keeps n m) (shape : ShapeId) {payload : Payload}
    (hp : m.heap.Names payload) (hsupplied : m.Supplies payload) :
    R.Ends n m (fun id m' => R.keeps n m' ∧ m.Places payload id m') (allocateCell shape payload env m) := by
  let after : Machine := { m with heap := (m.heap.allocate shape payload).2 }
  refine pass hs hk (bind (Q := fun r m' => R.keeps n m' ∧ r = (m.heap.allocate shape payload).1 ∧ m' = after)
    (step hs hk (.single (.allocate shape hp hsupplied)) fun hk' => ⟨hk', rfl, rfl⟩) ?_)
  rintro r _ _ ⟨hk', hresult, rfl⟩
  cases r with
  | error failure => exact unwind hk' _
  | ok id =>
    refine ret ⟨hk', ⟨rfl, rfl, rfl, rfl⟩, fun hr => ?_⟩
    have hroomy : m.heap.Roomy := Nat.lt_of_le_of_lt (Heap.size_le_allocated m.heap shape payload) hr
    obtain ⟨-, hcell⟩ := Heap.cell?_allocate ((hs.regular hk).listed hroomy) hresult.symm (Nat.le_of_lt hr)
    exact ⟨_, (hcell id).trans (if_pos rfl), (Heap.payload_new shape _ payload).1⟩

/-- **An allocation** of a cell; a function has a name that is known, and what it refers to is there. -/
theorem Ends.allocate (hs : R.Serves env) (hk : R.keeps n m) (shape : ShapeId) {payload : Payload}
    {hexact : payload.Exact} (hp : m.heap.Names payload) (hsupplied : m.Supplies payload) :
    R.Ends n m (fun id m' => R.keeps n m' ∧ m.Places payload id m')
      (allocate shape payload hexact env m) := by
  refine pass hs hk (look (ite (fun _ => ?_) fun _ => Ends.allocateCell hs hk shape hp hsupplied))
  have hcollect : R.Ends n m (fun _ m' => R.keeps n m' ∧ m' = m.collect.2)
      ((discard collectGarbage : MachineM Unit) env m) :=
    bind (Q := fun _ m' => R.keeps n m' ∧ m' = m.collect.2)
      (step hs hk (.single .collect) fun hk' => ⟨hk', rfl⟩) fun _ _ _ h => ret h
  refine bind hcollect ?_
  rintro _ _ ho ⟨hk', rfl⟩
  have hquiet := (arrives_collect m).2
  exact (Ends.allocateCell hs hk' shape (ho.heap.payload hp) (hquiet.supplies hsupplied)).mono fun _ _ h =>
    ⟨h.1, hquiet.trans h.2.quiet, h.2.cell⟩

namespace Respects

theorem currentFrame : R.Respects currentFrame := by
  refine bind look fun m => ?_
  split
  · exact ret _
  · exact fatal _

theorem allocate (shape : ShapeId) {payload : Payload} {hexact : payload.Exact}
    (hp : ∀ data, payload ≠ .function data) (hsupplied : ∀ m : Machine, m.Supplies payload) :
    R.Respects (allocate shape payload hexact) :=
  fun _ _ m hs hk => (Ends.allocate hs hk shape (fun data _ h => absurd h (hp data)) (hsupplied m)).mono
    fun _ _ h => h.1

theorem newObject : R.Respects newObject :=
  bind look fun _ => bind (allocate _ (fun _ h => by cases h) fun _ => trivial) fun _ => ret _

theorem newArray (elements : Elements) : R.Respects (newArray elements) :=
  bind look fun _ => bind (allocate _ (fun _ h => by cases h) fun _ => trivial) fun _ => ret _

theorem newString (text : String) : R.Respects (newString text) :=
  bind look fun _ => bind (allocate _ (fun _ h => by cases h) fun _ => trivial) fun _ => ret _

theorem report (kind : EventKind) (exception : Option Value) (line : Option UInt32)
    (hkind : kind = .statement ∨ kind = .exception) : R.Respects (notifyAt kind exception line) :=
  fun _ _ _ hs hk => hs.report kind exception line hkind hk

end Respects

/-- **Raising a value** never yields a result. -/
theorem Ends.raise (hs : R.Serves env) (hk : R.keeps n m) (v : Value) {Q : α → Machine → Prop} :
    R.Ends n m Q (raise v env m) := by
  have hparked : R.Respects (modify fun m =>
      { m with heap := m.heap.pushTemporary v, lastRaised := some v, exceptionTrace := m.captureTrace } :
      MachineM PUnit) := .change fun m _ =>
    (Silently.heap (m.heap.preserves_pushTemporary v)).trans (Silently.beside rfl rfl rfl rfl rfl rfl rfl rfl)
  exact bind (hparked env n m hs hk) fun _ m₁ _ hk₁ =>
    bind (Respects.report _ _ _ (.inr rfl) env n m₁ hs hk₁) fun _ _ _ hk₂ => unwind hk₂ _

namespace Respects

theorem raise (v : Value) : R.Respects (raise v : MachineM α) := fun _ _ _ hs hk => .raise hs hk v

theorem raiseFromHost (v : Value) : R.Respects (raiseFromHost v : MachineM α) :=
  bind look fun _ => ite (unwind _) (raise v)

theorem rootShape (kind : CellKind) (prototype : Value) :
    R.Respects (ScriptMachine.withHeap (·.rootShape kind prototype)) :=
  withHeap fun _ => Heap.preserves_rootShape ..

theorem newError (kind : ErrorKind) (message : String) : R.Respects (newError kind message) := by
  refine bind look fun _ => bind (rootShape _ _) fun _ => bind (allocate _ (fun _ h => by cases h) fun _ => trivial) fun _ =>
    bind (newString _) fun _ => bind (checkpoint _) fun _ => bind look fun _ =>
    bind (tryHeap (.defineProperty _ _ _ _)) fun r => ?_
  cases r with
  | ok _ => exact ret _
  | error _ => exact fatal _

end Respects

theorem Ends.raiseError (hs : R.Serves env) (hk : R.keeps n m) (kind : ErrorKind) (message : String)
    {Q : α → Machine → Prop} : R.Ends n m Q (raiseError kind message env m) :=
  bind (Respects.newError kind message env n m hs hk) fun v _ _ hk' => raise hs hk' v

namespace Respects

theorem raiseError (kind : ErrorKind) (message : String) :
    R.Respects (raiseError kind message : MachineM α) := fun _ _ _ hs hk => .raiseError hs hk _ _

theorem propertyFault (fault : PropertyFault) : R.Respects (propertyFault fault : MachineM α) := by
  cases fault with
  | staleHandle => exact fatal _
  | outOfMemory => exact bind look fun _ => fatal _
  | _ => exact raiseError _ _

theorem runHeap {c : HeapM α} (hc : Heap.Preserving c) : R.Respects (runHeap c) := by
  refine bind (tryHeap hc) fun r => ?_
  cases r with
  | ok a => exact ret _
  | error fault => exact propertyFault _

theorem collectGarbage : R.Respects collectGarbage := step fun _ _ => .single .collect

theorem heapWrite (held : List Value) {c : HeapM α} (hc : Heap.Preserving c) :
    R.Respects (heapWrite held c) := by
  refine bind (checkpoint held) fun _ => bind (tryHeap hc) fun r => ?_
  cases r with
  | ok a => exact ret _
  | error fault =>
    cases fault with
    | outOfMemory =>
      exact bind (discarded collectGarbage) fun _ => bind (checkpoint _) fun _ => runHeap hc
    | _ => exact propertyFault _

theorem checkInterrupt : R.Respects checkInterrupt := by
  intro env n m hs hk
  refine .look (.ite (fun _ => ?_) fun _ => ?_)
  · have hset : R.Respects (modify fun m => { m with interruptRequested := false } : MachineM PUnit) :=
      change fun m _ => .beside rfl rfl rfl rfl rfl rfl rfl rfl
    exact (bind hset fun _ => fatal _) env n m hs hk
  · refine (bind (step fun m _ => ?_) fun _ => ite (fatal _) (ret _)) env n m hs hk
    exact Silently.beside rfl rfl rfl rfl rfl rfl rfl rfl

/-! ### Operators and properties -/

theorem addValues (a b : Value) : R.Respects (addValues a b) :=
  bind look fun _ => ite (newString _) (ret _)

theorem applyBinary (op : BinaryOp) (a b : Value) : R.Respects (applyBinary op a b) := by
  unfold ScriptMachine.applyBinary
  split
  · exact ret _
  · refine bind look fun m => ?_
    cases op with
    | add => exact addValues a b
    | _ => exact ret _

theorem applyUnary (op : UnaryOp) (a : Value) : R.Respects (applyUnary op a) := by
  refine bind look fun m => ?_
  cases op with
  | typeOf => exact newString _
  | _ => exact ret _

theorem cacheProperty (site : Site) (entry : PropertyEntry) :
    R.Respects (modify (·.cacheProperty site entry) : MachineM Unit) :=
  change fun _ hm => .cacheProperty hm site entry

theorem readCell (id : Handle) (name : Atom) (site : Site) : R.Respects (readCell id name site) := by
  refine bind look fun m => ?_
  dsimp only
  split
  · exact ret _
  · refine bind (settled _) fun lookup => ite ?_ (ret _)
    split
    · exact bind (cacheProperty _ _) fun _ => ret _
    · exact ret _

theorem getById (base : Value) (name : Atom) (site : Site) : R.Respects (getById base name site) := by
  refine bind look fun m => ?_
  split
  · exact bind (readCell _ _ _) fun _ => ret _
  · exact ite (raiseError _ _) (ret _)

theorem refuseWrite (name : Atom) : R.Respects (refuseWrite name) := by
  refine bind look fun m => ?_
  split
  · exact ret _
  · exact raiseError _ _

theorem putById (base : Value) (name : Atom) (value : Value) (site : Site) :
    R.Respects (putById base name value site) := by
  refine bind look fun m => ?_
  split
  · exact ite (raiseError _ _) (ret _)
  · dsimp only
    split
    · exact modifyHeap fun h => h.preserves_writeSlot _ _ _ _
    · refine bind (heapWrite _ (.setProperty _ _ _)) fun outcome =>
        ite (refuseWrite _) (bind look fun m => ?_)
      split
      · split
        · exact cacheProperty _ _
        · exact ret _
      · exact ret _

theorem deleteById (base : Value) (name : Atom) : R.Respects (deleteById base name) := by
  refine bind look fun m => ?_
  split
  · exact ite (raiseError _ _) (ret _)
  · exact bind (runHeap (.deleteProperty _ _)) fun _ => bind look fun _ =>
      ite (bind (raiseError _ _) fun _ => ret _) (ret _)

theorem intern (name : String) : R.Respects (intern name) := withHeap fun h => h.preserves_intern name

theorem keyAtom (key : Value) : R.Respects (keyAtom key) := bind look fun _ => intern _

theorem getByVal (base key : Value) : R.Respects (getByVal base key) := by
  have hnamed : R.Respects (do ScriptMachine.getById base (← ScriptMachine.keyAtom key) none) :=
    bind (keyAtom key) fun _ => getById _ _ _
  refine bind look fun m => ?_
  split
  · split
    · split
      · exact newString _
      · exact ret _
    · exact ite (bind (withHeap fun h => h.preserves_getIndex? _ _) fun _ => settled _) hnamed
  · exact hnamed

theorem putByVal (base key value : Value) : R.Respects (putByVal base key value) := by
  refine bind look fun m => ?_
  split
  · exact bind (heapWrite _ (.setIndex _ _ _)) fun _ =>
      ite (bind (withHeap fun h => h.preserves_intern _) fun _ => refuseWrite _) (ret _)
  · exact bind (keyAtom key) fun _ => putById _ _ _ _

theorem hasKey (key base : Value) : R.Respects (hasKey key base) := by
  refine bind look fun m => ?_
  split
  · exact raiseError _ _
  · exact bind (keyAtom key) fun _ => bind look fun _ => settled _

theorem instanceOf (value constructor : Value) : R.Respects (instanceOf value constructor) := by
  refine bind look fun m => ite (raiseError _ _) ?_
  split
  · exact ret _
  · refine bind (getById _ _ _) fun _ => bind look fun m => ?_
    split
    · exact raiseError _ _
    · exact settled _

theorem getGlobalById (name : Atom) (site : Site) : R.Respects (getGlobalById name site) := by
  refine bind look fun _ => bind (readCell _ _ _) fun lookup => ?_
  split
  · exact bind look fun _ => raiseError _ _
  · exact ret _

theorem putGlobalById (name : Atom) (value : Value) (site : Site) :
    R.Respects (putGlobalById name value site) := bind look fun _ => putById _ _ _ _

/-! ### Scopes -/

theorem setRegister (r : Register) (v : Value) :
    R.Respects (modify (·.setRegister r v) : MachineM Unit) := change fun m _ => .setRegister m r v

theorem setScopedVar (depth index : UInt32) (v : Value) :
    R.Respects (modify (·.setScopedVar depth index v) : MachineM Unit) :=
  change fun m _ => .setScopedVar m depth index v

theorem popScope : R.Respects (modify (·.popScope) : MachineM Unit) := change fun m _ => .popScope m

theorem setPc (pc : UInt32) : R.Respects (modify (·.setPc pc) : MachineM Unit) :=
  change fun m _ => .setPc m pc

end Respects

/-- **The variables of the running frame move to a record**; if it matters, no block scope is open. -/
theorem Ends.tearOffActivation (hs : R.Serves env) (hk : R.keeps n m)
    (hclosed : R.Lenient ∨ ∀ f, m.frame? = some f → f.activation = none → f.scopeDepth = 0) :
    R.Ends n m (fun _ m' => R.keeps n m' ∧ ∀ f', m'.frame? = some f' → f'.activation ≠ none)
      (tearOffActivation env m) := by
  refine framed hk fun f hf => ?_
  cases ha : f.activation with
  | some a =>
    refine ret ⟨hk, fun f' hf' => ?_⟩
    obtain rfl := Option.some.inj (hf.symm.trans hf')
    simp [ha]
  | none =>
    refine look (bind (Ends.allocate hs hk _ (fun _ _ h => by cases h) (supplies_record hf rfl)) ?_)
    rintro a mid - ⟨hk', hplaced⟩
    have hf' : mid.frame? = some f := hplaced.frame?.trans hf
    refine bind (Q := fun _ m' => R.keeps n m' ∧
      m' = mid.modifyFrame fun f => { f with activation := some a, scope := some a }) ?_ ?_
    · rcases hclosed with hlenient | hclosed
      · exact ⟨⟨.refl _, fun _ h => h⟩, hlenient n mid f _ hk' hf' rfl rfl, rfl⟩
      · exact change hs hk' (.single (.frame hf' (.tears a ha (hclosed f hf ha) hplaced.link)))
          fun h => ⟨h, rfl⟩
    · rintro _ _ - ⟨hk'', rfl⟩
      refine ret ⟨hk'', fun f' hf'' => ?_⟩
      rw [frame?_modifyFrame hf'] at hf''
      obtain rfl := Option.some.inj hf''
      simp

/-- Code that asks for it moves its variables before it opens a block scope. -/
theorem Ends.tearOffIfNeeded (hs : R.Serves env) (hk : R.keeps n m) :
    R.Ends n m (fun _ m' => R.keeps n m' ∧ ∀ f, m'.frame? = some f → m'.HasMoved f)
      (tearOffIfNeeded env m) := by
  refine framed hk fun f hf => look ?_
  obtain ⟨entry, hcode⟩ := code?_of_lt ((hs.registered hk).frames f (Array.mem_of_back? hf))
  rw [hcode]
  refine ite (fun hneeds => ?_) fun hneeds => ret ⟨hk, fun f' hf' => ?_⟩
  · have hmoves : R.Ends n m (fun _ m' => R.keeps n m' ∧ ∀ f', m'.frame? = some f' → f'.activation ≠ none)
        (ScriptMachine.tearOffActivation env m) := by
      refine .tearOffActivation hs hk (hs.settled.imp_right fun hsettled k hframe hnone => ?_)
      obtain rfl := Option.some.inj (hf.symm.trans hframe)
      by_contra hopen
      obtain ⟨other, hother, hmoved⟩ := (hsettled n m hk).moved f (Array.mem_of_back? hf) hopen
      obtain rfl := Option.some.inj (hcode.symm.trans hother)
      rw [hmoved hnone] at hneeds
      cases hneeds
    change R.Ends n m _ ((ScriptMachine.tearOffActivation >>= fun _ => pure ()) env m)
    refine bind hmoves ?_
    rintro _ m' - ⟨hk', hmoved⟩
    refine ret ⟨hk', fun f' hf' => ?_⟩
    obtain ⟨entry', hcode'⟩ := code?_of_lt ((hs.registered hk').frames f' (Array.mem_of_back? hf'))
    exact ⟨entry', hcode', fun hnone => absurd hnone (hmoved f' hf')⟩
  · obtain rfl := Option.some.inj (hf.symm.trans hf')
    exact ⟨entry, hcode, fun _ => by simpa using hneeds⟩

namespace Respects

theorem pushScope (layout : UInt32) : R.Respects (pushScope layout) := by
  intro env n m hs hk
  refine .bind (.tearOffIfNeeded hs hk) ?_
  rintro _ m₁ - ⟨hk₁, hmoves⟩
  refine .framed hk₁ fun f hf => .look ?_
  refine .bind (.allocate hs hk₁ _ (fun _ _ h => by cases h) (supplies_record hf rfl)) ?_
  rintro id m₂ - ⟨hk₂, hplaced⟩
  refine .change hs hk₂ (.single (.frame (hplaced.frame?.trans hf) (.opens id ?_ hplaced.link))) fun h => h
  exact (hmoves f hf).quiet hplaced.quiet

theorem resolveName (name : Atom) : R.Respects (resolveName name) := by
  refine bind look fun m => bind (settled _) fun location => ?_
  split
  · exact ret _
  · exact ret _
  · exact settled _
  · exact raiseError _ _

theorem argumentsObject : R.Respects argumentsObject :=
  bind currentFrame fun _ => bind look fun _ => newArray _

end Respects

/-! ### Functions -/

/-- A name that was interned is known. -/
theorem Ends.intern (hs : R.Serves env) (hk : R.keeps n m) (name : String) :
    R.Ends n m (fun a m' => R.keeps n m' ∧ m'.frames = m.frames ∧ m'.heap.atoms.Knows a)
      (intern name env m) :=
  step hs hk (.heap (m.heap.preserves_intern name)) fun hk' =>
    ⟨hk', rfl, AtomTable.knows_intern (hs.regular hk).ordered name⟩

theorem Ends.internOption (hs : R.Serves env) (hk : R.keeps n m) (name : Option String) :
    R.Ends n m (fun a m' => R.keeps n m' ∧ m'.frames = m.frames ∧
      ∀ atom, a = some atom → m'.heap.atoms.Knows atom) (internOption name env m) := by
  cases name with
  | none => exact ret ⟨hk, rfl, fun _ h => by cases h⟩
  | some name =>
    refine bind (Ends.intern hs hk name) fun a m' _ h => ret ⟨h.1, h.2.1, fun atom ha => ?_⟩
    obtain rfl := Option.some.inj ha
    exact h.2.2

/-- **A new function** of what is registered, over the scope of a frame; its name is known. -/
theorem Ends.newFunctionCell (hs : R.Serves env) (hk : R.keeps n m) {target : CallTarget}
    (htarget : m.Knows target) {scope : Option Handle} (hscope : scope = none ∨ ∃ f ∈ m.frames, scope = f.scope)
    {name : Option Atom} (hname : ∀ atom, name = some atom → m.heap.atoms.Knows atom)
    (arity : UInt32) : R.Ends n m (fun _ => R.keeps n) (newFunctionCell target scope name arity env m) := by
  have hsupplied : m.Supplies (.function { target, scope, name, arity }) := ⟨htarget, hscope⟩
  refine look (bind (Ends.allocate hs hk _ (fun data atom hp ha => hname atom ?_) hsupplied)
    fun function m' _ h => ?_)
  · rw [← ha]
    cases hp
    rfl
  · cases target with
    | host _ => exact ret h.1
    | script _ =>
      refine (Respects.bind .newObject fun prototype => .bind (.checkpoint _) fun _ =>
        .bind .look fun _ => ?_) env n m' hs h.1
      dsimp only
      split
      · exact .bind (.runHeap (.defineProperty _ _ _ _)) fun _ =>
          .bind (.runHeap (.defineProperty _ _ _ _)) fun _ => .ret _
      · exact .bind (.runHeap (.defineProperty _ _ _ _)) fun _ => .ret _

namespace Respects

/-- **A closure** over the scope of the running frame. -/
theorem newClosure (template : UInt32) : R.Respects (newClosure template) := by
  intro env n m hs hk
  refine .bind (.tearOffIfNeeded hs hk) ?_
  rintro _ m₁ - ⟨hk₁, -⟩
  refine .framed hk₁ fun f hf => .look ?_
  cases hcode : m₁.code? f.code with
  | none => exact fatal _ env n m₁ hs hk₁
  | some entry =>
    dsimp only
    cases hnested : entry.functions[template.toNat]? with
    | none => exact fatal _ env n m₁ hs hk₁
    | some code =>
      have hknows : m₁.Knows (.script code) :=
        ((hs.registered hk₁).codes entry (Array.mem_of_getElem? hcode)).functions code
          (Array.mem_of_getElem? hnested)
      refine .bind (.internOption hs hk₁ _) fun name m₂ ho h => ?_
      have hmem : f ∈ m₂.frames := by
        rw [h.2.1]
        exact Array.mem_of_back? hf
      exact .bind (.newFunctionCell hs h.1 (ho.knows _ hknows) (.inr ⟨f, hmem, rfl⟩) h.2.2 _)
        fun _ _ _ hk' => .ret hk'

/-! ### Frames -/

end Respects

/-- **A frame is pushed** for a handle that was issued and for registered code, or an error is raised. -/
theorem Ends.pushFrame (hs : R.Serves env) (hk : R.keeps n m) {function : Handle}
    (hi : m.heap.Issued function) {code : CodeId} (hcode : m.Knows (.script code)) (this : Value)
    (args : Array Value) (returnRegister : Option Register) (isConstruct entryBoundary : Bool) :
    R.Ends n m (fun _ => R.entered (n + 1))
      (pushFrame function code this args returnRegister isConstruct entryBoundary env m) := by
  refine look (ite (fun _ => Ends.raiseError hs hk _ _) fun _ =>
    ⟨⟨.refl _, fun _ h => h⟩, hs.push _ hk hi ⟨rfl, hcode, ?_, rfl, rfl⟩⟩)
  unfold captured
  dsimp only
  cases m.functionData? (.cell function) <;> rfl

/-- **What happens when a frame has been pushed**: it is announced first. -/
theorem Ends.functionEntry (hs : R.Serves env) (hk : R.entered n m) :
    R.Ends n m (fun compiled m' => R.keeps n m' ∧ ∀ l, compiled = some l → l.Modest)
      (functionEntry env m) :=
  bind (hs.enter hk) fun _ m₁ _ hk₁ => bind (Respects.checkInterrupt env n m₁ hs hk₁) fun _ _ _ hk₂ =>
    step hs hk₂ (.tierUp (hs.regular hk₂)) fun hk₃ => ⟨hk₃, fun _ h => (hs.registered hk₂).modest_of_tierUp h⟩

namespace Respects

/-- **The running frame is popped** after its end was announced. -/
theorem popFrame : R.Respects popFrame := by
  intro env n m hs hk
  refine .look (.ite (fun _ => .ret hk) fun hframes => ?_)
  refine .bind (hs.leave hk fun hempty => hframes (by simp [hempty])) fun _ m' _ hleft => ?_
  rw [modifyGet_run]
  cases hback : m'.frames.back? with
  | none =>
    have hpop := hs.pop m'.registers hleft
    rw [Array.back?_eq_none_iff.mp hback, Array.pop_empty, ← Array.back?_eq_none_iff.mp hback] at hpop
    exact ⟨.refl _, hpop⟩
  | some f => exact ⟨⟨.refl _, fun _ h => h⟩, hs.pop _ hleft⟩

theorem popFrames (count : Nat) : R.Respects (popFrames count) := by
  induction count with
  | zero => exact ret _
  | succ count ih => exact bind (discarded popFrame) fun _ => ih

theorem popFramesTo (depth : Nat) : R.Respects (popFramesTo depth) := bind look fun _ => popFrames _

theorem finishReturn (v : Value) : R.Respects (finishReturn v) := by
  refine bind (modifyHeap fun h => h.preserves_pushTemporary v) fun _ => bind popFrame fun popped => ?_
  cases popped with
  | none => exact ret _
  | some f => exact bind look fun _ => ret _

theorem enterHandler (v : Value) : R.Respects (enterHandler v) := by
  intro env n m hs hk
  cases hf : m.frame? with
  | none =>
    have hfind : m.findHandler = (none, m) := by
      unfold findHandler
      rw [hf]
    exact .step hs hk (by rw [hfind]) fun hk' => hk'
  | some f =>
    rw [enterHandler_eq hf]
    cases f.handler? m with
    | none => exact ⟨.refl _, hk⟩
    | some handler =>
      have hresumed : m.Silently (m.modifyFrame (·.resumed m.heap handler)) :=
        .single (.frame hf (.resumes m f handler))
      have hdelivered : m.Silently
          { m.modifyFrame (·.resumed m.heap handler) with pendingException := some v } :=
        hresumed.trans (Silently.beside rfl rfl rfl rfl rfl rfl rfl rfl)
      obtain ⟨hk', ho⟩ := hs.silently hk hdelivered
      exact ⟨ho, hk'⟩

theorem takeException : R.Respects takeException :=
  step fun _ _ => Silently.beside rfl rfl rfl rfl rfl rfl rfl rfl

theorem unwindFrames (entryDepth : Nat) (v : Value) (count : Nat) :
    R.Respects (unwindFrames entryDepth v count) := by
  induction count with
  | zero => exact unwind _
  | succ count ih =>
    refine bind (enterHandler v) fun handler => ?_
    cases handler with
    | some target => exact ret _
    | none => exact bind look fun _ => bind (discarded popFrame) fun _ => ite (unwind _) ih

theorem handleUnwind (entryDepth : Nat) (u : Unwind) : R.Respects (handleUnwind entryDepth u) := by
  cases u with
  | fatal failure => exact bind (popFramesTo _) fun _ => fatal _
  | throw v => exact bind look fun _ => unwindFrames _ _ _

/-! ### Callees -/

end Respects

theorem Ends.resolveFrom (hs : R.Serves env) (hk : R.keeps n m) (callee : Value) (site : Site)
    (isConstruct : Bool) {cached : Option (Handle × CallTarget)}
    (hcached : ∀ found, cached = some found → m.heap.Issued found.1 ∧ m.Knows found.2) :
    R.Ends n m (fun found m' => R.keeps n m' ∧ m'.heap.Issued found.1 ∧ m'.Knows found.2)
      (resolveFrom m callee site isConstruct cached env m) := by
  have hm := hs.regular hk
  cases cached with
  | some found => exact ret ⟨hk, hcached found rfl⟩
  | none =>
    unfold ScriptMachine.resolveFrom
    cases hid : callee.cell? with
    | none => exact raiseError hs hk _ _
    | some id =>
      cases hdata : m.functionData? callee with
      | none => exact raiseError hs hk _ _
      | some data =>
        rw [Value.cell?_eq_some.mp hid, functionData?_cell] at hdata
        obtain ⟨c, hc, hp⟩ := Heap.function?_eq_some.mp hdata
        have hi : m.heap.Issued id := fun _ => .inl (Heap.isLive_of_cell? hc)
        have hknows := (hs.registered hk).cells id c data hc hp
        exact bind (Q := fun _ => R.keeps n) (change hs hk (Silently.cacheTarget hm site hi hknows) fun hk' => hk')
          fun _ _ ho hk' => ret ⟨hk', ho.heap.issued id hi, ho.knows _ hknows⟩

/-- **A callee that was resolved** has a handle that was issued, and runs what is registered. -/
theorem Ends.resolveCallee (hs : R.Serves env) (hk : R.keeps n m) (callee : Value) (site : Site)
    (isConstruct : Bool) :
    R.Ends n m (fun found m' => R.keeps n m' ∧ m'.heap.Issued found.1 ∧ m'.Knows found.2)
      (resolveCallee callee site isConstruct env m) := by
  refine look (Ends.resolveFrom hs hk callee site isConstruct fun found h => ?_)
  split at h
  case h_1 id _ =>
    obtain ⟨target, htarget, rfl⟩ := Option.map_eq_some_iff.mp h
    exact ⟨(hs.regular hk).issued_of_cachedTarget? htarget,
      (hs.registered hk).knows_of_cachedTarget? htarget⟩
  case h_2 => cases h

namespace Respects

theorem constructReceiver (function : Handle) : R.Respects (constructReceiver function) := by
  refine bind look fun m => bind (settled _) fun prototype => ?_
  dsimp only
  split
  · exact bind (rootShape _ _) fun _ => bind (allocate _ (fun _ h => by cases h) fun _ => trivial) fun _ => ret _
  · exact bind (ret _) fun _ => bind (allocate _ (fun _ h => by cases h) fun _ => trivial) fun _ => ret _

theorem receiver (function : Handle) (this : Value) (isConstruct : Bool) :
    R.Respects (receiver function this isConstruct) := ite (constructReceiver _) (ret _)

/-! ### Instructions -/

theorem identifierAtom (code : CodeId) (index : UInt32) : R.Respects (identifierAtom code index) := by
  refine bind look fun m => ?_
  dsimp only
  split
  · exact ret _
  · exact fatal _

theorem stepReg (r : Register) : R.Respects (step.reg r) := bind look fun _ => ret _

theorem stepStore (dst : Register) (v : Value) : R.Respects (step.store dst v) :=
  bind (setRegister _ _) fun _ => ret _

theorem stepGoto (target : UInt32) : R.Respects (step.goto target) := bind (setPc _) fun _ => ret _

theorem tierStore (dst : Register) (v : Value) : R.Respects (tierStep.store dst v) :=
  bind (setRegister _ _) fun _ => ret _

/-- **Instructions that are no calls.** -/
theorem opcode (code : CodeId) {opcode : Opcode} (h : opcode.callResult? = none) :
    R.Respects (ScriptMachine.step code opcode) := by
  cases opcode with
  | call dst callee this firstArg argc cache => cases h
  | callMethod dst base name firstArg argc propertyCache cache => cases h
  | construct dst callee firstArg argc cache => cases h
  | loadConst dst index => exact bind look fun _ => stepStore _ _
  | loadUndefined dst | loadNull dst | loadBool dst value => exact stepStore _ _
  | loadThis dst => exact bind currentFrame fun _ => stepStore _ _
  | move dst src => exact bind (stepReg _) fun _ => stepStore _ _
  | binary op dst lhs rhs =>
    exact bind (stepReg _) fun _ => bind (stepReg _) fun _ => bind (applyBinary _ _ _) fun _ => stepStore _ _
  | unary op dst src =>
    exact bind (stepReg _) fun _ => bind (applyUnary _ _) fun _ => stepStore _ _
  | jump target => exact stepGoto _
  | jumpIf sense cond target => exact bind look fun _ => ite (stepGoto _) (ret _)
  | loop target => exact bind checkInterrupt fun _ => stepGoto _
  | newObject dst => exact bind newObject fun _ => stepStore _ _
  | newArray dst first count => exact bind look fun _ => bind (newArray _) fun _ => stepStore _ _
  | getById dst base name cache =>
    exact bind (stepReg _) fun _ => bind (identifierAtom _ _) fun _ => bind (getById _ _ _) fun _ =>
      stepStore _ _
  | putById base name value cache =>
    exact bind (stepReg _) fun _ => bind (stepReg _) fun _ => bind (identifierAtom _ _) fun _ =>
      bind (putById _ _ _ _) fun _ => ret _
  | getByVal dst base key =>
    exact bind (stepReg _) fun _ => bind (stepReg _) fun _ => bind (getByVal _ _) fun _ => stepStore _ _
  | putByVal base key value =>
    exact bind (stepReg _) fun _ => bind (stepReg _) fun _ => bind (stepReg _) fun _ =>
      bind (putByVal _ _ _) fun _ => ret _
  | deleteById dst base name =>
    exact bind (stepReg _) fun _ => bind (identifierAtom _ _) fun _ => bind (deleteById _ _) fun _ =>
      stepStore _ _
  | hasProperty dst key base =>
    exact bind (stepReg _) fun _ => bind (stepReg _) fun _ => bind (hasKey _ _) fun _ => stepStore _ _
  | instanceOf dst value constructor =>
    exact bind (stepReg _) fun _ => bind (stepReg _) fun _ => bind (instanceOf _ _) fun _ => stepStore _ _
  | getGlobal dst name cache =>
    exact bind (identifierAtom _ _) fun _ => bind (getGlobalById _ _) fun _ => stepStore _ _
  | putGlobal name value cache =>
    exact bind (identifierAtom _ _) fun _ => bind (stepReg _) fun _ => bind (putGlobalById _ _ _) fun _ =>
      ret _
  | pushScope layout => exact bind (pushScope _) fun _ => ret _
  | popScope => exact bind popScope fun _ => ret _
  | getScopedVar dst depth index => exact bind look fun _ => stepStore _ _
  | putScopedVar depth index value => exact bind (stepReg _) fun _ => bind (setScopedVar _ _ _) fun _ => ret _
  | resolveName dst name =>
    exact bind (identifierAtom _ _) fun _ => bind (resolveName _) fun _ => stepStore _ _
  | argumentsObject dst => exact bind argumentsObject fun _ => stepStore _ _
  | newFunction dst function => exact bind (newClosure _) fun _ => stepStore _ _
  | ret src => exact bind (stepReg _) fun _ => ret _
  | throw src => exact bind (stepReg _) fun _ => raise _
  | catchInto dst => exact bind takeException fun _ => stepStore _ _
  | debug line => exact bind (report _ _ _ (.inl rfl)) fun _ => ret _

theorem fetch : R.Respects fetch := by
  refine step fun m _ => ?_
  split
  · exact .refl
  · split
    · exact .refl
    · split
      · exact Silently.setPc m _
      · exact .refl

theorem truncateTemporaries (mark : Nat) : R.Respects (ScriptMachine.modifyHeap (·.truncateTemporaries mark)) :=
  modifyHeap fun h => h.preserves_truncateTemporaries mark

theorem settleReturn (entryDepth mark : Nat) (value : Value) :
    R.Respects (settleReturn entryDepth mark value) := by
  refine bind look fun m => bind (finishReturn _) fun r => ite (bind (modifyHeap fun h => ?_) fun _ => ret _)
    (bind (change fun m _ => ?_) fun _ => ret _)
  · exact (h.preserves_truncateTemporaries mark).trans (Heap.preserves_pushTemporary _ _)
  · refine .trans ?_ (Silently.heap (Heap.preserves_truncateTemporaries _ mark))
    cases r.2 with
    | some dst => exact Silently.setRegister m dst r.1
    | none => exact .refl

theorem settle (entryDepth mark : Nat) (flow : Except Unwind Flow) :
    R.Respects (settle entryDepth mark flow) := by
  cases flow with
  | ok flow =>
    cases flow with
    | next => exact bind (truncateTemporaries mark) fun _ => ret _
    | ret value => exact settleReturn entryDepth mark value
  | error u =>
    refine bind (attempt (handleUnwind _ _)) fun r => ?_
    cases r with
    | ok _ => exact bind (truncateTemporaries mark) fun _ => ret _
    | error u =>
      refine bind (modifyHeap fun h => ?_) fun _ => unwind _
      cases u with
      | throw value => exact (h.preserves_truncateTemporaries mark).trans (Heap.preserves_pushTemporary _ _)
      | fatal failure => exact h.preserves_truncateTemporaries mark

theorem settleOperation (code : Lowered) (index : Nat) (flow : Except Unwind TierStep) :
    R.Respects (settleOperation code index flow) := by
  cases flow with
  | ok flow => cases flow <;> exact ret _
  | error u =>
    cases u with
    | fatal failure => exact unwind _
    | throw v =>
      refine bind (enterHandler v) fun handler => ?_
      cases handler with
      | some pc => exact ret _
      | none => exact unwind _

/-! ### Programs and questions -/

theorem mapM {f : α → MachineM β} (hf : ∀ a, R.Respects (f a)) (items : Array α) :
    R.Respects (items.mapM f) := by
  have hlist (items : List α) : R.Respects (items.mapM f) := by
    induction items with
    | nil => exact ret _
    | cons a items ih =>
      rw [List.mapM_cons]
      exact bind (hf a) fun _ => bind ih fun _ => ret _
  rw [Array.mapM_eq_mapM_toList, map_eq_pure_bind]
  exact bind (hlist _) fun _ => ret _

theorem constantValue (c : Constant) : R.Respects (constantValue c) := by
  cases c with
  | string text => exact newString _
  | _ => exact ret _

end Respects

mutual

/-- **Code is registered** with call sites that remember nothing, its nested functions first. -/
theorem Ends.registerCode (hs : R.Serves env) {m : Machine} (hk : R.keeps n m) (block : Block) :
    R.Ends n m (fun code m' => R.keeps n m' ∧ m'.Knows (.script code)) (registerCode block env m) := by
  cases block with
  | mk name instructions constants identifiers functions scopeLayouts handlers variableIds
      paramCount varCount registerCount needsActivation propertyCacheCount callCacheCount =>
    unfold ScriptMachine.registerCode
    refine bind (Ends.registerAll hs hk functions) fun nested m₁ _ h₁ => ?_
    refine bind (Respects.mapM .intern identifiers env n m₁ hs h₁.1) fun atoms m₂ ho₂ hk₂ => ?_
    refine bind (Respects.mapM .constantValue constants env n m₂ hs hk₂) fun values m₃ ho₃ hk₃ => ?_
    refine pass hs hk₃ (look ?_)
    refine bind (Q := fun _ m' => R.keeps n m' ∧ m'.codes.size = m₃.codes.size + 1)
      (change hs hk₃ (.single (.recode (fun entry hentry => ?_) (recodes_push (fun code hcode => ?_) rfl ?_)))
        fun hk' => ⟨hk', Array.size_push _⟩) fun _ _ _ h => ret ⟨h.1, ?_⟩
    · rcases Array.mem_push.mp hentry with hentry | rfl
      · exact (hs.regular hk₃).codes entry hentry
      · intro cache hcache callee target hmem
        have hnew : cache = .uninitialized := (Array.mem_replicate.mp hcache).2
        rw [hnew] at hmem
        cases hmem
    · exact ho₃.knows _ (ho₂.knows _ (h₁.2 code (List.mem_toArray.mp hcode)))
    · exact fun cache hcache => (Array.mem_replicate.mp hcache).2
    · exact Nat.lt_of_lt_of_eq (Nat.lt_succ_self _) h.2.symm

theorem Ends.registerAll (hs : R.Serves env) {m : Machine} (hk : R.keeps n m) (blocks : List Block) :
    R.Ends n m (fun codes m' => R.keeps n m' ∧ ∀ code ∈ codes, m'.Knows (.script code))
      (registerAll blocks env m) := by
  cases blocks with
  | nil => exact ret ⟨hk, by simp⟩
  | cons block blocks =>
    unfold ScriptMachine.registerAll
    refine bind (Ends.registerCode hs hk block) fun code m₁ _ h₁ =>
      bind (Ends.registerAll hs h₁.1 blocks) fun codes m₂ ho h₂ => ret ⟨h₂.1, fun other hother => ?_⟩
    rcases List.mem_cons.mp hother with rfl | hother
    · exact ho.knows _ h₁.2
    · exact h₂.2 other hother

end

namespace Respects

theorem load (block : Block) : R.Respects (load block) := by
  intro env n m hs hk
  unfold ScriptMachine.load
  cases block.validate with
  | error defect => exact fatal _ env n m hs hk
  | ok _ =>
    exact .bind (.registerCode hs hk block) fun code _ _ h₁ => .bind (.internOption hs h₁.1 _) fun _ _ ho h₂ =>
      .bind (.newFunctionCell hs h₂.1 (ho.knows _ h₁.2) (.inl rfl) h₂.2.2 _) fun _ _ _ hk' => .ret hk'

theorem tryCall {x : MachineM α} (hx : R.Respects x) : R.Respects (tryCall x) := by
  refine bind (attempt hx) fun r => ?_
  cases r with
  | ok a => exact ret _
  | error u => exact ret _

end Respects

end Regime

/-- The question calls nothing and writes nothing down. -/
def HostQuery.isQuiet : HostQuery → Bool
  | .call .. | .construct .. | .stub .. | .record _ => false
  | _ => true

/-- The routine calls something. -/
def Routine.calls : Routine → Bool
  | .call | .construct => true
  | _ => false

namespace Regime.Respects

variable {R : Regime}

theorem setProperty (object : Value) (name : String) (v : Value) : R.Respects (setProperty object name v) :=
  bind (intern name) fun _ => putById _ _ _ _

/-- **Questions that call nothing** and write nothing down. -/
theorem answer {query : HostQuery} (h : query.isQuiet = true) : R.Respects (answer query) := by
  cases query with
  | call _ _ _ | construct _ _ | stub _ _ | record _ => cases h
  | display _ | number _ | depth | register _ | scopedVar _ _ | describe _ =>
    exact bind look fun _ => ret _
  | newString text => exact tryCall (newString _)
  | newArray items => exact tryCall (newArray _)
  | newObject => exact tryCall newObject
  | newError kind message => exact tryCall (newError _ _)
  | setProperty object name v => exact tryCall (setProperty _ _ _)
  | defineProperty object name v attributes =>
    refine tryCall (bind (intern name) fun _ => bind look fun m => ?_)
    split
    · exact runHeap (.defineProperty _ _ _ _)
    · exact raiseError _ _
  | setPrototype object prototype =>
    refine tryCall (bind look fun m => ?_)
    split
    · exact runHeap (.setPrototype _ _)
    · exact raiseError _ _
  | setGlobal name v => exact tryCall (bind look fun _ => setProperty _ _ _)
  | getGlobal name =>
    exact bind (intern name) fun _ => bind look fun _ => bind (settled _) fun _ =>
      ite (bind (settled _) fun _ => ret _) (ret _)
  | collect => exact collectGarbage
  | release =>
    refine change fun m _ => ?_
    unfold releaseTemporaries
    split
    · exact Silently.heap (.of_slots rfl rfl rfl rfl rfl rfl)
    · exact .refl
  | interrupt => exact change fun _ _ => Silently.beside rfl rfl rfl rfl rfl rfl rfl rfl
  | intern name => exact intern name
  | locate name => exact bind (intern name) fun _ => bind look fun _ => settled _

/-! ### Stubs -/

/-- **Routines that call nothing.** -/
theorem runRoutine (f : StubFrame) {routine : Routine} (h : routine.calls = false)
    (hmoves : R.Lenient ∨ routine ≠ .tearOffActivation) : R.Respects (runRoutine f routine) := by
  cases routine with
  | call | construct => cases h
  | binary op => exact bind (applyBinary _ _ _) fun _ => ret _
  | unary op => exact bind (applyUnary _ _) fun _ => ret _
  | getById => exact bind (getById _ _ _) fun _ => ret _
  | putById => exact bind (putById _ _ _ _) fun _ => ret _
  | getByVal => exact bind (getByVal _ _) fun _ => ret _
  | putByVal => exact bind (putByVal _ _ _) fun _ => ret _
  | deleteById => exact bind (deleteById _ _) fun _ => ret _
  | hasProperty => exact bind (hasKey _ _) fun _ => ret _
  | instanceOf => exact bind (instanceOf _ _) fun _ => ret _
  | getGlobal => exact bind (getGlobalById _ _) fun _ => ret _
  | putGlobal => exact bind (putGlobalById _ _ _) fun _ => ret _
  | newObject => exact bind newObject fun _ => ret _
  | newArray => exact bind (newArray _) fun _ => ret _
  | newFunction => exact bind (newClosure _) fun _ => ret _
  | callArityCheck =>
    refine bind look fun m => ?_
    split
    · exact ret _
    · exact raiseError _ _
  | tearOffActivation =>
    have hlenient := hmoves.resolve_right fun h => h rfl
    exact fun env n m hs hk => .bind (.tearOffActivation hs hk (.inl hlenient)) fun _ _ _ h => .ret h.1
  | pushScope => exact bind (pushScope _) fun _ => ret _
  | popScope => exact bind popScope fun _ => ret _
  | getScopedVar => exact bind look fun _ => ret _
  | putScopedVar => exact bind (setScopedVar _ _ _) fun _ => ret _
  | resolve => exact bind (resolveName _) fun _ => ret _
  | argumentsObject => exact bind argumentsObject fun _ => ret _
  | throw => exact raise _
  | timeoutCheck => exact bind checkInterrupt fun _ => ret _
  | registerFileCheck => exact bind (bind look fun _ => ite (raiseError _ _) (ret _)) fun _ => ret _
  | debugStatement => exact bind (report _ _ _ (.inl rfl)) fun _ => ret _

theorem pushStubFrame (frame : StubFrame) : R.Respects
    (modify fun m => { m with stubFrames := m.stubFrames.push frame } : MachineM Unit) :=
  change fun _ _ => Silently.beside rfl rfl rfl rfl rfl rfl rfl rfl

theorem popStubFrame : R.Respects
    (modify fun m => { m with stubFrames := m.stubFrames.pop } : MachineM Unit) :=
  change fun _ _ => Silently.beside rfl rfl rfl rfl rfl rfl rfl rfl

/-- What a stub raised is parked. -/
theorem park (u : Unwind) : R.Respects
    (modify fun m => { m with stubUnwind := some u } : MachineM Unit) :=
  change fun _ _ => Silently.beside rfl rfl rfl rfl rfl rfl rfl rfl

theorem takeStubUnwind : R.Respects takeStubUnwind :=
  step fun _ _ => Silently.beside rfl rfl rfl rfl rfl rfl rfl rfl

/-- A stub call of tier code is counted. -/
theorem countStubCall (pc : UInt32) :
    R.Respects (modify fun m => (m.setPc (pc + 1)).countStubCall : MachineM Unit) :=
  change fun m _ => (Silently.setPc m _).trans (Silently.beside rfl rfl rfl rfl rfl rfl rfl rfl)

theorem callStub {routine : Routine} (h : routine.calls = false)
    (hmoves : R.Lenient ∨ routine ≠ .tearOffActivation) (words : List StubWord) :
    R.Respects (callStub routine words) := by
  rw [callStub_eq]
  refine bind look fun m => bind (pushStubFrame _) fun _ => bind (attempt (runRoutine _ h hmoves)) fun r =>
    bind popStubFrame fun _ => ?_
  cases r with
  | ok answer => exact ret _
  | error u => exact bind (park u) fun _ => ret _

theorem tierStub (pc : UInt32) {routine : Routine} (h : routine.calls = false)
    (hmoves : R.Lenient ∨ routine ≠ .tearOffActivation) (words : List StubWord) :
    R.Respects (tierStub pc routine words) :=
  bind (countStubCall pc) fun _ => bind (callStub h hmoves words) fun _ =>
    ite (bind takeStubUnwind fun _ => unwind _) (ret _)

theorem tierBinary (pc : UInt32) (op : BinaryOp) (lhs rhs : Register) :
    R.Respects (tierBinary pc op lhs rhs) := by
  refine bind look fun m => ?_
  dsimp only
  split
  · exact ite (ret _) (tierStub pc rfl (.inr (by nofun)) _)
  · exact tierStub pc rfl (.inr (by nofun)) _

/-- **Operations of tier code** that are no stub calls of their own. -/
theorem tierStep (pc : UInt32) {op : TierOp} (hstub : ∀ routine dst args, op ≠ .stub routine dst args)
    (hcall : ∀ dst base name propertySite callSite args,
      op ≠ .callMethod dst base name propertySite callSite args) : R.Respects (tierStep pc op) := by
  cases op with
  | stub routine dst args => exact absurd rfl (hstub routine dst args)
  | callMethod dst base name propertySite callSite args =>
    exact absurd rfl (hcall dst base name propertySite callSite args)
  | loadValue dst value => exact tierStore _ _
  | loadConstant dst index | loadThis dst | move dst src => exact bind look fun _ => tierStore _ _
  | binary op dst lhs rhs => exact bind (tierBinary _ _ _ _) fun _ => tierStore _ _
  | unary op dst src =>
    refine bind look fun m => ?_
    dsimp only
    split
    · exact tierStore _ _
    · exact bind (tierStub pc rfl (.inr (by nofun)) _) fun _ => tierStore _ _
  | compareAndBranch op dst lhs rhs sense target fused =>
    exact bind (tierBinary _ _ _ _) fun _ => bind (discarded (tierStore _ _)) fun _ => ret _
  | jump target => exact ret _
  | branch cond sense target => exact bind look fun _ => ret _
  | loop target => exact bind (discarded (tierStub pc rfl (.inr (by nofun)) _)) fun _ => ret _
  | catchInto dst => exact bind takeException fun _ => tierStore _ _
  | ret src => exact bind look fun _ => ret _

end Regime.Respects

end ScriptMachine
