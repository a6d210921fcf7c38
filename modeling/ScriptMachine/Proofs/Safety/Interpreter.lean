import ScriptMachine.Proofs.Machine.Turn
import ScriptMachine.Proofs.Safety.Compiled

/-! # The interpreter is safe

Every instruction reads its operands from registers, which are guarded, and stores what it computes
right away. The loop releases temporaries between instructions, when no value is on its way. -/

namespace ScriptMachine

open Machine

/-- The value an instruction returns is held. -/
def Flow.Held (m : Machine) : Flow → Prop
  | .ret value => m.Holds value
  | .next => True

/-- How an instruction ends. -/
def Machine.Settles (m : Machine) : Except Unwind Flow → Prop
  | .ok flow => flow.Held m
  | .error u => m.Carries u

namespace Runs

variable {env : Env} {m : Machine} {code : CodeId} {callee this : Value} {args : Array Value}
  {site : Site} {isConstruct : Bool}

/-! ### Instructions -/

theorem identifierAtom (hs : m.Safe) (index : UInt32) :
    Runs env m (identifierAtom code index) fun atom m' =>
      m' = m ∧ m.heap.atoms.Knows atom := by
  refine look ?_
  cases hentry : m.code? code with
  | none => exact fatal hs fun _ => by simp
  | some entry =>
    dsimp only
    cases ha : entry.atoms[index.toNat]? with
    | none => exact fatal hs fun _ => by simp
    | some atom =>
      have hknown := hs.codes entry (Array.mem_of_getElem? hentry)
      exact ret hs ⟨rfl, hknown.atoms atom (Array.mem_of_getElem? ha)⟩

theorem store (hs : m.Safe) (dst : Register) {v : Value} (hv : m.Holds v) :
    Runs env m (step.store dst v) fun flow m' => flow.Held m' := by
  obtain ⟨hsafe, hgrows⟩ := hs.setRegister dst hv
  refine bind (Q := fun _ _ => True) (update hsafe hgrows trivial) ?_
  intro _ m' hs' _ _
  exact ret hs' trivial

/-- Storing the result of an action. -/
theorem stored {x : MachineM Value} (dst : Register) (hx : Runs env m x fun v m' => m'.Holds v) :
    Runs env m (x >>= step.store dst) fun flow m' => flow.Held m' := by
  refine bind hx ?_
  intro v m' hs' _ hv
  exact store hs' dst hv

theorem storedTest {x : MachineM Bool} (dst : Register) (hx : Runs env m x fun _ _ => True) :
    Runs env m (x >>= fun b => step.store dst (.boolean b)) fun flow m' => flow.Held m' := by
  refine bind hx ?_
  intro b m' hs' _ _
  exact store hs' dst (holds_of_not_cell (Value.cell?_boolean b))

theorem done {x : MachineM Unit} {Q : Unit → Machine → Prop} (hx : Runs env m x Q) :
    Runs env m (do x; return .next) fun flow m' => Flow.Held m' flow := by
  refine bind hx ?_
  intro _ m' hs' _ _
  exact ret hs' trivial

theorem goto (hs : m.Safe) (target : UInt32) :
    Runs env m (step.goto target) fun flow m' => flow.Held m' :=
  done (Q := fun _ _ => True) (update (hs.setPc target) (grows_of_heap rfl) trivial)

theorem guards_registerRange (hs : m.Safe) (first : Register) (count : UInt32) :
    ∀ v ∈ m.registerRange first count, m.Guards v := by
  intro v hv
  simp only [registerRange, List.mem_toArray, List.mem_map] at hv
  obtain ⟨r, -, rfl⟩ := hv
  exact hs.guards_register r

theorem guards_operands (hs : m.Safe) (first : Register) (count : UInt32) (hc : m.Guards callee)
    (ht : m.Guards this) :
    ∀ v ∈ callee :: this :: (m.registerRange first count).toList, m.Guards v := by
  intro v hv
  simp only [List.mem_cons, Array.mem_toList_iff] at hv
  rcases hv with rfl | rfl | hv
  · exact hc
  · exact ht
  · exact guards_registerRange hs first count v hv

/-- **A call from a frame.** -/
theorem callFromFrame (he : env.Sound) (hs : m.Safe) (dst : Register)
    (ho : Operands m callee this args isConstruct) :
    Runs env m (callFromFrame dst callee this args isConstruct site) fun _ _ => True := by
  refine bind (resolveCallee hs) ?_
  rintro ⟨function, target⟩ m₁ hs₁ _ ⟨hcallee, hsteady, hheap⟩
  refine callReady hs₁ (ho.congr hsteady hheap) hcallee ?_
  intro this' m₂ hs₂ hf ht hargs
  cases target with
  | host host =>
    refine bind (invokeHost he hs₂ host) ?_
    intro _ _ _ _ h
    exact h.elim
  | script code =>
    refine bind (pushFrame hs₂ code (some dst) false hf ht hargs) ?_
    intro _ m₃ hs₃ _ _
    refine bind (functionEntry hs₃) ?_
    intro compiled m₄ hs₄ _ hk
    cases compiled with
    | none => exact ret hs₄ trivial
    | some lowered =>
      refine bind (runCompiled he hs₄ (hk lowered rfl)) ?_
      intro value m₅ hs₅ _ hv
      obtain ⟨hsafe, hgrows⟩ := hs₅.setRegister dst hv
      exact update hsafe hgrows trivial

/-- **One instruction.** -/
theorem instruction (he : env.Sound) (hs : m.Safe) (opcode : Opcode) :
    Runs env m (ScriptMachine.step code opcode) fun flow m' => flow.Held m' := by
  cases opcode with
  | loadConst dst index =>
    refine look (store hs dst ?_)
    split
    case h_1 hentry => exact hs.holds_constant hentry _
    case h_2 => exact holds_of_not_cell (by simp)
  | loadUndefined dst => exact store hs dst (holds_of_not_cell (by simp))
  | loadNull dst => exact store hs dst (holds_of_not_cell (by decide))
  | loadBool dst value => exact store hs dst (holds_of_not_cell (Value.cell?_boolean value))
  | loadThis dst =>
    refine bind (currentFrame hs) ?_
    rintro f _ _ _ ⟨rfl, hf⟩
    exact store hs dst (hs.holds_this hf)
  | move dst src => exact look (store hs dst (hs.guards_register src).holds)
  | binary op dst lhs rhs => exact look (look (stored dst (applyBinary hs op _ _)))
  | unary op dst src => exact look (stored dst (applyUnary hs op _))
  | jump target => exact goto hs target
  | jumpIf sense cond target => exact look (ite (fun _ => goto hs target) fun _ => ret hs trivial)
  | loop target =>
    refine bind (checkInterrupt hs) ?_
    intro _ m₁ hs₁ _ _
    exact goto hs₁ target
  | newObject dst => exact stored dst (Allocated.holds (newObject hs))
  | newArray dst first count =>
    refine look (stored dst (Allocated.holds (newArray hs fun v hv => ?_)))
    exact guards_registerRange hs first count v hv
  | getById dst base name cache =>
    refine look (bind (identifierAtom hs name) ?_)
    rintro atom _ hs _ ⟨rfl, hk⟩
    exact stored dst ((getById hs hk).mono fun _ _ h => h.2.2)
  | putById base name value cache =>
    refine look (look (bind (identifierAtom hs name) ?_))
    rintro atom _ hs _ ⟨rfl, hk⟩
    exact done (putById hs hk (hs.guards_register base) (hs.guards_register value))
  | getByVal dst base key => exact look (look (stored dst (getByVal hs)))
  | putByVal base key value =>
    exact look (look (look (done (putByVal hs (hs.guards_register base)
      (hs.guards_register value)))))
  | deleteById dst base name =>
    refine look (bind (identifierAtom hs name) ?_)
    rintro atom _ hs _ ⟨rfl, hk⟩
    exact storedTest dst ((deleteById hs).mono fun _ _ _ => trivial)
  | hasProperty dst key base => exact look (look (storedTest dst (hasKey hs)))
  | instanceOf dst value constructor => exact look (look (storedTest dst (instanceOf hs)))
  | getGlobal dst name cache =>
    refine bind (identifierAtom hs name) ?_
    rintro atom _ hs _ ⟨rfl, hk⟩
    exact stored dst (getGlobalById hs hk)
  | putGlobal name value cache =>
    refine bind (identifierAtom hs name) ?_
    rintro atom _ hs _ ⟨rfl, hk⟩
    exact look (done (putGlobalById hs hk (hs.guards_register value)))
  | pushScope layout => exact done (pushScope hs layout)
  | popScope =>
    exact done (Q := fun _ _ => True) (update hs.popScope (grows_of_heap (heap_popScope m)) trivial)
  | getScopedVar dst depth index => exact look (store hs dst (hs.holds_scopedVar depth index))
  | putScopedVar depth index value =>
    obtain ⟨hsafe, hgrows, -⟩ := hs.setScopedVar depth index (hs.guards_register value).holds
    exact look (done (Q := fun _ _ => True) (update hsafe hgrows trivial))
  | resolveName dst name =>
    refine bind (identifierAtom hs name) ?_
    rintro atom _ hs _ ⟨rfl, -⟩
    exact stored dst (resolveName hs)
  | argumentsObject dst => exact stored dst (argumentsObject hs)
  | newFunction dst function => exact stored dst (newClosure hs function)
  | call dst callee this firstArg argc cache =>
    refine look (done (callFromFrame he hs dst ⟨fun v hv => ?_, fun h => by cases h⟩))
    exact (guards_operands hs firstArg argc (hs.guards_register callee) (hs.guards_register this)
      v hv).holds
  | callMethod dst base name firstArg argc propertyCache cache =>
    have hbase := (hs.guards_register base).holds
    refine look (bind (identifierAtom hs name) ?_)
    rintro atom _ hs _ ⟨rfl, hk⟩
    refine bind (getById hs hk) ?_
    rintro method m₁ hs₁ _ ⟨-, hheap, hmethod⟩
    refine look (done (callFromFrame he hs₁ dst ⟨fun v hv => ?_, fun h => by cases h⟩))
    simp only [List.mem_cons, Array.mem_toList_iff] at hv
    rcases hv with rfl | rfl | hv
    · exact hmethod
    · exact hbase.congr hheap
    · exact (guards_registerRange hs₁ firstArg argc v hv).holds
  | construct dst callee firstArg argc cache =>
    have hops : ∀ v ∈ m.register callee :: .undefined :: (m.registerRange firstArg argc).toList,
        m.Guards v :=
      guards_operands hs firstArg argc (hs.guards_register callee) (guards_of_not_cell (by simp))
    exact look (done (callFromFrame he hs dst ⟨fun v hv => (hops v hv).holds, fun _ => hops⟩))
  | ret src => exact look (ret hs (hs.guards_register src).holds)
  | throw src => exact look (raise hs (hs.guards_register src).holds)
  | catchInto dst => exact stored dst (takeException hs)
  | debug line => exact done (notifyAt hs _ _ _)

/-! ### Unwinding -/

theorem unwindFrames (hs : m.Safe) (entryDepth : Nat) {value : Value} (hv : m.Holds value)
    (count : Nat) : Runs env m (unwindFrames entryDepth value count) fun _ _ => True := by
  induction count generalizing m with
  | zero => exact unwind hs hv
  | succ count ih =>
    refine bind (enterHandler hs hv) ?_
    intro handler m₁ hs₁ _ hheap
    have hv₁ := Holds.congr hv hheap
    cases handler with
    | some _ => exact ret hs₁ trivial
    | none =>
      refine look (bind (Q := fun _ m' => m'.heap = m₁.heap) (bind (popFrame hs₁) ?_) ?_)
      · intro _ m₂ hs₂ _ h
        exact ret hs₂ h.1
      · intro _ m₂ hs₂ _ hheap₂
        have hv₂ := Holds.congr hv₁ hheap₂
        exact ite (fun _ => unwind hs₂ hv₂) fun _ => ih hs₂ hv₂

theorem handleUnwind (hs : m.Safe) (entryDepth : Nat) {u : Unwind} (hu : m.Carries u) :
    Runs env m (handleUnwind entryDepth u) fun _ _ => True := by
  cases u with
  | throw value => exact look (unwindFrames hs entryDepth hu _)
  | fatal failure =>
    refine bind (popFramesTo hs entryDepth) ?_
    intro _ m₁ hs₁ _ hheap
    exact unwind hs₁ (Carries.congr hu hheap)

/-! ### The loop -/

theorem fetch (hs : m.Safe) : Runs env m fetch fun _ _ => True := by
  cases hf : m.frame? with
  | none => exact stepTo (by rw [hf]) hs (.refl m) trivial
  | some f =>
    cases hentry : m.code? f.code with
    | none => exact stepTo (by rw [hf]; simp only [hentry]; rfl) hs (.refl m) trivial
    | some entry =>
      cases hi : entry.block.instructions[f.pc.toNat]? with
      | none => exact stepTo (by rw [hf]; simp only [hentry, hi]; rfl) hs (.refl m) trivial
      | some instruction =>
        exact stepTo (by rw [hf]; simp only [hentry, hi]; rfl) (hs.setPc (f.pc + 1))
          (grows_of_heap rfl) trivial

/-- Releasing temporaries, but for a value on its way. -/
theorem release (hs : m.Safe) (mark : Nat) {value : Value} (hv : m.Holds value) :
    Runs env m (ScriptMachine.modifyHeap fun h => (h.truncateTemporaries mark).pushTemporary value)
      fun _ m' => m'.Holds value := by
  have hs₁ := hs.truncate mark
  have hv₁ := hv.truncate mark
  have hc : Heap.Changes (Machine.Holds { m with heap := m.heap.truncateTemporaries mark })
      (m.heap.truncateTemporaries mark)
      ((m.heap.truncateTemporaries mark).pushTemporary value) := .single (.protect hv₁)
  exact update (hs₁.changes hc) ((grows_truncate m mark).trans (grows_changes hs₁ hc))
    (hv₁.changes hs₁ hc)

/-- **The running frame returns a value.** -/
theorem settleReturn (hs : m.Safe) (entryDepth mark : Nat) {value : Value} (hv : m.Holds value) :
    Runs env m (settleReturn entryDepth mark value) fun r m' => ∀ v, r = some v → m'.Holds v := by
  refine look (bind (finishReturn hs hv) ?_)
  rintro ⟨result, register⟩ m₁ hs₁ _ hv₁
  refine ite (fun _ => ?_) fun _ => ?_
  · refine bind (release hs₁ mark hv₁) ?_
    intro _ m₂ hs₂ _ hv₂
    exact ret hs₂ fun v h => Option.some.inj h ▸ hv₂
  · refine bind (Q := fun _ _ => True) ?_ fun _ m₂ hs₂ _ _ => ret hs₂ fun _ h => by cases h
    cases register with
    | none => exact update (hs₁.truncate mark) (grows_truncate m₁ mark) trivial
    | some r =>
      obtain ⟨hsafe, hgrows⟩ := hs₁.setRegister r hv₁
      exact update (hsafe.truncate mark) (hgrows.trans (grows_truncate _ mark)) trivial

/-- **The end of an instruction.** -/
theorem settle (hs : m.Safe) (entryDepth mark : Nat) {flow : Except Unwind Flow}
    (hflow : m.Settles flow) :
    Runs env m (settle entryDepth mark flow) fun r m' => ∀ v, r = some v → m'.Holds v := by
  have hagain {m₁ : Machine} (hs₁ : m₁.Safe) : Runs env m₁ (do
      ScriptMachine.modifyHeap (·.truncateTemporaries mark)
      return none) fun r m' => ∀ v, r = some v → m'.Holds v :=
    bind (truncate hs₁ mark) fun _ _ hs₂ _ _ => ret hs₂ fun _ h => by cases h
  cases flow with
  | ok flow =>
    cases flow with
    | next => exact hagain hs
    | ret value => exact settleReturn hs entryDepth mark hflow
  | error u =>
    refine bind (attempt (handleUnwind hs entryDepth hflow)) ?_
    intro r m₁ hs₁ _ hr
    cases r with
    | ok _ => exact hagain hs₁
    | error u =>
      cases u with
      | throw value =>
        refine bind (release hs₁ mark hr) ?_
        intro _ m₂ hs₂ _ hv₂
        exact unwind hs₂ hv₂
      | fatal failure =>
        refine bind (Q := fun _ m' => m₁.Grows m') ?_ ?_
        · exact update (hs₁.truncate mark) (grows_truncate m₁ mark) (grows_truncate m₁ mark)
        · intro _ m₂ hs₂ hg₂ _
          exact unwind hs₂ fun ha => hr (hg₂.addressable ha)

/-- **One turn of the loop.** -/
theorem turn (he : env.Sound) (hs : m.Safe) (entryDepth mark : Nat) :
    Runs env m (turn entryDepth mark) fun r m' => ∀ v, r = some v → m'.Holds v := by
  have hinstruction : Runs env m ScriptMachine.instruction fun r m' =>
      ∀ flow, r = some flow → m'.Settles flow := by
    refine pass hs (by simp) (bind (fetch hs) ?_)
    intro fetched m₁ hs₁ _ _
    cases fetched with
    | none => exact ret hs₁ fun _ h => by cases h
    | some fetched =>
      obtain ⟨code, opcode⟩ := fetched
      cases opcode with
      | none => exact ret hs₁ fun _ h => Option.some.inj h ▸ holds_of_not_cell (by decide)
      | some opcode =>
        refine bind (attempt (instruction he hs₁ opcode)) ?_
        intro flow m₂ hs₂ _ hflow
        refine ret hs₂ fun _ h => Option.some.inj h ▸ ?_
        cases flow <;> exact hflow
  refine bind hinstruction ?_
  intro r m₁ hs₁ _ hr
  cases r with
  | none => exact ret hs₁ fun _ h => Option.some.inj h ▸ holds_of_not_cell (by decide)
  | some flow => exact settle hs₁ entryDepth mark (hr flow rfl)

/-- **The loop.** -/
theorem runLoop (he : env.Sound) (hs : m.Safe) (entryDepth mark fuel : Nat) :
    Runs env m (runLoop entryDepth mark fuel) fun v m' => m'.Holds v := by
  induction fuel generalizing m with
  | zero => exact exhausted hs
  | succ fuel ih =>
    rw [runLoop_succ]
    refine bind (turn he hs entryDepth mark) ?_
    intro r m₁ hs₁ _ hr
    cases r with
    | none => exact ih hs₁
    | some value => exact ret hs₁ (hr value rfl)

theorem execute (he : env.Sound) (hs : m.Safe) (entryDepth : Nat) :
    Runs env m (execute entryDepth) fun v m' => m'.Holds v :=
  look (ask (fun _ h => by rw [h]) (runLoop he hs _ _ _))

/-- **Running the top frame.** -/
theorem runFrame (he : env.Sound) (hs : m.Safe) :
    Runs env m runFrame fun v m' => m'.Holds v := by
  refine look (bind (attempt (functionEntry hs)) ?_)
  intro r m₁ hs₁ _ hr
  cases r with
  | ok compiled =>
    cases compiled with
    | none => exact execute he hs₁ _
    | some lowered => exact runCompiled he hs₁ (hr lowered rfl)
  | error u =>
    refine bind (popFramesTo hs₁ _) ?_
    intro _ m₂ hs₂ _ hheap
    exact unwind hs₂ (Carries.congr hr hheap)

end Runs

end ScriptMachine
