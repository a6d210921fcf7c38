import ScriptMachine.Proofs.Safety.Interpreter
import ScriptMachine.Proofs.Stack.Loop
import ScriptMachine.Proofs.Tandem.Compiled

/-! # The interpreter of two runs

Twin machines are at the same instruction, whose operands match; so it does the same in both
(`Meets.instruction`). An exception finds the same handler, and frames return to the same callers, so the
loops take the same turns (`Meets.runLoop`). -/

namespace ScriptMachine

open Machine

variable {α β : Type} {ρ ρ' : Pairing} {m m' k k' : Machine} {v w : Value} {env env' : Env}
  {code : CodeId} {callee callee' this this' : Value} {args args' : Array Value} {site : Site}
  {isConstruct : Bool} {name : Atom}

/-- **What becomes of the frames of two runs.** -/
inductive Flow.Both (ρ : Pairing) (h h' : Heap) : Flow → Flow → Prop
  | next : Both ρ h h' .next .next
  | ret {v w : Value} : Heap.Both ρ h h' v w → Both ρ h h' (.ret v) (.ret w)

/-- The results are flows alike. -/
def Flows (ρ : Pairing) (s : Flow) (m : Machine) (s' : Flow) (m' : Machine) : Prop :=
  Flow.Both ρ m.heap m'.heap s s'

/-- The instruction is one of the code. -/
def Machine.Lists (m : Machine) (code : CodeId) (opcode : Opcode) : Prop :=
  ∃ entry, m.code? code = some entry ∧ ∃ instruction ∈ entry.block.instructions,
    instruction.opcode = opcode

/-- The code has the name at the place of an identifier. -/
def Machine.Spells (m : Machine) (code : CodeId) (index : UInt32) (name : Atom) : Prop :=
  ∃ entry, m.code? code = some entry ∧ entry.atoms[index.toNat]? = some name

/-- What an instruction cites. -/
theorem Machine.Lists.cites {opcode : Opcode} (hl : m.Lists code opcode) (hfit : m.heap.atoms.Fits)
    {cache index : UInt32} (hs : m.Spells code index name)
    (hop : opcode.propertySite? = some (cache, index)) : m.Cites (some (code, cache)) name := by
  obtain ⟨entry, hcode, instruction, hmem, rfl⟩ := hl
  obtain ⟨entry', hcode', hname⟩ := hs
  obtain rfl := Option.some.inj (hcode.symm.trans hcode')
  intro id site hsite
  obtain ⟨rfl, rfl⟩ := Prod.mk.inj (Option.some.inj hsite)
  exact ⟨hfit, entry, hcode, instruction, hmem, cache, index, hop, rfl, hname⟩

/-- What escapes from an instruction goes on in the loop. -/
theorem Escapes.settle (hl : m.listeners = #[]) (entryDepth mark bytes : Nat) :
    Escapes (settle entryDepth mark (.error (.fatal (.outOfMemory bytes))) env m) :=
  Escapes.attempt (Escapes.popFramesTo hl entryDepth) fun _ _ hl => .memory hl

namespace Meets

/-- Changes of the machines that are known. -/
theorem stepTo {g g' : Machine → α × Machine} {Q : Pairing → α → Machine → α → Machine → Prop} {a b : α}
    (hg : g m = (a, k)) (hg' : g' m' = (b, k')) (ht : k.Twins ρ k') (hq : Q ρ a k b k') :
    Meets ρ Q ((modifyGet g : MachineM α) env m) ((modifyGet g' : MachineM α) env' m') := by
  rw [modifyGet_run, modifyGet_run, hg, hg']
  exact .ok (List.Subset.refl ρ) ht hq

/-! ### Parts of instructions -/

theorem identifierAtom (ht : m.Twins ρ m') (index : UInt32) :
    Meets ρ (fun ρ₁ a k b k' => (b = a ∧ ρ₁ = ρ ∧ k = m ∧ k' = m') ∧ m.heap.atoms.Knows a ∧
      m.Spells code index a) (identifierAtom code index env m) (identifierAtom code index env' m') := by
  refine look ?_
  rcases Option.rel_iff.mp (ht.code? code) with ⟨hx, hy⟩ | ⟨e, e', hx, hy, he⟩
  · rw [hx, hy]
    exact failed ht _
  · rw [hx, hy]
    dsimp only
    rw [he.atoms]
    cases ha : e.atoms[index.toNat]? with
    | none => exact failed ht _
    | some a =>
      refine ret ht ⟨⟨rfl, rfl, rfl, rfl⟩, ?_, e, hx, ha⟩
      exact (ht.safe.codes e (Array.mem_of_getElem? hx)).atoms a (Array.mem_of_getElem? ha)

theorem store (ht : m.Twins ρ m') (dst : Register) (hb : Heap.Both ρ m.heap m'.heap v w) :
    Meets ρ Flows (step.store dst v env m) (step.store dst w env' m') :=
  bind (Q := fun _ _ _ _ _ => True) (update (ht.setRegister dst hb) trivial)
    fun _ _ _ _ _ _ hk _ => ret hk .next

/-- Storing the results of actions. -/
theorem stored {x x' : MachineM Value} (dst : Register) (hx : Meets ρ Vals (x env m) (x' env' m')) :
    Meets ρ Flows ((x >>= step.store dst) env m) ((x' >>= step.store dst) env' m') :=
  bind hx fun _ _ _ _ _ _ hk hv => store hk dst hv

theorem storedTest {x x' : MachineM Bool} (dst : Register) (hx : Meets ρ Same (x env m) (x' env' m')) :
    Meets ρ Flows ((x >>= fun b => step.store dst (.boolean b)) env m)
      ((x' >>= fun b => step.store dst (.boolean b)) env' m') := by
  refine bind hx fun ρ₁ a k b k' _ hk hab => ?_
  obtain rfl := hab
  exact store hk dst (.word (Value.cell?_boolean b))

theorem done {Q : Pairing → PUnit → Machine → PUnit → Machine → Prop} {x x' : MachineM PUnit}
    (hx : Meets ρ Q (x env m) (x' env' m')) :
    Meets ρ Flows ((x >>= fun _ => pure .next) env m) ((x' >>= fun _ => pure .next) env' m') :=
  bind hx fun _ _ _ _ _ _ hk _ => ret hk .next

theorem goto (ht : m.Twins ρ m') (target : UInt32) :
    Meets ρ Flows (step.goto target env m) (step.goto target env' m') :=
  done (Q := fun _ _ _ _ _ => True) (update (ht.setPc target) trivial)

/-- What comes after the name of an identifier. -/
theorem named {R : Pairing → α → Machine → β → Machine → Prop} (ht : m.Twins ρ m') (index : UInt32)
    {f : Atom → MachineM α} {f' : Atom → MachineM β}
    (hf : ∀ name, m.heap.atoms.Knows name → m.Spells code index name →
      Meets ρ R (f name env m) (f' name env' m')) :
    Meets ρ R ((ScriptMachine.identifierAtom code index >>= f) env m)
      ((ScriptMachine.identifierAtom code index >>= f') env' m') := by
  refine bind (identifierAtom ht index) ?_
  rintro _ _ _ name _ - - ⟨⟨rfl, rfl, rfl, rfl⟩, hk, hs⟩
  exact hf _ hk hs

theorem registerRange (ht : m.Twins ρ m') (first : Register) (count : UInt32) :
    Aligned ρ.Matches (m.registerRange first count) (m'.registerRange first count) := by
  refine .ofList ?_
  rw [List.forall₂_map_left_iff, List.forall₂_map_right_iff, List.forall₂_same]
  exact fun r _ => (ht.register r).same

/-- Operands in registers. -/
theorem calling (ht : m.Twins ρ m') (hc : Heap.Both ρ m.heap m'.heap callee callee')
    (hthis : Heap.Both ρ m.heap m'.heap this this') (first : Register) (count : UInt32) :
    Calling ρ m m' callee callee' this this' (m.registerRange first count)
      (m'.registerRange first count) false := by
  have operands {m : Machine} (hs : m.Safe) {callee this : Value} (hc : m.Holds callee)
      (ht : m.Holds this) : Runs.Operands m callee this (m.registerRange first count) false := by
    refine ⟨fun v hv => ?_, fun h => by cases h⟩
    rcases List.mem_cons.mp hv with rfl | hv
    · exact hc
    · rcases List.mem_cons.mp hv with rfl | hv
      · exact ht
      · exact (Runs.guards_registerRange hs first count v (Array.mem_toList_iff.mp hv)).holds
  exact ⟨hc.same, hthis.same, registerRange ht first count, operands ht.safe hc.holds.1 hthis.holds.1,
    operands ht.safe' hc.holds.2 hthis.holds.2⟩

/-- Operands of constructions. -/
theorem constructing (ht : m.Twins ρ m') (callee first : Register) (count : UInt32) :
    Calling ρ m m' (m.register callee) (m'.register callee) .undefined .undefined
      (m.registerRange first count) (m'.registerRange first count) true := by
  have operands {m : Machine} (hs : m.Safe) : Runs.Operands m (m.register callee) .undefined
      (m.registerRange first count) true := by
    have hops := Runs.guards_operands hs first count (hs.guards_register callee)
      (guards_of_not_cell (v := .undefined) (by simp))
    exact ⟨fun v hv => (hops v hv).holds, fun _ => hops⟩
  exact ⟨(ht.register callee).same, .word (by simp), registerRange ht first count, operands ht.safe,
    operands ht.safe'⟩

/-- **Calls from frames.** -/
theorem callFromFrame (he : env.Tandem env') (ht : m.Twins ρ m') (ho : m.Orderly) (dst : Register)
    (site : Site) (hc : Calling ρ m m' callee callee' this this' args args' isConstruct) :
    Meets ρ (fun _ _ _ _ _ => True) (callFromFrame dst callee this args isConstruct site env m)
      (callFromFrame dst callee' this' args' isConstruct site env' m') := by
  have hset {ρ : Pairing} {k k' : Machine} {v w : Value} (hk : k.Twins ρ k') (hv : Vals ρ v k w k') :
      Meets ρ (fun _ _ _ _ _ => True) ((modify (·.setRegister dst v) : MachineM PUnit) env k)
        ((modify (·.setRegister dst w) : MachineM PUnit) env' k') :=
    update (hk.setRegister dst hv) trivial
  refine callFound he ht ho site hc ?_
  rintro ρ₁ a b target k k' rfl rfl - hk hok - hc
  refine callReady he hk hok hc fun ρ₂ this n this' n' _ hn hon _ hf hthis hargs => ?_
  cases target with
  | host host => exact bind (invokeHost he hn host) fun _ _ _ _ _ _ hx hv => hset hx hv
  | script code =>
    have hpush := pushFrame he hn code (some dst) isConstruct false hf hthis hargs
    refine bind (hpush.alsoLeft (Proceeds.result (Proceeds.pushFrame he.orderly hon a code this args
      (some dst) isConstruct false))) ?_
    rintro ρ₃ _ x _ x' - hx ⟨-, hox, -⟩
    refine bind ((functionEntry hx).alsoLeft (Proceeds.result (Proceeds.functionEntry he.orderly hox))) ?_
    rintro ρ₄ _ y lowered y' - hy ⟨rfl, hoy, -, hcompiled⟩
    cases lowered with
    | none => exact ret hy trivial
    | some lowered =>
      exact bind (runCompiled he hy hoy (hcompiled lowered rfl)) fun _ _ _ _ _ _ hz hv => hset hz hv

/-! ### Instructions -/

/-- Reading a register. -/
theorem reg {R : Pairing → α → Machine → β → Machine → Prop} (r : Register) {f : Value → MachineM α}
    {f' : Value → MachineM β} (hf : Meets ρ R (f (m.register r) env m) (f' (m'.register r) env' m')) :
    Meets ρ R ((step.reg r >>= f) env m) ((step.reg r >>= f') env' m') := hf

/-- **An instruction.** -/
theorem opcode (he : env.Tandem env') (ht : m.Twins ρ m') (ho : m.Orderly) (hfit : m.heap.atoms.Fits)
    {opcode : Opcode} (hl : m.Lists code opcode) :
    Meets ρ Flows (ScriptMachine.step code opcode env m) (ScriptMachine.step code opcode env' m') := by
  have hreg (r : Register) := (ht.register r).both ht
  cases opcode with
  | loadConst dst index =>
    refine look ?_
    rcases Option.rel_iff.mp (ht.code? code) with ⟨hx, hy⟩ | ⟨e, e', hx, hy, hentry⟩
    · rw [hx, hy]
      exact store ht dst (.word (by simp))
    · rw [hx, hy]
      exact store ht dst (ht.constant hx hy hentry index.toNat)
  | loadUndefined dst => exact store ht dst (.word (by simp))
  | loadNull dst => exact store ht dst (.word (by simp))
  | loadBool dst value => exact store ht dst (.word (Value.cell?_boolean value))
  | loadThis dst =>
    refine bind (currentFrame ht) ?_
    rintro ρ f m f' m' - ht ⟨rfl, rfl, rfl, hf, hx, hy⟩
    exact store ht dst (ht.both hf.this (ht.safe.holds_this hx) (ht.safe'.holds_this hy))
  | move dst src => exact reg _ (store ht dst (hreg src))
  | binary op dst lhs rhs => exact reg _ (reg _ (stored dst (applyBinary he ht op (hreg lhs) (hreg rhs))))
  | unary op dst src => exact reg _ (stored dst (applyUnary he ht op (hreg src)))
  | jump target => exact goto ht target
  | jumpIf sense cond target =>
    refine look (ite ?_ (fun _ => goto ht target) fun _ => ret ht .next)
    rw [ht.toBoolean (hreg cond)]
  | loop target =>
    change Meets ρ Flows ((checkInterrupt >>= fun _ => step.goto target) env m)
      ((checkInterrupt >>= fun _ => step.goto target) env' m')
    rw [bind_eq_of_ok (checkInterrupt_quiet ht.calm), bind_eq_of_ok (checkInterrupt_quiet ht.calm')]
    exact goto ht target
  | newObject dst => exact stored dst (made_vals (newObject he ht))
  | newArray dst first count =>
    exact look (stored dst (made_vals (newArray he ht (registerRange ht first count)
      (Runs.guards_registerRange ht.safe first count) (Runs.guards_registerRange ht.safe' first count))))
  | getById dst base name cache =>
    refine reg _ (named ht name fun a hk hs => ?_)
    exact stored dst (getById he ht hk (hl.cites hfit hs rfl) (hreg base))
  | putById base name value cache =>
    refine reg _ (reg _ (named ht name fun a hk hs => ?_))
    exact done (putById he ht hk (hl.cites hfit hs rfl) (ht.register base) (ht.register value))
  | getByVal dst base key => exact reg _ (reg _ (stored dst (getByVal he ht (hreg base) (hreg key))))
  | putByVal base key value =>
    exact reg _ (reg _ (reg _ (done (putByVal he ht (ht.register base) (hreg key) (ht.register value)))))
  | deleteById dst base name =>
    exact reg _ (named ht name fun a _ _ => storedTest dst (deleteById he ht (hreg base)))
  | hasProperty dst key base => exact reg _ (reg _ (storedTest dst (hasKey he ht (hreg key) (hreg base))))
  | instanceOf dst value constructor =>
    exact reg _ (reg _ (storedTest dst (instanceOf he ht (hreg value) (hreg constructor))))
  | getGlobal dst name cache =>
    exact named ht name fun a hk hs => stored dst (getGlobalById he ht hk (hl.cites hfit hs rfl))
  | putGlobal name value cache =>
    exact named ht name fun a hk hs =>
      reg _ (done (putGlobalById he ht hk (hl.cites hfit hs rfl) (ht.register value)))
  | pushScope layout => exact done (pushScope he ht layout)
  | popScope => exact done (Q := fun _ _ _ _ _ => True) (update ht.popScope trivial)
  | getScopedVar dst depth index => exact look (store ht dst (ht.scopedVar depth index))
  | putScopedVar depth index value =>
    exact reg _ (done (Q := fun _ _ _ _ _ => True) (update (ht.setScopedVar depth index (hreg value)) trivial))
  | resolveName dst name => exact named ht name fun a _ _ => stored dst (resolveName he ht a)
  | argumentsObject dst => exact stored dst (argumentsObject he ht)
  | newFunction dst function => exact stored dst (newClosure he ht function)
  | call dst callee this firstArg argc cache =>
    exact look (done (callFromFrame he ht ho dst _ (calling ht (hreg callee) (hreg this) firstArg argc)))
  | callMethod dst base name firstArg argc propertyCache cache =>
    refine reg _ (named ht name fun a hk hs => ?_)
    have hk' : m'.heap.atoms.Knows a := by
      rw [ht.heap.atoms]
      exact hk
    have hmethod := (getById he ht hk (hl.cites hfit hs rfl) (hreg base)).also
      (Runs.result (Runs.getById ht.safe hk)) (Runs.result (Runs.getById ht.safe' hk'))
    refine bindOrderly he ho (Keeping.getById _ _ _) hmethod ?_
    rintro ρ₁ method n method' n' hle hn hon - ⟨hv, ⟨-, hheap, -⟩, -, hheap', -⟩
    have hbase : Heap.Both ρ₁ n.heap n'.heap (m.register base) (m'.register base) := by
      rw [hheap, hheap']
      exact (hreg base).mono hle
    exact look (done (callFromFrame he hn hon dst _ (calling hn hv hbase firstArg argc)))
  | construct dst callee firstArg argc cache =>
    exact look (done (callFromFrame he ht ho dst _ (constructing ht callee firstArg argc)))
  | ret src => exact reg _ (ret ht (.ret (hreg src)))
  | throw src => exact reg _ (raise ht (hreg src))
  | catchInto dst => exact stored dst (takeException ht)
  | debug line =>
    refine done (Q := fun _ _ _ _ _ => True) ?_
    unfold notifyStatement
    rw [notifyAt_quiet ht.safe.listeners, notifyAt_quiet ht.safe'.listeners]
    exact .ok (List.Subset.refl ρ) ht trivial

/-- What is fetched is listed. -/
theorem fetch (ht : m.Twins ρ m') :
    Meets ρ (fun _ r k r' _ => r' = r ∧ k.heap.atoms = m.heap.atoms ∧
        ∀ code opcode, r = some (code, some opcode) → k.Lists code opcode)
      (fetch env m) (fetch env' m') := by
  rcases Option.rel_iff.mp ht.frame? with ⟨hx, hy⟩ | ⟨f, f', hx, hy, hf⟩
  · refine stepTo (a := none) (b := none) ?_ ?_ ht ⟨rfl, rfl, fun _ _ h => by cases h⟩
    · rw [hx]
    · rw [hy]
  rcases Option.rel_iff.mp (ht.code? f.code) with ⟨hc, hc'⟩ | ⟨e, e', hc, hc', he⟩
  · refine stepTo (a := some (f.code, none)) (b := some (f.code, none)) ?_ ?_ ht
      ⟨rfl, rfl, fun _ _ h => by cases h⟩
    · rw [hx]
      simp only [hc]
    · rw [hy]
      simp only [hf.code, hc']
  cases hi : e.block.instructions[f.pc.toNat]? with
  | none =>
    refine stepTo (a := some (f.code, none)) (b := some (f.code, none)) ?_ ?_ ht
      ⟨rfl, rfl, fun _ _ h => by cases h⟩
    · rw [hx]
      simp only [hc, hi]
    · rw [hy]
      simp only [hf.code, hf.pc, hc', he.block, hi]
  | some instruction =>
    refine stepTo (a := some (f.code, some instruction.opcode))
      (b := some (f.code, some instruction.opcode)) ?_ ?_ (ht.setPc (f.pc + 1)) ⟨rfl, rfl, ?_⟩
    · rw [hx]
      simp only [hc, hi]
    · rw [hy]
      simp only [hf.code, hf.pc, hc', he.block, hi]
    · rintro code opcode heq
      obtain ⟨rfl, hop⟩ := Prod.mk.inj (Option.some.inj heq)
      exact ⟨e, hc, instruction, Array.mem_of_getElem? hi, Option.some.inj hop⟩

/-! ### Unwinding -/

theorem unwindFrames (ht : m.Twins ρ m') (hb : Heap.Both ρ m.heap m'.heap v w)
    (entryDepth count : Nat) :
    Meets ρ (fun _ _ _ _ _ => True) (unwindFrames entryDepth v count env m)
      (unwindFrames entryDepth w count env' m') := by
  induction count generalizing m m' ρ with
  | zero => exact thrown ht hb
  | succ count ih =>
    refine bind (enterHandler ht hb) ?_
    rintro ρ₁ _ k handler k' - hk ⟨hv, rfl⟩
    cases handler with
    | some _ => exact ret hk trivial
    | none =>
      refine look ?_
      rw [← hk.frames.size]
      refine bind (discarded (popFrame hk)) ?_
      rintro ρ₂ _ n _ n' hle hn ⟨-, -, hheap, hheap', -⟩
      have hv : Vals ρ₂ v n w n' := by
        unfold Vals
        rw [hheap, hheap']
        exact hv.mono hle
      exact ite Iff.rfl (fun _ => thrown hn hv) fun _ => ih hn hv

theorem handleUnwind (ht : m.Twins ρ m') (entryDepth : Nat) {u u' : Unwind}
    (hu : Unwind.Both ρ m.heap m'.heap u u') :
    Meets ρ (fun _ _ _ _ _ => True) (handleUnwind entryDepth u env m)
      (handleUnwind entryDepth u' env' m') := by
  cases hu with
  | fatal failure =>
    exact bind (popFramesTo ht entryDepth) fun _ _ _ _ _ _ hk _ => failed hk failure
  | throw hb =>
    refine look ?_
    rw [← ht.frames.size]
    exact unwindFrames ht hb entryDepth _

/-! ### Turns of the loop -/

/-- Releasing temporaries, but for values on their way. -/
theorem release (ht : m.Twins ρ m') (mark mark' : Nat) (hb : Heap.Both ρ m.heap m'.heap v w) :
    Meets ρ (fun ρ _ k _ k' => Vals ρ v k w k')
      (ScriptMachine.modifyHeap (fun h => (h.truncateTemporaries mark).pushTemporary v) env m)
      (ScriptMachine.modifyHeap (fun h => (h.truncateTemporaries mark').pushTemporary w) env' m') := by
  have cut {h : Heap} {v : Value} (mark : Nat) (hv : v.Live h) : v.Live (h.truncateTemporaries mark) := by
    unfold Heap.truncateTemporaries
    split <;> exact hv
  have protect {h : Heap} {v : Value} (u : Value) (hv : v.Live h) : v.Live (h.pushTemporary u) := by
    unfold Heap.pushTemporary
    split <;> exact hv
  have hl := cut mark hb.left
  have hr := cut mark' hb.right
  exact update ((ht.truncate mark mark').protect (fun _ => hl) fun _ => hr)
    ⟨hb.same, protect v hl, protect w hr⟩

/-- **The running frames return.** -/
theorem settleReturn (ht : m.Twins ρ m') (entryDepth mark mark' : Nat)
    (hb : Heap.Both ρ m.heap m'.heap v w) :
    Meets ρ (fun ρ r k r' k' => Option.Rel (Heap.Both ρ k.heap k'.heap) r r')
      (settleReturn entryDepth mark v env m) (settleReturn entryDepth mark' w env' m') := by
  refine look ?_
  rw [← ht.frames.size]
  refine bind (finishReturn ht hb) ?_
  rintro ρ₁ ⟨v, _⟩ k ⟨w, register⟩ k' - hk ⟨hv, rfl⟩
  refine ite Iff.rfl (fun _ => ?_) fun _ => ?_
  · exact bind (release hk mark mark' hv) fun _ _ _ _ _ _ hn hv => ret hn (.some hv)
  · refine bind (Q := fun _ _ _ _ _ => True) (update ?_ trivial) fun _ _ _ _ _ _ hn _ => ret hn .none
    cases register with
    | none => exact hk.truncate mark mark'
    | some r => exact (hk.setRegister r hv).truncate mark mark'

/-- The loop goes on. -/
theorem goesOn (ht : m.Twins ρ m') (mark mark' : Nat) :
    Meets ρ (fun ρ r k r' k' => Option.Rel (Heap.Both ρ k.heap k'.heap) r r')
      ((do
        ScriptMachine.modifyHeap (·.truncateTemporaries mark)
        return none : MachineM (Option Value)) env m)
      ((do
        ScriptMachine.modifyHeap (·.truncateTemporaries mark')
        return none : MachineM (Option Value)) env' m') :=
  bind (truncate ht mark mark') fun _ _ _ _ _ _ hk _ => ret hk .none

/-- **An instruction unwinds.** -/
theorem settleError (ht : m.Twins ρ m') (entryDepth mark mark' : Nat) {u u' : Unwind}
    (hu : Unwind.Both ρ m.heap m'.heap u u') :
    Meets ρ (fun ρ r k r' k' => Option.Rel (Heap.Both ρ k.heap k'.heap) r r')
      (settle entryDepth mark (.error u) env m) (settle entryDepth mark' (.error u') env' m') := by
  refine attempt (handleUnwind ht entryDepth hu) (fun _ _ _ _ _ _ hk _ => goesOn hk mark mark') ?_
    (fun _ _ hl => .memory hl) fun _ _ hl => .memory hl
  rintro ρ₁ u k u' k' - hk hu
  cases hu with
  | throw hb => exact bind (release hk mark mark' hb) fun _ _ _ _ _ _ hn hb => thrown hn hb
  | fatal failure => exact bind (truncate hk mark mark') fun _ _ _ _ _ _ hn _ => failed hn failure

/-- **One turn of the loop.** -/
theorem turn (he : env.Tandem env') (ht : m.Twins ρ m') (ho : m.Orderly) (entryDepth mark mark' : Nat) :
    Meets ρ (fun ρ r k r' k' => Option.Rel (Heap.Both ρ k.heap k'.heap) r r')
      (turn entryDepth mark env m) (turn entryDepth mark' env' m') := by
  unfold ScriptMachine.turn instruction
  simp only [bind_assoc]
  refine pass he fun hspare _ => ?_
  refine bind ((fetch ht).alsoLeft (Proceeds.result (Proceeds.fetch ho (E := fun _ _ => True)))) ?_
  rintro ρ₁ _ k fetched k' - hk ⟨⟨rfl, hatoms, hlists⟩, hok, -⟩
  cases fetched with
  | none =>
    simp only [pure_bind]
    exact ret hk (.some (.word (by simp)))
  | some fetched =>
    obtain ⟨code, op⟩ := fetched
    cases op with
    | none =>
      simp only [pure_bind]
      exact settleReturn hk entryDepth mark mark' (.word (by simp))
    | some op =>
      simp only [bind_assoc, pure_bind]
      refine attempt (opcode he hk hok ?_ (hlists code op rfl)) ?_ ?_ ?_ ?_
      · rw [hatoms]
        exact hspare.names
      · intro ρ₂ flow n flow' n' _ hn hflow
        cases hflow with
        | next => exact goesOn hn mark mark'
        | ret hb => exact settleReturn hn entryDepth mark mark' hb
      · exact fun _ _ _ _ _ _ hn hu => settleError hn entryDepth mark mark' hu
      · exact fun bytes _ hl => Escapes.settle hl entryDepth mark bytes
      · exact fun bytes _ hl => Escapes.settle hl entryDepth mark' bytes

/-- **The loop.** -/
theorem runLoop (he : env.Tandem env') (ht : m.Twins ρ m') (ho : m.Orderly) {entryDepth : Nat}
    (hd : entryDepth < m.frames.size) (mark mark' fuel : Nat) :
    Meets ρ Vals (runLoop entryDepth mark fuel env m) (runLoop entryDepth mark' fuel env' m') := by
  induction fuel generalizing m m' ρ with
  | zero => exact .exhausted
  | succ fuel ih =>
    rw [runLoop_succ, runLoop_succ]
    refine bind ((turn he ht ho entryDepth mark mark').alsoLeft
      (Proceeds.result (Proceeds.turn he.orderly ho hd mark))) ?_
    rintro ρ₁ r k r' k' - hk ⟨hr, hok, hturn, -⟩
    cases hr with
    | none => exact ih hk hok hturn.2
    | some hv => exact ret hk hv

/-- **The top frames run** to their ends. -/
theorem runFrame (he : env.Tandem env') (ht : m.Twins ρ m') (ho : m.Orderly) (hf : m.frames ≠ #[]) :
    Meets ρ Vals (runFrame env m) (runFrame env' m') := by
  have hpos : 0 < m.frames.size := Nat.pos_of_ne_zero fun h => hf (Array.size_eq_zero_iff.mp h)
  refine look ?_
  rw [← ht.frames.size]
  refine attempt ((functionEntry ht).alsoLeft (Proceeds.result (Proceeds.functionEntry he.orderly ho)))
    ?_ ?_ (fun _ _ hl => Escapes.popFramesTo hl _) fun _ _ hl => Escapes.popFramesTo hl _
  · rintro ρ₁ _ k compiled k' - hk ⟨rfl, hok, ⟨hstill, -⟩, hcompiled⟩
    cases compiled with
    | some lowered => exact runCompiled he hk hok (hcompiled lowered rfl)
    | none =>
      refine look (ask ?_)
      rw [he.fuel]
      refine runLoop he hk hok ?_ _ _ _
      rw [hstill.frames]
      omega
  · rintro ρ₁ u k u' k' - hk hu
    refine bind (popFramesTo hk _) ?_
    rintro ρ₂ _ n _ n' hle hn ⟨hheap, hheap'⟩
    refine raised hn ?_
    rw [hheap, hheap']
    exact hu.mono hle

end Meets

end ScriptMachine
