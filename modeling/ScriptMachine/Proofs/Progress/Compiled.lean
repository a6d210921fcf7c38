import ScriptMachine.Proofs.Progress.Call
import ScriptMachine.Proofs.Stack.Compiled
import ScriptMachine.Proofs.Stub.Frame
import ScriptMachine.Proofs.Tier.Flow

/-! # Stubs and tier code of intact machines

A stub parks what its routine raised, and it is there when the caller takes it (`Goes.callStub`). An
operation of tier code moves its frame on and leaves the frames below where they are (`Machine.Paces`),
and where it goes next is what the operation says (`Goes.tierStep`). So a run of the lowering of
complete code never leaves the operations (`Goes.tierTurn`). -/

namespace ScriptMachine

open Machine

variable {m m' m'' : Machine} {f : Frame} {entry : CodeEntry} {l : Lowered}

/-! ### Complete code -/

/-- **An operand is found** in the tables of registered code. -/
def Operand.Found (entry : CodeEntry) : Operand → Prop
  | .constant i => i.toNat < entry.constants.size
  | .identifier i => i.toNat < entry.atoms.size
  | .function i => i.toNat < entry.functions.size
  | .scopeLayout i => i.toNat < entry.scopeLayouts.size
  | .target i => i.toNat < entry.block.instructions.size
  | _ => True

namespace Machine

theorem Complete.found (hc : m.Complete entry) {functions : List Block}
    (hlength : functions.length = entry.functions.size) {operand : Operand}
    (h : operand.Fits { entry.block with functions }) : operand.Found entry := by
  cases operand with
  | constant i => exact Nat.lt_of_lt_of_eq h hc.constants.symm
  | identifier i => exact Nat.lt_of_lt_of_eq h hc.atoms.symm
  | function i => exact Nat.lt_of_lt_of_eq h hlength
  | scopeLayout i =>
    have hsize : entry.scopeLayouts.size = entry.block.scopeLayouts.size := by simp [hc.scopeLayouts]
    exact Nat.lt_of_lt_of_eq h hsize.symm
  | target i => exact h
  | _ => trivial

/-- **The operands of every instruction are found.** -/
theorem Complete.operands (hc : m.Complete entry) {instruction : Instruction}
    (hi : instruction ∈ entry.block.instructions) :
    ∀ operand ∈ instruction.opcode.operands, operand.Found entry := by
  obtain ⟨functions, hlength, hb⟩ := hc.consistent
  exact fun operand hmem => hc.found hlength (hb.operands instruction hi operand hmem)

/-- **The tier code of complete code** has no way out, and its operands are found. -/
theorem Complete.encloses (hc : m.Complete entry) (hl : entry.lower = .ok l) :
    entry.block.Encloses l ∧ ∀ op ∈ l.ops, op.Takes (Operand.Found entry) := by
  obtain ⟨functions, hlength, hb⟩ := hc.consistent
  have hl' := (Block.lower_functions entry.block functions).trans hl
  obtain ⟨hstart, hnext, htargets, hhandlers⟩ := hb.encloses hl'
  exact ⟨⟨hstart, hnext, htargets, hhandlers⟩, fun op hop =>
    (hb.takes hl' op hop).mono fun _ => hc.found hlength⟩

/-- **Complete code can be lowered.** -/
theorem Complete.exists_lower (hc : m.Complete entry) : ∃ l, entry.lower = .ok l := by
  obtain ⟨functions, -, hb⟩ := hc.consistent
  obtain ⟨l, hl⟩ := Block.exists_lower (t := entry.tables) hb fun i hi =>
    ⟨_, Array.getElem?_eq_getElem (Nat.lt_of_lt_of_eq hi hc.atoms.symm)⟩
  exact ⟨l, (Block.lower_functions entry.block functions).symm.trans hl⟩

/-! ### Moving on -/

/-- **The running frame moves on**, and the frames below it stay where they are. -/
def Paces (m m' : Machine) : Prop := ∃ pc, (m.setPc pc).Calm m'

theorem setPc_self (hf : m.frame? = some f) : m.setPc f.pc = m := by
  obtain ⟨below, hframes⟩ := frame?_eq_some.mp hf
  have := frames_modifyFrame (g := fun g => { g with pc := f.pc }) hframes
  rw [← hframes] at this
  exact congrArg (fun frames => { m with frames }) this

theorem Calm.paces (h : m.Calm m') : m.Paces m' := by
  cases hf : m.frame? with
  | none => exact ⟨0, by rwa [show m.setPc 0 = m from modifyFrame_of_none hf]⟩
  | some f =>
    refine ⟨f.pc, ?_⟩
    rwa [setPc_self hf]

theorem Paces.trans (h₁ : m.Paces m') (h₂ : m'.Paces m'') : m.Paces m'' := by
  obtain ⟨pc, hc₁⟩ := h₁
  obtain ⟨pc', hc₂⟩ := h₂
  refine ⟨pc', ?_⟩
  have := hc₁.setPc pc'
  rw [setPc_setPc] at this
  exact this.calm hc₂

theorem Paces.hosts (h : m.Paces m') : m'.hosts = m.hosts := by
  obtain ⟨pc, hc⟩ := h
  exact hc.hosts

instance : Leaving Paces where
  refl m := (Calm.refl m).paces
  trans _ _ _ := .trans
  hosts _ _ := Paces.hosts

/-- The frames below a frame that has moved on. -/
theorem Paces.below (h : m.Paces m') : m.Stands m'.spots m' ∧ m'.spots.dropLast = m.spots.dropLast := by
  obtain ⟨pc, hc⟩ := h
  exact ⟨⟨rfl, hc.hosts, hc.codes⟩, by rw [hc.spots, dropLast_spots_setPc]⟩

theorem Paces.compiled (h : m.Paces m') (hc : m.Compiled l) : m'.Compiled l := by
  obtain ⟨pc, hcalm⟩ := h
  obtain ⟨f, entry, hf, hcode, hl⟩ := hc
  exact Compiled.calm ⟨_, entry, frame?_setPc hf pc, hcode, hl⟩ hcalm

end Machine

/-! ### Stubs -/

/-- **The routine is called in its place**: what it asks of the running frame is there. -/
def Routine.Apt (m : Machine) (words : List StubWord) : Routine → Prop
  | .newFunction => m.HasTemplate (words.getD 0 .missing).index
  | .tearOffActivation | .pushScope | .argumentsObject => ∃ f, m.frame? = some f
  | _ => True

theorem Routine.apt_of_asksFrame {routine : Routine} (h : routine.asksFrame = false)
    (m : Machine) (words : List StubWord) : routine.Apt m words := by
  cases routine <;> trivial

namespace Calmly

theorem registerFileCheck (count : UInt32) : Calmly Calm (registerFileCheck count) :=
  bind look fun _ => ite (fun _ => raiseError _ _) fun _ => ret _

end Calmly

namespace Goes

variable {env : Env} {E : Unwind → Machine → Prop} {words : List StubWord}

/-- An action whose result is the answer of a routine. -/
theorem answered {α : Type} (he : env.Faithful) (hm : m.Intact) {x : MachineM α} (hx : Calmly Calm x)
    (g : α → Value) :
    Goes m ((x >>= fun a => runRoutine.answer (g a)) env m)
      (fun r m' => m.Calm m' ∧ r.isException = false)
      fun u m' => m.Calm m' ∧ (m.Candid → u.Innocent) :=
  bind (hx env m he hm) fun _ _ hm' h => ret hm' ⟨h, rfl⟩

/-- Checking the number of arguments answers with a number below the sentinel. -/
theorem arityCheck (he : env.Faithful) (hm : m.Intact) (callee : Value) (argc : UInt32) :
    Goes m (arityCheck callee argc env m) (fun r m' => m.Calm m' ∧ r.isException = false)
      fun u m' => m.Calm m' ∧ (m.Candid → u.Innocent) := by
  refine look ?_
  cases m.functionData? callee with
  | none => exact raiseError he hm _ _
  | some data =>
    refine ret hm ⟨.refl m, ?_⟩
    generalize data.arity - min data.arity argc = missing
    have hlt : missing.toUInt64.toNat < 2 ^ 32 := missing.toNat_lt
    simp only [StubReturn.isException, beq_eq_false_iff_ne, ne_eq]
    intro heq
    rw [heq] at hlt
    exact absurd hlt (by decide)

/-- **A routine** leaves the frames where they are, and answers or raises. In its place it makes no
complaint. -/
theorem runRoutine (he : env.Faithful) (hm : m.Intact) {stub : StubFrame} (hs : stub.Filled words)
    (routine : Routine) : Goes m (runRoutine stub routine env m)
      (fun r m' => m.Calm m' ∧ r.isException = false ∧ routine ≠ .throw)
      fun u m' => m.Calm m' ∧ (routine.Apt m words → m.Candid → u.Innocent) := by
  have answer {α : Type} {x : MachineM α} {g : α → Value} (hx : Calmly Calm x)
      (hne : routine ≠ .throw) : Goes m ((x >>= fun a => runRoutine.answer (g a)) env m)
      (fun r m' => m.Calm m' ∧ r.isException = false ∧ routine ≠ .throw)
      fun u m' => m.Calm m' ∧ (routine.Apt m words → m.Candid → u.Innocent) :=
    (answered he hm hx g).mono (fun _ _ _ h => ⟨h.1, h.2, hne⟩) fun _ _ _ h => ⟨h.1, fun _ => h.2⟩
  -- the routines that ask the running frame complain without one
  have fails {x : MachineM StubReturn} {u : Unwind} (hx : x env m = .error (.unwound u) m)
      (hapt : ¬routine.Apt m words) : Goes m (x env m)
      (fun r m' => m.Calm m' ∧ r.isException = false ∧ routine ≠ .throw)
      fun u m' => m.Calm m' ∧ (routine.Apt m words → m.Candid → u.Innocent) := by
    rw [hx]
    exact ⟨.refl m, hm, .refl m, fun h => absurd h hapt⟩
  cases routine with
  | throw =>
    refine (raise he hm _).mono (fun _ _ _ h => h) fun u _ _ h => ⟨h.1, fun _ _ => ?_⟩
    rw [h.2]
    exact Unwind.innocent_throw _
  | newFunction =>
    cases hf : m.frame? with
    | none =>
      refine fails (bind_eq_of_error (bind_eq_of_error (bind_eq_of_error
        (currentFrame_of_none hf env)))) ?_
      rintro ⟨f, -, hf', -⟩
      rw [hf] at hf'
      cases hf'
    | some f =>
      refine bind ((newClosure he hm hf _).mono (fun _ _ _ h => h) fun _ _ _ h => ⟨h.1, ?_⟩)
        fun _ m' hm' h => ret hm' ⟨h, rfl, by simp⟩
      rw [hs.arg] at h
      exact h.2
  | tearOffActivation =>
    cases hf : m.frame? with
    | none =>
      exact fails (bind_eq_of_error (bind_eq_of_error (currentFrame_of_none hf env)))
        (by simp [Routine.Apt, hf])
    | some f =>
      refine bind ((tearOffActivation_calm hm hf).mono (fun _ _ _ h => h) fun _ _ _ h =>
        ⟨h.1, fun _ _ => h.2⟩) fun _ m' hm' h => ret hm' ⟨h, rfl, by simp⟩
  | pushScope =>
    cases hf : m.frame? with
    | none =>
      exact fails (bind_eq_of_error (bind_eq_of_error (bind_eq_of_error
        (currentFrame_of_none hf env)))) (by simp [Routine.Apt, hf])
    | some f =>
      refine bind ((pushScope hm hf _).mono (fun _ _ _ h => h) fun _ _ _ h =>
        ⟨h.1, fun _ _ => h.2⟩) fun _ m' hm' h => ret hm' ⟨h, rfl, by simp⟩
  | argumentsObject =>
    cases hf : m.frame? with
    | none =>
      exact fails (bind_eq_of_error (bind_eq_of_error (currentFrame_of_none hf env)))
        (by simp [Routine.Apt, hf])
    | some f =>
      refine bind ((argumentsObject he hm hf).mono (fun _ _ _ h => h) fun _ _ _ h =>
        ⟨h.1.calm, fun _ => h.2⟩) fun _ m' hm' h => ret hm' ⟨h.calm, rfl, by simp⟩
  | callArityCheck =>
    exact (arityCheck he hm _ _).mono (fun _ _ _ h => ⟨h.1, h.2, by simp⟩) fun _ _ _ h =>
      ⟨h.1, fun _ => h.2⟩
  | binary op => exact answer (Calmly.applyBinary op _ _) (by simp)
  | unary op => exact answer (Calmly.applyUnary op _) (by simp)
  | getById => exact answer (Calmly.getById _ _ _) (by simp)
  | putById => exact answer (Calmly.putById _ _ _ _) (by simp)
  | getByVal => exact answer (Calmly.getByVal _ _) (by simp)
  | putByVal => exact answer (Calmly.putByVal _ _ _) (by simp)
  | deleteById => exact answer (Calmly.deleteById _ _) (by simp)
  | hasProperty => exact answer (Calmly.hasKey _ _) (by simp)
  | instanceOf => exact answer (Calmly.instanceOf _ _) (by simp)
  | getGlobal => exact answer (Calmly.getGlobalById _ _) (by simp)
  | putGlobal => exact answer (Calmly.putGlobalById _ _ _) (by simp)
  | newObject => exact answer (.quiet .newObject) (by simp)
  | newArray => exact answer (.quiet (.newArray _)) (by simp)
  | call | construct => exact answer (Calmly.callValue _ _ _ _ _) (by simp)
  | popScope => exact answer Calmly.popScope (by simp)
  | getScopedVar => exact answer Calmly.look (by simp)
  | putScopedVar => exact answer (Calmly.setScopedVar _ _ _) (by simp)
  | resolve => exact answer (Calmly.resolveName _) (by simp)
  | timeoutCheck => exact answer (.quiet .checkInterrupt) (by simp)
  | registerFileCheck => exact answer (Calmly.registerFileCheck _) (by simp)
  | debugStatement => exact answer (Calmly.notifyAt _ _ _) (by simp)

/-- **A stub call** parks what the routine raised, and does not unwind. -/
theorem callStub (he : env.Faithful) (hm : m.Intact) (routine : Routine) (words : List StubWord) :
    Goes m (callStub routine words env m) (fun r m' => m.Calm m' ∧
      (r.isException = false → routine ≠ .throw) ∧
      (r.isException = true → ∃ u, m'.stubUnwind = some u ∧
        (routine.Apt m words → m.Candid → u.Innocent))) E := by
  let pushed : Machine := { m with stubFrames := m.stubFrames.push (m.stubFrame words) }
  obtain ⟨ha₁, hq₁⟩ := arrives_beside (m := m) (n := pushed) rfl rfl rfl rfl rfl
  refine look (bind (Q := fun _ m' => m' = pushed) (change hm ha₁ rfl) ?_)
  rintro _ _ hm₁ rfl
  refine bind (runRoutine he hm₁ (StubFrame.filled_ofWords _ _ words) routine).attempt ?_
  intro result m₂ hm₂ hr
  let popped : Machine := { m₂ with stubFrames := m₂.stubFrames.pop }
  obtain ⟨ha₃, hq₃⟩ := arrives_beside (m := m₂) (n := popped) rfl rfl rfl rfl rfl
  refine bind (Q := fun _ m' => m' = popped) (change hm₂ ha₃ rfl) ?_
  rintro _ _ hm₃ rfl
  cases result with
  | ok answer =>
    obtain ⟨hc, hanswer, hne⟩ := hr
    refine ret hm₃ ⟨(hq₁.calm.calm hc).calm hq₃.calm, fun _ => hne, fun h => ?_⟩
    rw [hanswer] at h
    cases h
  | error u =>
    obtain ⟨hc, hu⟩ := hr
    simp only [parked_fail]
    let parked : Machine := { popped with stubUnwind := some u }
    obtain ⟨ha₄, hq₄⟩ := arrives_beside (m := popped) (n := parked) rfl rfl rfl rfl rfl
    refine bind (Q := fun _ m' => m' = parked) (change hm₃ ha₄ rfl) ?_
    rintro _ _ hm₄ rfl
    refine ret hm₄ ⟨((hq₁.calm.calm hc).calm hq₃.calm).calm hq₄.calm, ?_, fun _ => ⟨u, rfl, hu⟩⟩
    exact fun h => absurd h (by decide)

end Goes

theorem Routine.Apt.setPc {routine : Routine} {words : List StubWord} (h : routine.Apt m words)
    (pc : UInt32) : routine.Apt (m.setPc pc) words := by
  cases routine with
  | newFunction =>
    obtain ⟨f, entry, hf, hcode, hlt⟩ := h
    exact ⟨_, entry, frame?_setPc hf pc, hcode, hlt⟩
  | tearOffActivation | pushScope | argumentsObject =>
    obtain ⟨f, hf⟩ := h
    exact ⟨_, frame?_setPc hf pc⟩
  | _ => trivial

/-! ### Operations -/

/-- Where an operation may go on. -/
def TierOp.MayGo (op : TierOp) : TierStep → Prop
  | .next => op.fallsThrough
  | .jump target => op.target? = some target
  | .ret _ => True

theorem TierOp.fallsThrough_stub {routine : Routine} (h : routine ≠ .throw) {dst : Option Register}
    {args : List TierOperand} : (TierOp.stub routine dst args).fallsThrough = true := by
  cases routine <;> first | rfl | exact absurd rfl h

/-- **Tier code calls routines in their place.** -/
theorem apt_stub (hf : m.frame? = some f) (hcode : m.code? f.code = some entry) {routine : Routine}
    {dst : Option Register} {args : List TierOperand}
    (h : (TierOp.stub routine dst args).Takes (Operand.Found entry)) :
    routine.Apt m (args.map (TierOperand.word m)) := by
  cases routine with
  | newFunction =>
    obtain ⟨i, rfl, hi⟩ := h
    refine ⟨f, entry, hf, hcode, ?_⟩
    change (StubWord.ofIndex i).index.toNat < _
    rw [StubWord.index_ofIndex]
    exact hi
  | tearOffActivation | pushScope | argumentsObject => exact ⟨f, hf⟩
  | _ => trivial

namespace Goes

variable {env : Env} {pc : UInt32} {E : Unwind → Machine → Prop}

/-- What a stub parked is taken. -/
theorem takeStubUnwind (hm : m.Intact) {u : Unwind} (hparked : m.stubUnwind = some u) :
    Goes m (takeStubUnwind env m) (fun r m' => r = u ∧ m.Quiet m') E := by
  obtain ⟨ha, hq⟩ := arrives_beside (m := m) (n := { m with stubUnwind := none }) rfl rfl rfl rfl rfl
  refine step hm ha ⟨?_, hq⟩
  change m.stubUnwind.getD _ = u
  rw [hparked, Option.getD_some]

/-- **A stub call of tier code** moves the frame on to the instruction, and unwinds with what the routine
raised. -/
theorem tierStub (he : env.Faithful) (hm : m.Intact) (pc : UInt32) {routine : Routine}
    {words : List StubWord} (hapt : routine.Apt m words) :
    Goes m (tierStub pc routine words env m) (fun _ m' => m.Paces m' ∧ routine ≠ .throw)
      fun u m' => m.Paces m' ∧ (m.Candid → u.Innocent) := by
  let moved : Machine := (m.setPc (pc + 1)).countStubCall
  obtain ⟨ha, hq⟩ := arrives_beside (m := m.setPc (pc + 1)) (n := moved) rfl rfl rfl rfl rfl
  refine bind (Q := fun _ m' => m' = moved) (change hm ((hm.arrives_setPc _).trans ha) rfl) ?_
  rintro _ _ hm₁ rfl
  have hpaces {m' : Machine} (h : moved.Calm m') : m.Paces m' := ⟨pc + 1, hq.calm.calm h⟩
  refine bind (callStub he hm₁ routine words) ?_
  rintro answer m₂ hm₂ ⟨hc, hanswer, hraised⟩
  refine ite (fun hexception => ?_) fun hexception => ?_
  · obtain ⟨u, hparked, hu⟩ := hraised hexception
    refine bind (takeStubUnwind hm₂ hparked) ?_
    rintro _ m₃ hm₃ ⟨rfl, hq₃⟩
    exact unwind hm₃ ⟨hpaces (hc.calm hq₃.calm), hu (hapt.setPc _)⟩
  · exact ret hm₂ ⟨hpaces hc, hanswer (by simpa using hexception)⟩

/-- A routine that does not ask the running frame, called by tier code. -/
theorem tierStub_of_asksFrame (he : env.Faithful) (hm : m.Intact) (pc : UInt32) {routine : Routine}
    (hr : routine.asksFrame = false) (words : List StubWord) :
    Goes m (ScriptMachine.tierStub pc routine words env m) (fun _ m' => m.Paces m')
      fun u m' => m.Paces m' ∧ (m.Candid → u.Innocent) :=
  (tierStub he hm pc (Routine.apt_of_asksFrame hr m words)).mono (fun _ _ _ h => h.1)
    fun _ _ _ h => h

theorem tierBinary (he : env.Faithful) (hm : m.Intact) (pc : UInt32) (op : BinaryOp)
    (lhs rhs : Register) : Goes m (tierBinary pc op lhs rhs env m) (fun _ m' => m.Paces m')
      fun u m' => m.Paces m' ∧ (m.Candid → u.Innocent) := by
  have hasks : (Routine.binary op).asksFrame = false := rfl
  have hstub (words : List StubWord) := tierStub_of_asksFrame he hm pc hasks words
  refine look ?_
  cases (m.register lhs).number? with
  | none => exact hstub _
  | some x =>
    cases (m.register rhs).number? with
    | none => exact hstub _
    | some y => exact ite (fun _ => ret hm (Calm.refl m).paces) fun _ => hstub _

/-- A result is stored, and the code goes on. -/
theorem tierStore (hm : m.Intact) (dst : Register) (v : Value) :
    Goes m (tierStep.store dst v env m) (fun step m' => m.Paces m' ∧ step = .next) E := by
  obtain ⟨ha, hc⟩ := arrives_setRegister m dst v
  refine bind (Q := fun _ m' => m.Paces m') (change hm ha hc.paces) ?_
  exact fun _ m' hm' h => ret hm' ⟨h, rfl⟩

/-- The result of an action is stored. -/
theorem stored {x : MachineM Value} (dst : Register)
    (hx : Goes m (x env m) (fun _ m' => m.Paces m') E) :
    Goes m ((x >>= tierStep.store dst) env m) (fun step m' => m.Paces m' ∧ step = .next) E := by
  refine bind hx fun v m' hm' h => ?_
  exact (tierStore hm' dst v).mono (fun _ _ _ h' => ⟨h.trans h'.1, h'.2⟩) fun _ _ _ h => h

/-- **An operation of tier code** moves its frame on, and goes where the operation says. -/
theorem tierStep (he : env.Faithful) (hm : m.Intact) (hf : m.frame? = some f)
    (hcode : m.code? f.code = some entry) (pc : UInt32) {op : TierOp}
    (hop : op.Takes (Operand.Found entry)) :
    Goes m (tierStep pc op env m) (fun step m' => m.Paces m' ∧ op.MayGo step)
      fun u m' => m.Paces m' ∧ (m.Candid → u.Innocent) := by
  have hself := (Calm.refl m).paces
  have next {x : MachineM TierStep} {E : Unwind → Machine → Prop} (hfalls : op.fallsThrough = true)
      (hx : Goes m (x env m) (fun step m' => m.Paces m' ∧ step = .next) E) :
      Goes m (x env m) (fun step m' => m.Paces m' ∧ op.MayGo step) E :=
    hx.mono (fun _ _ _ h => ⟨h.1, by rw [h.2]; exact hfalls⟩) fun _ _ _ h => h
  cases op with
  | loadValue dst value => exact next rfl (tierStore hm dst value)
  | loadConstant dst index => exact next rfl (look (tierStore hm dst _))
  | loadThis dst => exact next rfl (look (tierStore hm dst _))
  | move dst src => exact next rfl (look (tierStore hm dst _))
  | binary op dst lhs rhs => exact next rfl (stored dst (tierBinary he hm pc op lhs rhs))
  | unary op dst src =>
    refine next rfl (look ?_)
    cases op.inlineResult? (m.register src) with
    | some value => exact tierStore hm dst value
    | none => exact stored dst (tierStub_of_asksFrame he hm pc rfl _)
  | compareAndBranch op dst lhs rhs sense target branchPc =>
    refine bind (tierBinary he hm pc op lhs rhs) fun value m₁ hm₁ h₁ => ?_
    have hstore : Goes m₁ ((tierStep.store dst value >>= fun _ => pure ()) env m₁)
        (fun _ m' => m.Paces m') fun u m' => m.Paces m' ∧ (m.Candid → u.Innocent) :=
      bind (tierStore hm₁ dst value) fun _ m' hm' h => ret hm' (h₁.trans h.1)
    refine bind hstore fun _ m₂ hm₂ h₂ => ret hm₂ ⟨h₂, ?_⟩
    split <;> rfl
  | jump target => exact ret hm ⟨hself, rfl⟩
  | branch cond sense target =>
    refine look (ret hm ⟨hself, ?_⟩)
    split <;> rfl
  | loop target =>
    have hcheck : Goes m ((ScriptMachine.tierStub pc .timeoutCheck [] >>= fun _ => pure ()) env m)
        (fun _ m' => m.Paces m') fun u m' => m.Paces m' ∧ (m.Candid → u.Innocent) :=
      bind (tierStub_of_asksFrame he hm pc rfl []) fun _ m' hm' h => ret hm' h
    exact bind hcheck fun _ m' hm' h => ret hm' ⟨h, rfl⟩
  | callMethod dst base name propertySite callSite args =>
    refine next rfl (look (bind (tierStub_of_asksFrame he hm pc rfl _) fun method m₁ hm₁ h₁ =>
      look ((stored dst (tierStub_of_asksFrame he hm₁ pc rfl _)).mono ?_ ?_)))
    · exact fun _ _ _ h => ⟨h₁.trans h.1, h.2⟩
    · exact fun _ _ _ h => ⟨h₁.trans h.1, fun hc => h.2 (Leaving.candid h₁ hc)⟩
  | catchInto dst =>
    refine next rfl (stored dst ((Calmly.takeException env m he hm).mono ?_ ?_))
    · exact fun _ _ _ h => h.calm.paces
    · exact fun _ _ _ h => ⟨h.1.calm.paces, h.2⟩
  | ret src => exact look (ret hm ⟨hself, trivial⟩)
  | stub routine dst args =>
    refine look (bind (tierStub he hm pc (apt_stub hf hcode hop)) ?_)
    rintro value m₁ hm₁ ⟨h₁, hne⟩
    cases dst with
    | none => exact ret hm₁ ⟨h₁, TierOp.fallsThrough_stub hne⟩
    | some dst =>
      refine (tierStore hm₁ dst value).mono (fun step m₂ _ h => ⟨h₁.trans h.1, ?_⟩) fun _ _ _ h => h
      rw [h.2]
      exact TierOp.fallsThrough_stub hne

end Goes

/-! ### Runs of tier code -/

theorem Lowered.entry_lt {pc : UInt32} {op : TierOp} (h : l.StartsAt pc.toNat op) :
    l.entry pc < l.ops.size := by
  obtain ⟨k, hk, hop⟩ := h
  unfold entry
  rw [hk]
  exact (Array.getElem?_eq_some_iff.mp hop).1

theorem Machine.Paces.length (h : m.Paces m') : m'.frames.size = m.frames.size := by
  obtain ⟨pc, hc⟩ := h
  have := congrArg List.length hc.spots
  rw [length_spots, length_spots] at this
  rw [this]
  simp [setPc, modifyFrame]

namespace Goes

variable {env : Env} {code : Lowered} {E : Unwind → Machine → Prop}

/-- **The operation at an index**, and how it ends. -/
theorem operation (he : env.Faithful) (hm : m.Intact) (hc : m.Compiled code) (mark : Nat) {index : Nat}
    {op : TierOp} (hop : code.ops[index]? = some op) :
    Goes m (operation code mark index env m)
      (fun r m' => m.Paces m' ∧ ∃ flow, r = some flow ∧ match flow with
        | .ok step => op.MayGo step
        | .error u => m.Candid → u.Innocent) E := by
  obtain ⟨f, entry, hf, hcode, hl⟩ := hc
  obtain ⟨-, htakes⟩ := (hm.code? hcode).encloses hl
  unfold ScriptMachine.operation
  rw [hop]
  refine pass hm (bind (modifyHeap hm (Heap.retains_truncateTemporaries m.heap mark)) ?_)
  intro _ m₁ hm₁ hq₁
  obtain ⟨entry₁, hcode₁, hfixed⟩ := hq₁.calm.code? hcode
  have htakes₁ : op.Takes (Operand.Found entry₁) := by
    obtain ⟨-, h⟩ := (hm₁.code? hcode₁).encloses ((CodeEntry.lower_congr hfixed).trans hl)
    exact h op (Array.mem_of_getElem? hop)
  refine bind (tierStep he hm₁ (hq₁.frame?.trans hf) hcode₁ _ htakes₁).attempt ?_
  intro flow m₂ hm₂ h
  cases flow with
  | ok step => exact ret hm₂ ⟨hq₁.calm.paces.trans h.1, _, rfl, h.2⟩
  | error u =>
    exact ret hm₂ ⟨hq₁.calm.paces.trans h.1, _, rfl, fun hc => h.2 (hq₁.calm.candid hc)⟩

/-- **A turn of tier code** ends at another operation, if it does not end the run. -/
theorem tierTurn (he : env.Faithful) (hm : m.Intact) (hc : m.Compiled code) (mark : Nat) {index : Nat}
    (hi : index < code.ops.size) :
    Goes m (tierTurn code mark index env m)
      (fun r m' => m.Paces m' ∧ ∀ next, r = .inl next → next < code.ops.size)
      fun u m' => m.Paces m' ∧ (m.Candid → u.Innocent) := by
  have hop := Array.getElem?_eq_getElem hi
  have hencloses {m : Machine} {f : Frame} {entry : CodeEntry} (hm : m.Intact) (hc : m.Compiled code)
      (hf : m.frame? = some f) (hcode : m.code? f.code = some entry) : entry.block.Encloses code := by
    obtain ⟨f', entry', hf', hcode', hl⟩ := hc
    obtain rfl := Option.some.inj (hf.symm.trans hf')
    obtain rfl := Option.some.inj (hcode.symm.trans hcode')
    exact ((hm.code? hcode).encloses hl).1
  obtain ⟨f, entry, hf, hcode, -⟩ := id hc
  have henc := hencloses hm hc hf hcode
  refine bind (operation he hm hc mark hop) ?_
  rintro _ m₁ hm₁ ⟨h₁, flow, rfl, hflow⟩
  match flow with
  | .ok .next =>
    refine ret hm₁ ⟨h₁, fun next h => ?_⟩
    obtain rfl := Sum.inl.inj h
    exact henc.next index _ hop hflow
  | .ok (.jump target) =>
    refine ret hm₁ ⟨h₁, fun next h => ?_⟩
    obtain rfl := Sum.inl.inj h
    exact henc.targets _ (Array.getElem_mem hi) target hflow
  | .ok (.ret value) => exact ret hm₁ ⟨h₁, fun _ h => by cases h⟩
  | .error (.fatal failure) => exact unwind hm₁ ⟨h₁, hflow⟩
  | .error (.throw exception) =>
    refine bind (enterHandler hm₁ exception) ?_
    intro target m₂ hm₂ h₂
    cases target with
    | none =>
      obtain rfl := h₂
      exact unwind hm₂ ⟨h₁, hflow⟩
    | some pc =>
      obtain ⟨hcalm, f₁, entry₁, handler, hf₁, hcode₁, hmem, rfl⟩ := h₂
      refine ret hm₂ ⟨h₁.trans ⟨_, hcalm⟩, fun next h => ?_⟩
      obtain rfl := Sum.inl.inj h
      obtain ⟨op, hstarts⟩ := (hencloses hm₁ (h₁.compiled hc) hf₁ hcode₁).handlers handler hmem
      exact Lowered.entry_lt hstarts

/-- **A run of tier code** stays on its frame. -/
theorem runOps (he : env.Faithful) (hm : m.Intact) (hc : m.Compiled code) (mark fuel : Nat)
    {index : Nat} (hi : index < code.ops.size) :
    Goes m (runOps code mark fuel index env m) (fun _ m' => m.Paces m')
      fun u m' => m.Paces m' ∧ (m.Candid → u.Innocent) := by
  induction fuel generalizing m index with
  | zero => exact exhausted hm
  | succ fuel ih =>
    rw [runOps_succ]
    refine bind (tierTurn he hm hc mark hi) ?_
    rintro next m₁ hm₁ ⟨h₁, hnext⟩
    cases next with
    | inr value => exact ret hm₁ h₁
    | inl next =>
      refine (ih hm₁ (h₁.compiled hc) (hnext next rfl)).mono (fun _ _ _ h => h₁.trans h) ?_
      exact fun _ _ _ h => ⟨h₁.trans h.1, fun hc => h.2 (Leaving.candid h₁ hc)⟩

/-- **Tier code runs the top frame** and pops it. -/
theorem runCompiled (he : env.Faithful) (hm : m.Intact) (hc : m.Compiled code) :
    Goes m (runCompiled code env m) (fun _ m' => m.Stands m.spots.dropLast m')
      fun u m' => m.Stands m.spots.dropLast m' ∧ (m.Candid → u.Innocent) := by
  obtain ⟨f, entry, hf, hcode, hl⟩ := id hc
  have hpos : 0 < m.frames.size := by
    obtain ⟨below, hframes⟩ := frame?_eq_some.mp hf
    simp [hframes]
  have hstart := ((hm.code? hcode).encloses hl).1.start
  refine look (ask (bind (runOps he hm hc _ _ hstart).attempt ?_))
  intro r m₁ hm₁ hr
  cases r with
  | ok value =>
    have hsize : m.frames.size - 1 + 1 = m₁.frames.size := by rw [hr.length]; omega
    obtain ⟨hstands, hbelow⟩ := hr.below
    refine bind (popFramesTo he hm₁ (Nat.le_of_eq hsize)) ?_
    intro _ m₂ hm₂ h₂
    rw [hsize, ← length_spots, List.take_length] at h₂
    refine bind (finishReturn he hm₂ value) ?_
    intro _ m₃ hm₃ h₃
    rw [h₂.spots, hbelow] at h₃
    exact ret hm₃ (hstands.trans (h₂.trans h₃))
  | error u =>
    obtain ⟨hstands, hbelow⟩ := hr.1.below
    refine bind (popFramesTo he hm₁ (by rw [hr.1.length]; omega)) ?_
    intro _ m₂ hm₂ h₂
    rw [← hr.1.length, ← length_spots, ← List.dropLast_eq_take, hbelow] at h₂
    exact unwind hm₂ ⟨hstands.trans h₂, hr.2⟩

end Goes

end ScriptMachine
