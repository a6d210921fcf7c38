import ScriptMachine.Machine.Compiled
import ScriptMachine.Proofs.Stack.Call
import ScriptMachine.Proofs.Stub.Frame
import ScriptMachine.Proofs.Tier.Lowering

/-! # Stubs and tier code

What a stub does to the stacks is what its routine does (`Proceeds.callStub`). An operation of tier code
advances the frame it runs on (`Proceeds.tierStep`), so that a run of tier code stays on that frame
(`Proceeds.runOps`) and pops it in the end (`Proceeds.runCompiled`).

Tier code moves the variables of its frame only with a closure or a block scope (`TierOp.Tame`), which
is what keeps the scope chain in order. -/

namespace ScriptMachine

open Machine

variable {m m' : Machine}

namespace Keeping

variable {callee : Value}

/-! ### Stubs -/

theorem arityCheck (callee : Value) (argc : UInt32) : Restful (arityCheck callee argc) := by
  refine bind look fun m => ?_
  split
  · exact ret _
  · exact raiseError _ _

theorem registerFileCheck (count : UInt32) : Restful (registerFileCheck count) :=
  bind look fun _ => ite (fun _ => raiseError _ _) fun _ => ret _

/-- **A routine that moves no scope** leaves the stacks as they are. -/
theorem runRoutine (f : StubFrame) {routine : Routine} (hr : routine.movesScope = false) :
    Restful (runRoutine f routine) := by
  have answer {x : MachineM Value} (hx : Restful x) :
      Restful (x >>= ScriptMachine.runRoutine.answer) := bind hx fun _ => ret _
  have test {x : MachineM Bool} (hx : Restful x) :
      Restful (x >>= fun b => ScriptMachine.runRoutine.answer (.boolean b)) := bind hx fun _ => ret _
  have done {x : MachineM Unit} (v : Value) (hx : Restful x) :
      Restful (do x; ScriptMachine.runRoutine.answer v) := bind hx fun _ => ret _
  cases routine with
  | newFunction | tearOffActivation | pushScope | popScope => cases hr
  | binary op => exact answer (applyBinary op _ _)
  | unary op => exact answer (applyUnary op _)
  | getById => exact answer (getById _ _ _)
  | putById => exact done _ (putById _ _ _ _)
  | getByVal => exact answer (getByVal _ _)
  | putByVal => exact done _ (putByVal _ _ _)
  | deleteById => exact test (deleteById _ _)
  | hasProperty => exact test (hasKey _ _)
  | instanceOf => exact test (instanceOf _ _)
  | getGlobal => exact answer (getGlobalById _ _)
  | putGlobal => exact done _ (putGlobalById _ _ _)
  | newObject => exact answer newObject
  | newArray => exact answer (newArray _)
  | call | construct => exact answer callValue
  | callArityCheck => exact arityCheck _ _
  | getScopedVar => exact bind look fun _ => ret _
  | putScopedVar => exact done _ (setScopedVar _ _ _)
  | resolve => exact answer (resolveName _)
  | argumentsObject => exact answer argumentsObject
  | throw => exact raise _
  | timeoutCheck => exact done _ checkInterrupt
  | registerFileCheck => exact done _ (registerFileCheck _)
  | debugStatement => exact done _ (notifyAt _ _ _)

end Keeping

namespace Proceeds

variable {env : Env}

/-- **What a stub does to the stacks** is what its routine does. -/
theorem callStub {routine : Routine} {words : List StubWord} (hm : m.Orderly) {P : Machine → Prop}
    (hP : ∀ m' m'', P m' → m'.Still m'' → P m'')
    (hr : ∀ f (m₁ : Machine), m₁.Orderly → m.Still m₁ →
      Proceeds (runRoutine f routine env m₁) (fun _ m' => P m' ∧ m₁.Balanced m')
        fun _ m' => P m' ∧ m₁.Balanced m') {E : Unwind → Machine → Prop} :
    Proceeds (callStub routine words env m) (fun _ m' => P m' ∧ m.Balanced m') E := by
  have hstub {m : Machine} (hm : m.Orderly) (stubFrames : Array StubFrame) :
      Orderly { m with stubFrames } ∧ m.Still { m with stubFrames } :=
    hm.beside rfl rfl rfl rfl rfl rfl rfl rfl
  let pushed : Machine := { m with stubFrames := m.stubFrames.push (m.stubFrame words) }
  obtain ⟨hm₁, hs₁⟩ := hstub hm (m.stubFrames.push (m.stubFrame words))
  refine look (bind (Q := fun _ m' => m' = pushed) (change hm₁ rfl) ?_)
  rintro _ _ - rfl
  refine bind (hr _ _ hm₁ hs₁).caught ?_
  rintro result m₂ hm₂ ⟨hp₂, hb₂⟩
  obtain ⟨hm₃, hs₃⟩ := hstub hm₂ m₂.stubFrames.pop
  have hb₃ : m.Balanced { m₂ with stubFrames := m₂.stubFrames.pop } := by
    refine ⟨?_, hb₂.reentryDepth⟩
    change m₂.stubFrames.pop = m.stubFrames
    rw [hb₂.stubFrames]
    exact Array.pop_push
  refine bind (Q := fun _ m' => P m' ∧ m.Balanced m') (change hm₃ ⟨hP _ _ hp₂ hs₃, hb₃⟩) ?_
  rintro _ m₃ hm₃ ⟨hp₃, hb₃⟩
  cases result with
  | ok answer => exact ret hm₃ ⟨hp₃, hb₃⟩
  | error u =>
    simp only [parked_fail]
    obtain ⟨hm₄, hs₄⟩ := hm₃.beside (n := { m₃ with stubUnwind := some u })
      rfl rfl rfl rfl rfl rfl rfl rfl
    refine bind (Q := fun _ m' => P m' ∧ m.Balanced m') (change hm₄
      ⟨hP _ _ hp₃ hs₄, hb₃.stubFrames, hb₃.reentryDepth⟩) ?_
    rintro _ m₄ hm₄ h
    exact ret hm₄ h

end Proceeds

namespace Keeping

/-- A stub whose routine leaves the stacks alone. -/
theorem callStub {routine : Routine} (words : List StubWord)
    (hr : ∀ f, Restful (ScriptMachine.runRoutine f routine)) :
    Restful (callStub routine words) := fun env m he hm =>
  Proceeds.callStub (P := m.Still) hm (fun _ _ => Still.trans) fun f m₁ hm₁ hs₁ => by
    refine (hr f env m₁ he hm₁).mono ?_ ?_
    all_goals exact fun _ _ _ h => ⟨hs₁.trans h.1, h.2⟩

theorem takeStubUnwind : Restful takeStubUnwind := step fun m hm => by
  obtain ⟨hm', hs⟩ := hm.beside (n := { m with stubUnwind := none })
    rfl rfl rfl rfl rfl rfl rfl rfl
  exact ⟨hm', hs, rfl, rfl⟩

end Keeping

/-! ### Operations -/

/-- The operation does not move the variables of its frame by itself. -/
def TierOp.Tame : TierOp → Prop
  | .stub routine _ _ => routine ≠ .tearOffActivation
  | _ => True

/-- **Tier code is tame.** -/
theorem CodeEntry.tame_lower {entry : CodeEntry} {l : Lowered} (h : entry.lower = .ok l) :
    ∀ op ∈ l.ops, op.Tame := by
  refine Block.lower_forall (fun opcode op hop => ?_) (fun _ _ _ _ _ _ _ => trivial)
    (fun resolve op hop => by cases op <;> exact hop) h
  cases opcode with
  | loadConst dst index =>
    obtain rfl := Except.ok.inj hop
    split <;> trivial
  | getById _ _ _ _ | putById _ _ _ _ | deleteById _ _ _ | getGlobal _ _ _ | putGlobal _ _ _
  | resolveName _ _ | callMethod _ _ _ _ _ _ _ =>
    obtain ⟨a, -, rfl⟩ := Block.atom_bind_cases hop
    simp [TierOp.Tame]
  | _ =>
    obtain rfl := Except.ok.inj hop
    simp [TierOp.Tame]

namespace Proceeds

variable {env : Env} {code : Lowered}

/-- **A stub call of tier code** does what the routine does, and then unwinds with what it raised. -/
theorem tierStub (he : env.Orderly) (hm : m.Orderly) {pc : UInt32} {routine : Routine}
    {words : List StubWord} {P : Machine → Prop} (hP : ∀ m' m'', P m' → m'.Still m'' → P m'')
    (hr : ∀ f (m₁ : Machine), m₁.Orderly → m.Works m₁ →
      Proceeds (runRoutine f routine env m₁) (fun _ m' => P m' ∧ m₁.Balanced m')
        fun _ m' => P m' ∧ m₁.Balanced m') :
    Proceeds (tierStub pc routine words env m) (fun _ m' => P m' ∧ m.Balanced m')
      fun _ m' => P m' ∧ m.Balanced m' := by
  obtain ⟨hm₁, hw₁, hb₁⟩ := hm.setPc (pc + 1)
  obtain ⟨hm₂, hs₂⟩ := hm₁.beside (n := (m.setPc (pc + 1)).countStubCall)
    rfl rfl rfl rfl rfl rfl rfl rfl
  have hw₂ := hw₁.trans hs₂.works
  refine bind (Q := fun _ m' => m' = (m.setPc (pc + 1)).countStubCall) (change hm₂ rfl) ?_
  rintro _ _ hm₂ rfl
  refine bind (callStub hm₂ hP fun f m₃ hm₃ hs₃ => hr f m₃ hm₃ (hw₂.trans hs₃.works)) ?_
  rintro answer m₃ hm₃ ⟨hp₃, hb₃⟩
  have hb₃ : m.Balanced m₃ := ⟨hb₃.stubFrames, hb₃.reentryDepth⟩
  refine ite (fun _ => ?_) fun _ => ret hm₃ ⟨hp₃, hb₃⟩
  refine bind ((Keeping.takeStubUnwind env m₃ he hm₃).mono (fun _ _ _ h => h) fun _ _ _ h =>
    ⟨hP _ _ hp₃ h.1, hb₃.trans h.2⟩) ?_
  rintro u m₄ hm₄ ⟨hs₄, hb₄⟩
  exact unwind hm₄ ⟨hP _ _ hp₃ hs₄, hb₃.trans hb₄⟩

end Proceeds

namespace Keeping

theorem tierStub {pc : UInt32} {routine : Routine} {words : List StubWord}
    (hr : ∀ f, Keeping Works (ScriptMachine.runRoutine f routine)) :
    Keeping Works (tierStub pc routine words) := fun env m he hm =>
  Proceeds.tierStub (P := m.Works) he hm (fun _ _ hw hs => hw.trans hs.works) fun f m₁ hm₁ hw₁ => by
    refine (hr f env m₁ he hm₁).mono ?_ ?_
    all_goals exact fun _ _ _ h => ⟨hw₁.trans h.1, h.2⟩

theorem tierBinary (pc : UInt32) (op : BinaryOp) (lhs rhs : Register) :
    Keeping Works (tierBinary pc op lhs rhs) := by
  have hstub (words : List StubWord) : Keeping Works (ScriptMachine.tierStub pc (.binary op) words) :=
    tierStub fun f => works (runRoutine f rfl)
  refine bind look fun m => ?_
  dsimp only
  split
  · exact ite (fun _ => ret _) fun _ => hstub _
  · exact hstub _

theorem tierStore (dst : Register) (v : Value) : Keeping Works (tierStep.store dst v) :=
  bind (setRegister dst v) fun _ => ret _

end Keeping

namespace Proceeds

variable {env : Env} {code : Lowered}

/-- A routine that tier code may call advances the frame. -/
theorem runRoutine (he : env.Orderly) (hm : m.Orderly) (hc : m.Compiled code) (f : StubFrame)
    {routine : Routine} (hr : routine ≠ .tearOffActivation) :
    Proceeds (runRoutine f routine env m) (fun _ m' => m.Advances m' ∧ m.Balanced m')
      fun _ m' => m.Advances m' ∧ m.Balanced m' := by
  have works {x : MachineM StubReturn} (hx : Keeping Works x) :
      Proceeds (x env m) (fun _ m' => m.Advances m' ∧ m.Balanced m')
        fun _ m' => m.Advances m' ∧ m.Balanced m' :=
    hx.mono (fun _ _ => Works.advances) env m he hm
  cases hmoves : routine.movesScope with
  | false => exact works (.works (Keeping.runRoutine f hmoves))
  | true =>
    cases routine with
    | newFunction => exact works (Keeping.bind (Keeping.newClosure _) fun _ => Keeping.ret _)
    | tearOffActivation => exact absurd rfl hr
    | pushScope =>
      obtain ⟨g, entry, hg, hentry, -⟩ := hc
      refine bind (pushScope he hm _ fun g' hg' => ?_) fun _ m' hm' h => ret hm' h
      obtain rfl := Option.some.inj (hg.symm.trans hg')
      rw [hentry]
      rfl
    | popScope =>
      refine bind (Keeping.popScope env m he hm) ?_
      rintro _ m' hm' h
      exact ret hm' h
    | _ => cases hmoves

/-- **An operation of tier code** advances its frame. -/
theorem tierStep (he : env.Orderly) (hm : m.Orderly) (hc : m.Compiled code) (pc : UInt32)
    {op : TierOp} (hop : op.Tame) :
    Proceeds (tierStep pc op env m) (fun _ m' => m.Advances m' ∧ m.Balanced m')
      fun _ m' => m.Advances m' ∧ m.Balanced m' := by
  have works {x : MachineM TierStep} (hx : Keeping Works x) :
      Proceeds (x env m) (fun _ m' => m.Advances m' ∧ m.Balanced m')
        fun _ m' => m.Advances m' ∧ m.Balanced m' :=
    hx.mono (fun _ _ => Works.advances) env m he hm
  have stored {x : MachineM Value} (dst : Register) (hx : Keeping Works x) :
      Keeping Works (x >>= ScriptMachine.tierStep.store dst) :=
    Keeping.bind hx fun v => Keeping.tierStore dst v
  cases op with
  | loadValue dst value => exact works (Keeping.tierStore dst value)
  | loadConstant dst index =>
    exact works (Keeping.bind Keeping.look fun _ => Keeping.tierStore dst _)
  | loadThis dst => exact works (Keeping.bind Keeping.look fun _ => Keeping.tierStore dst _)
  | move dst src => exact works (Keeping.bind Keeping.look fun _ => Keeping.tierStore dst _)
  | binary op dst lhs rhs => exact works (stored dst (Keeping.tierBinary pc op lhs rhs))
  | unary op dst src =>
    refine works (Keeping.bind Keeping.look fun _ => ?_)
    dsimp only
    split
    · exact Keeping.tierStore dst _
    · exact stored dst (Keeping.tierStub fun f => .works (Keeping.runRoutine f rfl))
  | compareAndBranch op dst lhs rhs sense target branchPc =>
    exact works (Keeping.bind (Keeping.tierBinary pc op lhs rhs) fun _ =>
      Keeping.bind (Keeping.discarded (Keeping.tierStore dst _)) fun _ => Keeping.ret _)
  | jump target => exact works (Keeping.ret _)
  | branch cond sense target => exact works (Keeping.bind Keeping.look fun _ => Keeping.ret _)
  | loop target =>
    exact works (Keeping.bind (Keeping.discarded (Keeping.tierStub fun f =>
      .works (Keeping.runRoutine f rfl))) fun _ => Keeping.ret _)
  | callMethod dst base name propertySite callSite args =>
    refine works (Keeping.bind Keeping.look fun _ => Keeping.bind (Keeping.tierStub fun f =>
      .works (Keeping.runRoutine f rfl)) fun _ => Keeping.bind Keeping.look fun _ => stored dst ?_)
    exact Keeping.tierStub fun f => .works (Keeping.runRoutine f rfl)
  | catchInto dst => exact works (stored dst (.works Keeping.takeException))
  | ret src => exact works (Keeping.bind Keeping.look fun _ => Keeping.ret _)
  | stub routine dst args =>
    have hstub (words : List StubWord) : Proceeds (ScriptMachine.tierStub pc routine words env m)
        (fun _ m' => m.Advances m' ∧ m.Balanced m') fun _ m' => m.Advances m' ∧ m.Balanced m' := by
      refine tierStub he hm (fun _ _ ha hs => ha.trans_works hs.works) fun f m₁ hm₁ hw₁ => ?_
      exact (runRoutine he hm₁ (hc.shifts hw₁) f hop).mono
        (fun _ _ _ h => ⟨hw₁.trans_advances h.1, h.2⟩) fun _ _ _ h => ⟨hw₁.trans_advances h.1, h.2⟩
    refine look (bind (hstub _) ?_)
    rintro value m₁ hm₁ ⟨ha, hb⟩
    cases dst with
    | none => exact ret hm₁ ⟨ha, hb⟩
    | some dst =>
      refine (Keeping.tierStore dst value env m₁ he hm₁).mono ?_ ?_
      all_goals exact fun _ _ _ h => ⟨ha.trans_works h.1, hb.trans h.2⟩

end Proceeds

/-! ### Runs of tier code -/

/-- **An operation of tier code**, and how it ends; there is none past the end. -/
def operation (code : Lowered) (mark index : Nat) : MachineM (Option (Except Unwind TierStep)) :=
  match code.ops[index]? with
  | none => return none
  | some op => do
    checkpoint []
    modifyHeap (·.truncateTemporaries mark)
    return some (← attempt (tierStep (code.opPcs.getD index 0) op))

/-- The operation that starts at an instruction, or the end of the code. -/
def Lowered.entry (code : Lowered) (pc : UInt32) : Nat :=
  (code.pcToOp.getD pc.toNat none).getD code.ops.size

/-- What becomes of the end of an operation: the code goes on at another operation, or it is done. -/
def settleOperation (code : Lowered) (index : Nat) : Except Unwind TierStep → MachineM (Nat ⊕ Value)
  | .ok .next => return .inl (index + 1)
  | .ok (.jump target) => return .inl target
  | .ok (.ret value) => return .inr value
  | .error (.throw exception) => do
    match ← enterHandler exception with
    | some pc => return .inl (code.entry pc)
    | none => unwind (.throw exception)
  | .error u => unwind u

/-- One turn of tier code. -/
def tierTurn (code : Lowered) (mark index : Nat) : MachineM (Nat ⊕ Value) := do
  match ← operation code mark index with
  | none => return .inr .undefined
  | some flow => settleOperation code index flow

/-- **Tier code takes one turn after the other.** -/
theorem runOps_succ (code : Lowered) (mark fuel index : Nat) :
    runOps code mark (fuel + 1) index = tierTurn code mark index >>= fun
      | .inl next => runOps code mark fuel next
      | .inr value => pure value := by
  unfold tierTurn operation
  rw [runOps]
  cases code.ops[index]? with
  | none => simp only [pure_bind]
  | some op =>
    simp only [bind_assoc, pure_bind]
    refine bind_congr fun _ => bind_congr fun _ => bind_congr fun r => ?_
    cases r with
    | ok flow => cases flow <;> exact (pure_bind _ _).symm
    | error u =>
      cases u with
      | fatal failure => rfl
      | throw exception =>
        simp only [settleOperation, bind_assoc]
        refine bind_congr fun handler => ?_
        cases handler with
        | none => rfl
        | some pc => exact (pure_bind _ _).symm

namespace Proceeds

variable {env : Env} {code : Lowered}

/-- Releasing temporaries. -/
theorem truncate (hm : m.Orderly) (mark : Nat) {E : Unwind → Machine → Prop} :
    Proceeds (modifyHeap (·.truncateTemporaries mark) env m) (fun _ m' => m.Still m' ∧ m.Balanced m')
      E :=
  have h := hm.retains (Heap.retains_truncateTemporaries m.heap mark)
  change h.1 h.2

/-- **An operation of tier code** stays on the frame, however it ends. -/
theorem operation (he : env.Orderly) (hm : m.Orderly) (hc : m.Compiled code) (mark index : Nat)
    {E : Unwind → Machine → Prop} :
    Proceeds (operation code mark index env m) (fun _ m' => m.Advances m' ∧ m.Balanced m') E := by
  unfold ScriptMachine.operation
  cases hop : code.ops[index]? with
  | none => exact ret hm ⟨(Works.refl m).advances, .refl m⟩
  | some op =>
    obtain ⟨-, entry, -, -, hl⟩ := id hc
    refine pass hm (bind (truncate hm mark) ?_)
    rintro _ m₁ hm₁ ⟨hs₁, hb₁⟩
    refine bind (tierStep he hm₁ (hc.shifts hs₁.works) _
      (CodeEntry.tame_lower hl op (Array.mem_of_getElem? hop))).caught ?_
    rintro r m₂ hm₂ ⟨ha, hb₂⟩
    exact ret hm₂ ⟨hs₁.works.trans_advances ha, hb₁.trans hb₂⟩

/-- **A turn of tier code** stays on the frame: an exception without a handler leaves the frame as the
operation that raised it did. -/
theorem tierTurn (he : env.Orderly) (hm : m.Orderly) (hc : m.Compiled code) (mark index : Nat) :
    Proceeds (tierTurn code mark index env m) (fun _ m' => m.Advances m' ∧ m.Balanced m')
      fun _ m' => m.Advances m' ∧ m.Balanced m' := by
  refine bind (operation he hm hc mark index) ?_
  rintro r m₁ hm₁ ⟨ha, hb⟩
  match r with
  | none => exact ret hm₁ ⟨ha, hb⟩
  | some (.ok flow) => cases flow <;> exact ret hm₁ ⟨ha, hb⟩
  | some (.error (.fatal failure)) => exact unwind hm₁ ⟨ha, hb⟩
  | some (.error (.throw exception)) =>
    refine bind (enterHandler hm₁ exception) ?_
    rintro handler m₂ hm₂ ⟨hc₂, hb₂, -⟩
    have h₂ : m.Advances m₂ ∧ m.Balanced m₂ := ⟨ha.trans_closes hc₂, hb.trans hb₂⟩
    cases handler with
    | none => exact unwind hm₂ h₂
    | some pc => exact ret hm₂ h₂

/-- A run of tier code stays on the frame. -/
theorem runOps (he : env.Orderly) (hm : m.Orderly) (hc : m.Compiled code) (mark fuel index : Nat) :
    Proceeds (runOps code mark fuel index env m) (fun _ m' => m.Stays m' ∧ m.Balanced m')
      fun _ m' => m.Stays m' ∧ m.Balanced m' := by
  induction fuel generalizing m index with
  | zero => exact exhausted hm
  | succ fuel ih =>
    rw [runOps_succ]
    refine bind ((tierTurn he hm hc mark index).mono (fun _ _ _ h => h) fun _ _ _ h =>
      ⟨h.1.stays, h.2⟩) ?_
    rintro next m₁ hm₁ ⟨ha, hb⟩
    cases next with
    | inr value => exact ret hm₁ ⟨ha.stays, hb⟩
    | inl next =>
      refine (ih hm₁ (hc.shifts ha) next).mono ?_ ?_
      all_goals exact fun _ _ _ h => ⟨ha.stays.trans h.1, hb.trans h.2⟩

/-- **Tier code runs the top frame** and pops it. -/
theorem runCompiled (he : env.Orderly) (hm : m.Orderly) (hc : m.Compiled code) :
    Proceeds (runCompiled code env m) (fun _ m' => m.Popped m' ∧ m.Balanced m')
      fun _ m' => m.Popped m' ∧ m.Balanced m' := by
  have hpos : 0 < m.frames.size := by
    obtain ⟨f, _, hf, -⟩ := hc
    obtain ⟨below, hframes⟩ := frame?_eq_some.mp hf
    simp [hframes]
  refine look (ask (bind (runOps he hm hc _ _ 0).attempt ?_))
  intro r m₁ hm₁ hr
  cases r with
  | ok value =>
    obtain ⟨hs, hb⟩ := hr
    have hdepth : m.frames.size - 1 + 1 = m₁.frames.size := by rw [hs.size]; omega
    refine bind (popFramesTo he hm₁ (Nat.le_of_eq hdepth)) ?_
    rintro _ m₂ hm₂ ⟨hc₂, hb₂⟩
    refine bind (finishReturn he hm₂ value) ?_
    rintro r m₃ hm₃ ⟨⟨hp₃, hb₃⟩, -⟩
    rw [hdepth] at hc₂
    have hs₂ := hs.trans (hc₂.keeps.still hc₂.size hm₁.stacked hm₂.stacked).works.advances.stays
    exact ret hm₃ ⟨hs₂.popped hp₃, (hb.trans hb₂).trans hb₃⟩
  | error u =>
    obtain ⟨hs, hb⟩ := hr
    refine bind (popFramesTo he hm₁ (by rw [hs.size]; omega)) ?_
    rintro _ m₂ hm₂ ⟨hc₂, hb₂⟩
    exact unwind hm₂ ⟨hc₂.after hs.keeps, hb.trans hb₂⟩

end Proceeds

end ScriptMachine
