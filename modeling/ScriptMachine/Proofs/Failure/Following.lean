import ScriptMachine.Proofs.Failure.Probe

/-! # Runs side by side

A `Watch` compares two probed machines: the runs of an action are the same, or they have gone apart in a
certain way, `Off`. What has to be known about `Off` is said by `Watch.Sound`: it is kept by whatever
comes next, and it is right at the few places that catch something. From this all actions of the one
machine follow those of the other, up to nested activities of any depth and to what a host does to run
scripts (`Watch.Sound.invocation`). -/

namespace ScriptMachine

open Machine

/-- **A comparison** of two probed machines. -/
structure Watch where
  /-- Stops the machines at a checkpoint. -/
  pause : Machine → List Value → Bool
  /-- The probe of the machine that leads. -/
  probe : Probe
  /-- The probe of the machine that follows. -/
  other : Probe
  /-- How their runs may go apart. -/
  Off : {α : Type} → EStateM.Result Stop Machine α → EStateM.Result Stop Machine α → Prop

/-- **A stub call, and taking what it raised**: the routine is attempted, and nothing stays parked. -/
theorem callStub_bind {α : Type} (routine : Routine) (words : List StubWord)
    (raised : Unwind → MachineM α) (answered : StubReturn → MachineM α) :
    (callStub routine words >>= fun answer =>
      if answer.isException then takeStubUnwind >>= raised else answered answer) = (do
      let frame := (← get).stubFrame words
      modify fun m => { m with stubFrames := m.stubFrames.push frame }
      match ← attempt (runRoutine frame routine) with
      | .ok answer =>
        modify fun m => { m with stubFrames := m.stubFrames.pop }
        if answer.isException then takeStubUnwind >>= raised else answered answer
      | .error u =>
        modify fun m => { m with stubFrames := m.stubFrames.pop }
        modify fun m => { m with stubUnwind := none }
        raised u) := by
  rw [callStub_eq]
  simp only [bind_assoc]
  refine bind_congr fun m => bind_congr fun _ => bind_congr fun r => ?_
  cases r with
  | ok answer => simp only [pure_bind]
  | error u => rfl

/-- A stub call of a host function tells what the routine raised. -/
theorem answer_stub (routine : Routine) (words : List StubWord) : answer (.stub routine words) = (do
    let frame := (← get).stubFrame words
    modify fun m => { m with stubFrames := m.stubFrames.push frame }
    match ← attempt (runRoutine frame routine) with
    | .ok answer =>
      modify fun m => { m with stubFrames := m.stubFrames.pop }
      if answer.isException then takeStubUnwind >>= fun u => pure (.error u.failure) else pure (.ok answer)
    | .error u =>
      modify fun m => { m with stubFrames := m.stubFrames.pop }
      modify fun m => { m with stubUnwind := none }
      pure (.error u.failure) : MachineM (Except Failure StubReturn)) :=
  callStub_bind routine words (fun u => pure (Except.error u.failure : Except Failure StubReturn))
    fun answer => pure (Except.ok answer)

namespace Watch

variable {α β : Type}

section
variable (T : Watch)

/-- The one machine runs `x'`, the other `x`, and the runs are the same or related by `R`. -/
def AgreeOr (R : EStateM.Result Stop Machine α → EStateM.Result Stop Machine α → Prop) (fuel : Nat)
    (m : Machine) (x' x : MachineM α) : Prop :=
  x' (T.probe.env T.pause fuel) m = x (T.other.env T.pause fuel) m ∨
    R (x' (T.probe.env T.pause fuel) m) (x (T.other.env T.pause fuel) m)

/-- The runs agree or have gone apart. -/
abbrev Agree (fuel : Nat) (m : Machine) (x' x : MachineM α) : Prop := T.AgreeOr T.Off fuel m x' x

/-- Nested activities agree. -/
def Nested (fuel : Nat) : Prop :=
  ∀ activity m, T.probe.perform T.pause fuel activity m = T.other.perform T.pause fuel activity m ∨
    T.Off (T.probe.perform T.pause fuel activity m) (T.other.perform T.pause fuel activity m)

/-- **An action of the one machine follows one of the other.** -/
def Follows (x' x : MachineM α) : Prop := ∀ fuel m, T.Nested fuel → T.Agree fuel m x' x

/-- **What has to be known about runs that have gone apart.** -/
structure Sound : Prop where
  /-- What comes next does not bring them together. -/
  bind : ∀ {α β : Type} {x' x : MachineM α} {g' g : α → MachineM β} {fuel : Nat} {m : Machine},
    T.Off (x' (T.probe.env T.pause fuel) m) (x (T.other.env T.pause fuel) m) →
    T.Off ((x' >>= g') (T.probe.env T.pause fuel) m) ((x >>= g) (T.other.env T.pause fuel) m)
  /-- What catches everything only to clean up is right. -/
  cleans : ∀ {α β : Type} {x' x : MachineM α} {k' k : Except Unwind α → MachineM β}
    {cleanup : MachineM PUnit} {fuel : Nat} {m : Machine},
    T.Off (x' (T.probe.env T.pause fuel) m) (x (T.other.env T.pause fuel) m) →
    Local cleanup → Winding T.pause cleanup → (∀ u, k' (.error u) = cleanup >>= fun _ => unwind u) →
    (∀ u, k (.error u) = cleanup >>= fun _ => unwind u) →
    T.Agree fuel m (attempt x' >>= k') (attempt x >>= k)
  /-- A turn of the loop is right. -/
  turn : ∀ {x' x : MachineM Flow} (entryDepth mark : Nat) {fuel : Nat} {m : Machine},
    T.Agree fuel m x' x →
    T.Agree fuel m (attempt x' >>= fun r => T.probe.ends r >>= T.probe.settle entryDepth mark)
      (attempt x >>= fun r => T.other.ends r >>= T.other.settle entryDepth mark)
  /-- A turn of tier code is right. -/
  tierTurn : ∀ {x' x : MachineM TierStep} (code : Lowered) (index : Nat) {fuel : Nat} {m : Machine},
    T.Agree fuel m x' x →
    T.Agree fuel m (attempt x' >>= fun r => T.probe.ends r >>= T.probe.settleOperation code index)
      (attempt x >>= fun r => T.other.ends r >>= T.other.settleOperation code index)
  /-- The entry of a function is right. -/
  entry : ∀ {α β : Type} {x : MachineM α} {k' k : Except Unwind α → MachineM β}
    {cleanup : MachineM PUnit} {fuel : Nat} {m : Machine}, Local x →
    Local cleanup → Winding T.pause cleanup → (∀ u, k' (.error u) = cleanup >>= fun _ => unwind u) →
    (∀ u, k (.error u) = cleanup >>= fun _ => unwind u) →
    (∀ a m, T.Agree fuel m (k' (.ok a)) (k (.ok a))) →
    T.Agree fuel m (attempt x >>= fun r => T.probe.ends r >>= k')
      (attempt x >>= fun r => T.other.ends r >>= k)

end

variable {T : Watch} {x x' : MachineM α} {g g' : α → MachineM β} {fuel : Nat} {m : Machine}

/-! ### Rules -/

section
variable {R : EStateM.Result Stop Machine α → EStateM.Result Stop Machine α → Prop}
  {R' : EStateM.Result Stop Machine β → EStateM.Result Stop Machine β → Prop}

/-- After runs that are the same, the rest agrees. -/
theorem agree_bind (heq : x' (T.probe.env T.pause fuel) m = x (T.other.env T.pause fuel) m)
    (hg : ∀ a m', x (T.other.env T.pause fuel) m = .ok a m' → T.AgreeOr R' fuel m' (g' a) (g a)) :
    T.AgreeOr R' fuel m (x' >>= g') (x >>= g) := by
  unfold AgreeOr
  cases hr : x (T.other.env T.pause fuel) m with
  | ok a m' =>
    rw [bind_eq_of_ok hr, bind_eq_of_ok (heq.trans hr)]
    exact hg a m' hr
  | error stop m' =>
    rw [bind_eq_of_error hr, bind_eq_of_error (heq.trans hr)]
    exact .inl rfl

/-- After runs that are the same, what catches everything agrees. -/
theorem agree_attempt {k' k : Except Unwind α → MachineM β}
    (heq : x' (T.probe.env T.pause fuel) m = x (T.other.env T.pause fuel) m)
    (hk : ∀ r m', T.AgreeOr R' fuel m' (k' r) (k r)) :
    T.AgreeOr R' fuel m (attempt x' >>= k') (attempt x >>= k) := by
  refine agree_bind ?_ fun r m' _ => hk r m'
  unfold attempt
  rw [heq]

theorem agree_look {g' g : Machine → MachineM β} (hg : T.AgreeOr R' fuel m (g' m) (g m)) :
    T.AgreeOr R' fuel m (get >>= g') (get >>= g) := hg

/-- A local action does the same in both machines. -/
theorem agree_same (hx : Local x) : T.AgreeOr R fuel m x x :=
  .inl (congrFun ((hx _ _).trans (hx _ _).symm) m)

end

theorem Follows.same (hx : Local x) : T.Follows x x := fun _ _ _ => agree_same hx

/-- What comes after a local action. -/
theorem Follows.after (hx : Local x) (hg : ∀ a, T.Follows (g' a) (g a)) :
    T.Follows (x >>= g') (x >>= g) := fun fuel m hn =>
  agree_bind (congrFun ((hx _ _).trans (hx _ _).symm) m) fun a m' _ => hg a fuel m' hn

/-- What reads how many steps loops may take. -/
theorem Follows.steps {y y' : Env → MachineM α}
    (hy : ∀ env' env : Env, env'.fuel = env.fuel → T.Follows (y' env') (y env)) :
    T.Follows (read >>= y') (read >>= y) := fun fuel m hn =>
  hy (T.probe.env T.pause fuel) (T.other.env T.pause fuel) rfl fuel m hn

theorem Follows.ite {c : Prop} [Decidable c] {y y' : MachineM α} (hx : T.Follows x' x)
    (hy : T.Follows y' y) : T.Follows (if c then x' else y') (if c then x else y) := by
  split
  · exact hx
  · exact hy

theorem Follows.nested {activity : Activity} (h : ∀ event, activity ≠ .notify event) :
    T.Follows (reenter activity) (reenter activity) := by
  intro fuel m hn
  cases activity with
  | notify event => exact absurd rfl (h event)
  | host function call => exact hn _ m
  | frame => exact hn _ m

/-- A host function that both machines mind. -/
theorem host_agrees {function : HostId} {call : HostCall} (hprobe : T.probe.minds m function call)
    (hother : T.other.minds m function call)
    (h : T.Agree fuel m (runHostFunctionBy T.probe.runHost function call)
      (runHostFunctionBy T.other.runHost function call)) :
    T.probe.perform T.pause (fuel + 1) (.host function call) m =
        T.other.perform T.pause (fuel + 1) (.host function call) m ∨
      T.Off (T.probe.perform T.pause (fuel + 1) (.host function call) m)
        (T.other.perform T.pause (fuel + 1) (.host function call) m) := by
  have minded {p : Probe} (hp : p.minds m function call) :
      p.perform T.pause (fuel + 1) (.host function call) m =
        runHostFunctionBy p.runHost function call (p.env T.pause fuel) m := if_pos hp
  rw [minded hprobe, minded hother]
  exact h

namespace Sound

variable (hT : T.Sound)
include hT

/-- **One action after the other.** -/
theorem after (hx : T.Follows x' x) (hg : ∀ a, T.Follows (g' a) (g a)) :
    T.Follows (x' >>= g') (x >>= g) := by
  intro fuel m hn
  rcases hx fuel m hn with heq | hoff
  · exact agree_bind heq fun a m' _ => hg a fuel m' hn
  · exact .inr (hT.bind hoff)

/-- **What catches everything only to clean up.** -/
theorem cleaned {k' k : Except Unwind α → MachineM β} {cleanup : MachineM PUnit}
    (hx : T.Follows x' x) (hc : Local cleanup) (hw : Winding T.pause cleanup)
    (hk' : ∀ u, k' (.error u) = cleanup >>= fun _ => unwind u)
    (hk : ∀ u, k (.error u) = cleanup >>= fun _ => unwind u)
    (hok : ∀ a, T.Follows (k' (.ok a)) (k (.ok a))) :
    T.Follows (attempt x' >>= k') (attempt x >>= k) := by
  intro fuel m hn
  rcases hx fuel m hn with heq | hoff
  · refine agree_attempt heq fun r m' => ?_
    cases r with
    | ok a => exact hok a fuel m' hn
    | error u =>
      rw [hk', hk]
      exact Follows.same (hc.bind fun _ => .unwind u) fuel m' hn
  · exact hT.cleans hoff hc hw hk' hk

/-! ### Calls -/

theorem invokeHost (function : HostId) (callee this : Value) (args : Array Value)
    (isConstruct : Bool) : T.Follows (invokeHost function callee this args isConstruct)
      (invokeHost function callee this args isConstruct) :=
  hT.after (.nested fun _ h => by cases h) fun _ => .same (.bind .look fun _ => .ret _)

/-- **A call** from the host, a stub or tier code. -/
theorem callValue (callee this : Value) (args : Array Value) (isConstruct : Bool) (site : Site) :
    T.Follows (callValue callee this args isConstruct site)
      (callValue callee this args isConstruct site) := by
  refine .after (.resolveCallee _ _ _) fun ⟨function, target⟩ => .after (.receiver _ _ _) fun this =>
    .after (.checkpoint _) fun _ => ?_
  cases target with
  | host host => exact hT.invokeHost _ _ _ _ _
  | script code => exact .after (.pushFrame _ _ _ _ _ _ _) fun _ => .nested fun _ h => by cases h

/-! ### Stubs -/

theorem runRoutine (frame : StubFrame) (routine : Routine) :
    T.Follows (runRoutine frame routine) (runRoutine frame routine) := by
  cases routine with
  | call | construct => exact hT.after (hT.callValue _ _ _ _ _) fun _ => .same (.ret _)
  | binary op => exact .same (.bind (.applyBinary _ _ _) fun _ => .ret _)
  | unary op => exact .same (.bind (.applyUnary _ _) fun _ => .ret _)
  | getById => exact .same (.bind (.getById _ _ _) fun _ => .ret _)
  | putById => exact .same (.bind (.putById _ _ _ _) fun _ => .ret _)
  | getByVal => exact .same (.bind (.getByVal _ _) fun _ => .ret _)
  | putByVal => exact .same (.bind (.putByVal _ _ _) fun _ => .ret _)
  | deleteById => exact .same (.bind (.deleteById _ _) fun _ => .ret _)
  | hasProperty => exact .same (.bind (.hasKey _ _) fun _ => .ret _)
  | instanceOf => exact .same (.bind (.instanceOf _ _) fun _ => .ret _)
  | getGlobal => exact .same (.bind (.getGlobalById _ _) fun _ => .ret _)
  | putGlobal => exact .same (.bind (.putGlobalById _ _ _) fun _ => .ret _)
  | newObject => exact .same (.bind .newObject fun _ => .ret _)
  | newArray => exact .same (.bind (.newArray _) fun _ => .ret _)
  | newFunction => exact .same (.bind (.newClosure _) fun _ => .ret _)
  | callArityCheck =>
    refine .same (.bind .look fun m => ?_)
    split
    · exact .ret _
    · exact .raiseError _ _
  | tearOffActivation => exact .same (.bind .tearOffActivation fun _ => .ret _)
  | pushScope => exact .same (.bind (.pushScope _) fun _ => .ret _)
  | popScope | putScopedVar => exact .same (.bind (.change _) fun _ => .ret _)
  | getScopedVar => exact .same (.bind .look fun _ => .ret _)
  | resolve => exact .same (.bind (.resolveName _) fun _ => .ret _)
  | argumentsObject => exact .same (.bind .argumentsObject fun _ => .ret _)
  | throw => exact .same (.raise _)
  | timeoutCheck => exact .same (.bind .checkInterrupt fun _ => .ret _)
  | registerFileCheck =>
    exact .same (.bind (.bind .look fun _ => .ite (.raiseError _ _) (.ret _)) fun _ => .ret _)
  | debugStatement => exact .same (.bind (.notifyAt _ _ _) fun _ => .ret _)

/-- **A stub call of tier code** unwinds with what the routine raised. -/
theorem tierStub (pc : UInt32) (routine : Routine) (words : List StubWord) :
    T.Follows (tierStub pc routine words) (tierStub pc routine words) := by
  refine .after (.change _) fun _ => ?_
  simp only [callStub_bind]
  refine .after .look fun m => .after (.change _) fun _ => ?_
  have hcleanup : Local (do
      modify fun m => { m with stubFrames := m.stubFrames.pop }
      modify fun m => { m with stubUnwind := none } : MachineM PUnit) :=
    .bind (.change _) fun _ => .change _
  refine hT.cleaned (hT.runRoutine _ _) hcleanup
    (.bind (.change fun _ _ _ h => h.stubs _ _) fun _ => .change fun _ _ _ h => h.stubs _ _)
    (fun u => by rw [bind_assoc]) (fun u => by rw [bind_assoc]) fun answer => .same ?_
  exact .bind (.change _) fun _ => .ite (.bind (.step _) fun _ => .unwind _) (.ret _)

/-! ### Tier code -/

theorem tierBinary (pc : UInt32) (op : BinaryOp) (lhs rhs : Register) :
    T.Follows (tierBinary pc op lhs rhs) (tierBinary pc op lhs rhs) := by
  refine .after .look fun m => ?_
  dsimp only
  split
  · exact .ite (.same (.ret _)) (hT.tierStub _ _ _)
  · exact hT.tierStub _ _ _

/-- **One operation of tier code.** -/
theorem tierStep (pc : UInt32) (op : TierOp) : T.Follows (tierStep pc op) (tierStep pc op) := by
  have stored {x : MachineM Value} (dst : Register) (hx : T.Follows x x) :
      T.Follows (x >>= tierStep.store dst) (x >>= tierStep.store dst) :=
    hT.after hx fun _ => .same (.tierStore _ _)
  cases op with
  | loadValue dst value => exact .same (.tierStore _ _)
  | loadConstant dst index => exact .same (.bind .look fun _ => .tierStore _ _)
  | loadThis dst => exact .same (.bind .look fun _ => .tierStore _ _)
  | move dst src => exact .same (.bind .look fun _ => .tierStore _ _)
  | binary op dst lhs rhs => exact stored dst (hT.tierBinary _ _ _ _)
  | unary op dst src =>
    refine .after .look fun m => ?_
    dsimp only
    split
    · exact .same (.tierStore _ _)
    · exact stored dst (hT.tierStub _ _ _)
  | compareAndBranch op dst lhs rhs sense target fallthrough =>
    exact hT.after (hT.tierBinary _ _ _ _) fun _ =>
      .same (.bind (.discarded (.tierStore _ _)) fun _ => .ret _)
  | jump target => exact .same (.ret _)
  | branch cond sense target => exact .same (.bind .look fun _ => .ret _)
  | loop target =>
    exact hT.after (hT.after (hT.tierStub _ _ _) fun _ => .same (.ret _)) fun _ => .same (.ret _)
  | stub routine dst args =>
    refine .after .look fun m => hT.after (hT.tierStub _ _ _) fun value => ?_
    cases dst with
    | some dst => exact .same (.tierStore _ _)
    | none => exact .same (.ret _)
  | callMethod dst base name propertySite callSite args =>
    exact .after .look fun _ => hT.after (hT.tierStub _ _ _) fun _ => .after .look fun _ =>
      stored dst (hT.tierStub _ _ _)
  | catchInto dst => exact .same (.bind .takeException fun _ => .tierStore _ _)
  | ret src => exact .same (.bind .look fun _ => .ret _)

theorem runOps (code : Lowered) (mark fuel index : Nat) :
    T.Follows (T.probe.runOps code mark fuel index) (T.other.runOps code mark fuel index) := by
  induction fuel generalizing index with
  | zero => exact fun _ _ _ => .inl rfl
  | succ fuel ih =>
    unfold Probe.runOps operation
    cases code.ops[index]? with
    | none =>
      simp only [pure_bind]
      exact .same (.ret _)
    | some op =>
      simp only [bind_assoc, pure_bind]
      refine .after (.checkpoint _) fun _ => .after (.modifyHeap _) fun _ => ?_
      simp only [← bind_assoc]
      refine hT.after (fun n m hn => ?_) fun next => ?_
      · simp only [bind_assoc]
        exact hT.tierTurn code index (hT.tierStep _ op n m hn)
      · cases next with
        | inl next => exact ih next
        | inr value => exact .same (.ret _)

/-- **Running the top frame by tier code.** -/
theorem runCompiled (code : Lowered) :
    T.Follows (runCompiledBy T.probe.runOps code) (runCompiledBy T.other.runOps code) := by
  refine .after .look fun m => ?_
  dsimp only
  refine .steps fun env' env hfuel => ?_
  rw [hfuel]
  exact hT.cleaned (hT.runOps code _ env.fuel 0) (.popFramesTo _) (.popFramesTo _) (fun _ => rfl)
    (fun _ => rfl) fun value => .same (.bind (.popFramesTo _) fun _ => .bind (.finishReturn _) fun _ => .ret _)

/-! ### The interpreter -/

theorem callFromFrame (dst : Register) (callee this : Value) (args : Array Value)
    (isConstruct : Bool) (site : Site) : T.Follows
      (callFromFrameBy (runCompiledBy T.probe.runOps) dst callee this args isConstruct site)
      (callFromFrameBy (runCompiledBy T.other.runOps) dst callee this args isConstruct site) := by
  refine .after (.resolveCallee _ _ _) fun ⟨function, target⟩ => .after (.receiver _ _ _) fun this =>
    .after (.checkpoint _) fun _ => ?_
  cases target with
  | host host => exact hT.after (hT.invokeHost _ _ _ _ _) fun _ => .same (.change _)
  | script code =>
    refine .after (.pushFrame _ _ _ _ _ _ _) fun _ => .after .functionEntry fun lowered => ?_
    cases lowered with
    | some lowered => exact hT.after (hT.runCompiled lowered) fun _ => .same (.change _)
    | none => exact .same (.ret _)

/-- **One instruction.** -/
theorem step (code : CodeId) (opcode : Opcode) :
    T.Follows (T.probe.step code opcode) (T.other.step code opcode) := by
  have called (dst : Register) (callee this : Value) (args : Array Value) (isConstruct : Bool) (site : Site) :=
    hT.after (hT.callFromFrame dst callee this args isConstruct site) fun _ =>
      Follows.same (x := pure Flow.next) (.ret _)
  cases hcall : opcode.callResult? with
  | none =>
    unfold Probe.step
    rw [stepBy_of_callResult?_eq_none hcall, stepBy_of_callResult?_eq_none hcall]
    exact .same (.opcode code hcall)
  | some dst =>
    cases opcode with
    | call => exact .after .look fun _ => called _ _ _ _ _ _
    | construct => exact .after .look fun _ => called _ _ _ _ _ _
    | callMethod =>
      exact .after (.stepReg _) fun _ => .after (.identifierAtom _ _) fun _ =>
        .after (.getById _ _ _) fun _ => .after .look fun _ => called _ _ _ _ _ _
    | _ => cases hcall

/-- **The loop of the interpreter.** -/
theorem runLoop (entryDepth mark fuel : Nat) :
    T.Follows (T.probe.runLoop entryDepth mark fuel) (T.other.runLoop entryDepth mark fuel) := by
  induction fuel with
  | zero => exact fun _ _ _ => .inl rfl
  | succ fuel ih =>
    have turned {x' x : MachineM Flow} (hx : T.Follows x' x) : T.Follows
        ((attempt x' >>= fun r => T.probe.ends r >>= T.probe.settle entryDepth mark) >>=
          orReturn (T.probe.runLoop entryDepth mark fuel))
        ((attempt x >>= fun r => T.other.ends r >>= T.other.settle entryDepth mark) >>=
          orReturn (T.other.runLoop entryDepth mark fuel)) := by
      refine hT.after (fun n m hn => hT.turn entryDepth mark (hx n m hn)) fun next => ?_
      cases next with
      | none =>
        rw [orReturn_none, orReturn_none]
        exact ih
      | some value =>
        rw [orReturn_some, orReturn_some]
        exact .same (.ret _)
    unfold Probe.runLoop Probe.instruction
    simp only [bind_assoc]
    refine .after (.checkpoint _) fun _ => .after .fetch fun fetched => ?_
    cases fetched with
    | none =>
      simp only [pure_bind]
      exact .same (.ret _)
    | some fetched =>
      obtain ⟨code, opcode⟩ := fetched
      cases opcode with
      | none =>
        have h := turned (.same (x := pure (Flow.ret .undefined)) (.ret _))
        simp only [bind_assoc] at h
        exact h
      | some opcode =>
        have h := turned (hT.step code opcode)
        simp only [bind_assoc] at h
        simp only [bind_assoc, pure_bind]
        exact h

/-- **Running the top frame.** -/
theorem runFrame : T.Follows T.probe.runFrame T.other.runFrame := by
  refine .after .look fun m n m' hn => ?_
  refine hT.entry .functionEntry (.popFramesTo _) (.popFramesTo _) (fun _ => rfl) (fun _ => rfl)
    fun lowered m'' => ?_
  cases lowered with
  | some lowered => exact hT.runCompiled lowered n m'' hn
  | none =>
    have h : T.Follows
        (get >>= fun m₁ => read >>= fun env =>
          T.probe.runLoop (m.frames.size - 1) m₁.heap.temporaries.size env.fuel)
        (get >>= fun m₁ => read >>= fun env =>
          T.other.runLoop (m.frames.size - 1) m₁.heap.temporaries.size env.fuel) :=
      .after .look fun m₁ => .steps fun env' env hfuel => by
        rw [hfuel]
        exact hT.runLoop _ _ _
    exact h n m'' hn

/-! ### What a host does -/

/-- **A call from the host.** -/
theorem enter {body' body : MachineM Value} (hbody : T.Follows body' body) :
    T.Follows (enter body') (enter body) := by
  refine .after .look fun m => .ite (.same (.raiseError _ _)) (.after (.change _) fun _ => ?_)
  have hcleanup : Local (modify fun m =>
      { m with reentryDepth := m.reentryDepth - 1
               watchdog := if m.reentryDepth = 1 then m.watchdog.disarm else m.watchdog }) := .change _
  refine hT.cleaned hbody hcleanup (.change fun _ _ m h => h.books _ _) (fun _ => rfl) (fun _ => rfl)
    fun value => ?_
  exact .same (.bind (.change _) fun _ => .ret _)

theorem call (function this : Value) (args : Array Value) :
    T.Follows (call function this args) (call function this args) := hT.enter (hT.callValue _ _ _ _ _)

theorem construct (function : Value) (args : Array Value) :
    T.Follows (construct function args) (construct function args) := hT.enter (hT.callValue _ _ _ _ _)

theorem runProgram (block : Block) : T.Follows (runProgram block) (runProgram block) := by
  refine .after (.load block) fun program => .after (.notify _) fun _ => .after .look fun m => ?_
  exact hT.cleaned (hT.call _ _ _) (Local.notify .didExecuteProgram) (.notifyAt _ _ _)
    (fun _ => rfl) (fun _ => rfl) fun value => .same (.bind (.notify _) fun _ => .ret _)

/-- **A host function**, if host programs go on in the same way in both machines. -/
theorem runHostFunction (hrun : ∀ program, T.Follows (T.probe.runHost program) (T.other.runHost program))
    (function : HostId) (call : HostCall) : T.Follows
      (runHostFunctionBy T.probe.runHost function call)
      (runHostFunctionBy T.other.runHost function call) := by
  refine .after .look fun m => ?_
  cases m.hosts[function.index]? with
  | none => exact .same (.fatal _)
  | some entry =>
    refine .after (.change _) fun _ => hT.after (hrun _) fun result => .same (.bind (.change _) fun _ => ?_)
    cases result with
    | ok value => exact .bind (.modifyHeap _) fun _ => .ret _
    | error failure =>
      cases failure with
      | exception v => exact .raiseFromHost v
      | _ => exact .fatal _

/-- **Nested activities agree**, if host functions do. -/
theorem nested (hhosts : ∀ fuel, T.Nested fuel → ∀ function call m,
      T.probe.perform T.pause (fuel + 1) (.host function call) m =
        T.other.perform T.pause (fuel + 1) (.host function call) m ∨
      T.Off (T.probe.perform T.pause (fuel + 1) (.host function call) m)
        (T.other.perform T.pause (fuel + 1) (.host function call) m)) (fuel : Nat) : T.Nested fuel := by
  induction fuel with
  | zero => exact fun activity m => .inl rfl
  | succ fuel ih =>
    intro activity m
    cases activity with
    | notify event => exact .inl rfl
    | frame => exact hT.runFrame fuel m ih
    | host function call => exact hhosts fuel ih function call m

end Sound

end Watch

/-! ### Invocations -/

/-- **What a host does to run scripts.** -/
inductive Invocation where
  /-- Calling a function. -/
  | call (function this : Value) (args : Array Value)
  /-- Calling a function as a constructor. -/
  | construct (function : Value) (args : Array Value)
  /-- Running a program. -/
  | program (block : Block)

/-- Runs the scripts. -/
def Invocation.run : Invocation → MachineM Value
  | .call function this args => ScriptMachine.call function this args
  | .construct function args => ScriptMachine.construct function args
  | .program block => runProgram block

theorem Watch.Sound.invocation {T : Watch} (hT : T.Sound) (i : Invocation) : T.Follows i.run i.run := by
  cases i with
  | call function this args => exact hT.call _ _ _
  | construct function args => exact hT.construct _ _
  | program block => exact hT.runProgram block

end ScriptMachine
