import ScriptMachine.Proofs.Events.Metered
import ScriptMachine.Proofs.Events.Operations

/-! # Calls respect every regime

The operations of a machine keep a regime with the number it has; calls keep it with a number that grows by
the frames they push. In a meter whose nested activities do so (`Meter.Serves`), so does everything else
between a host program and a push: calls and stubs, tier code and the interpreter, the host. -/

namespace ScriptMachine

open Machine

namespace Metered

variable {α β : Type} {R : Regime} {μ : Meter} {n : Nat} {m m' : Machine} {x : Metered α}
  {g : α → Metered β} {Q Q' : Nat → α → Machine → Prop} {P : Nat → β → Machine → Prop}

/-- **How a metered action ends**, with the frames it pushes added to the number of the regime. -/
def Ends (R : Regime) (μ : Meter) (n : Nat) (m : Machine) (x : Metered α) (Q : Nat → α → Machine → Prop) :
    Prop :=
  R.Ends (n + x.pushes μ m) m (Q (n + x.pushes μ m)) (x.act μ.env m)

/-- The regime is kept, with the number as it has become. -/
abbrev kept (R : Regime) : Nat → α → Machine → Prop := fun n _ m => R.keeps n m

end Metered

/-- **A regime that nested activities respect as well.** -/
structure Meter.Serves (μ : Meter) (R : Regime) : Prop where
  /-- Operations respect it. -/
  env : R.Serves μ.env
  /-- Host functions do. -/
  host : ∀ {n m} (function : HostId) (c : HostCall), R.keeps n m →
    (Metered.reenter (.host function c)).Ends R μ n m (Metered.kept R)
  /-- A frame that was just pushed does. -/
  frame : ∀ {n m}, R.entered n m → (Metered.reenter .frame).Ends R μ n m (Metered.kept R)

namespace Metered

variable {α β : Type} {R : Regime} {μ : Meter} {n : Nat} {m m' : Machine} {x : Metered α}
  {g : α → Metered β} {Q Q' : Nat → α → Machine → Prop} {P : Nat → β → Machine → Prop}

/-- **A metered action that respects a regime.** -/
def Respects (R : Regime) (x : Metered α) : Prop :=
  ∀ (μ : Meter) (n : Nat) (m : Machine), μ.Serves R → R.keeps n m → x.Ends R μ n m (kept R)

/-! ### Rules -/

namespace Ends

theorem silent {y : MachineM α} (hy : R.Ends n m (Q n) (y μ.env m)) :
    Metered.Ends R μ n m (Metered.silent y) Q := hy

/-- **One action after the other**: the frames that both push are counted. -/
theorem bind (hx : x.Ends R μ n m Q)
    (hg : ∀ k a m', m.Outlasts m' → Q k a m' → (g a).Ends R μ k m' P) :
    (x >>= g).Ends R μ n m P := by
  have hact : (x >>= g).act = x.act >>= fun a => (g a).act := rfl
  have hpushes : (x >>= g).pushes μ m =
      x.pushes μ m + next (fun a => (g a).pushes μ) (x.act μ.env m) := rfl
  unfold Metered.Ends at hx ⊢
  rw [hact, hpushes]
  cases hr : x.act μ.env m with
  | ok a m' =>
    rw [hr] at hx
    rw [bind_eq_of_ok hr]
    have hrest := (hg _ a m' hx.1 hx.2).after hx.1
    rwa [Nat.add_assoc] at hrest
  | error stop m' =>
    rw [hr] at hx
    rw [bind_eq_of_error hr]
    cases stop <;> exact hx

theorem attempt (hx : x.Ends R μ n m (kept R)) : (Metered.attempt x).Ends R μ n m (kept R) :=
  Regime.Ends.attempt hx

/-- **A frame is pushed** and counted. -/
theorem pushFrame (hs : R.Serves μ.env) (hk : R.keeps n m) {function : Handle}
    (hi : m.heap.Issued function) {code : CodeId} (hcode : m.Knows (.script code)) (this : Value)
    (args : Array Value) (returnRegister : Option Register) (isConstruct entryBoundary : Bool) :
    (Metered.pushFrame function code this args returnRegister isConstruct entryBoundary).Ends R μ n m
      fun k _ => R.entered k := by
  have hends := Regime.Ends.pushFrame hs hk hi hcode this args returnRegister isConstruct entryBoundary
  unfold Metered.Ends Metered.pushFrame
  dsimp only
  cases hr : ScriptMachine.pushFrame function code this args returnRegister isConstruct entryBoundary
      μ.env m with
  | ok _ m' =>
    rw [hr] at hends
    exact hends
  | error stop m' =>
    rw [hr] at hends
    cases stop <;> exact hends

end Ends

namespace Respects

theorem silent {y : MachineM α} (hy : R.Respects y) : Respects R (Metered.silent y) :=
  fun μ n m hs hk => hy μ.env n m hs.env hk

theorem ret (a : α) : Respects R (pure a : Metered α) := silent (.ret a)

theorem look : Respects R (liftM (get : MachineM Machine) : Metered Machine) := silent .look

theorem bind (hx : Respects R x) (hg : ∀ a, Respects R (g a)) : Respects R (x >>= g) :=
  fun μ n m hs hk => .bind (hx μ n m hs hk) fun k a m' _ hk' => hg a μ k m' hs hk'

theorem ite {c : Prop} [Decidable c] {y : Metered α} (hx : Respects R x) (hy : Respects R y) :
    Respects R (if c then x else y) := by
  split
  · exact hx
  · exact hy

theorem attempt (hx : Respects R x) : Respects R (Metered.attempt x) :=
  fun μ n m hs hk => .attempt (hx μ n m hs hk)

/-- The bound on the steps of a loop is looked up. -/
theorem bound : Respects R (liftM (read : MachineM Env) : Metered Env) :=
  silent fun _ _ _ _ hk => ⟨.refl _, hk⟩

/-! ### Calls and stubs -/

theorem invokeHost (function : HostId) (callee this : Value) (args : Array Value) (isConstruct : Bool) :
    Respects R (invokeHost function callee this args isConstruct) :=
  bind (fun _ _ _ hs hk => hs.host _ _ hk) fun _ => bind look fun _ => ret _

/-- **What comes before the callee runs**: its handle was issued, and it runs what is registered. -/
theorem prepared (callee this : Value) (args : Array Value) (isConstruct : Bool) (site : Site)
    {g : Handle → Value → CallTarget → Metered α}
    (hg : ∀ μ k m function this target, μ.Serves R → R.keeps k m → m.heap.Issued function →
      m.Knows target → (g function this target).Ends R μ k m (kept R)) :
    Respects R (do
      let found ← resolveCallee callee site isConstruct
      let this ← receiver found.1 this isConstruct
      checkpoint (.cell found.1 :: callee :: this :: args.toList)
      g found.1 this found.2) := by
  intro μ n m hs hk
  refine .bind (Q := fun k found m' => R.keeps k m' ∧ m'.heap.Issued found.1 ∧ m'.Knows found.2)
    (.silent (.resolveCallee hs.env hk _ _ _)) fun k found m₁ _ h => ?_
  refine .bind (silent (.receiver _ _ _) μ k m₁ hs h.1) fun k this m₂ ho₂ hk₂ => ?_
  refine .bind (silent (.checkpoint _) μ k m₂ hs hk₂) fun k _ m₃ ho₃ hk₃ => ?_
  have ho := ho₂.trans ho₃
  exact hg μ k m₃ found.1 this found.2 hs hk₃ (ho.heap.issued _ h.2.1) (ho.knows _ h.2.2)

theorem callValue (callee this : Value) (args : Array Value) (isConstruct : Bool) (site : Site) :
    Respects R (callValue callee this args isConstruct site) := by
  refine prepared callee this args isConstruct site
    (g := fun function this => invoke function callee this args isConstruct)
    fun μ k m function this target hs hk hi hknows => ?_
  cases target with
  | host host => exact invokeHost _ _ _ _ _ μ k m hs hk
  | script code => exact .bind (.pushFrame hs.env hk hi hknows _ _ _ _ _) fun k _ m' _ he => hs.frame he

/-- **A routine of the stub table**; if it matters, it does not move variables on request. -/
theorem runRoutine (f : StubFrame) {routine : Routine}
    (hmoves : R.Lenient ∨ routine ≠ .tearOffActivation) : Respects R (runRoutine f routine) := by
  cases routine with
  | call | construct => exact bind (callValue _ _ _ _ _) fun _ => ret _
  | _ => exact silent (.runRoutine f rfl hmoves)

theorem callStub {routine : Routine} (hmoves : R.Lenient ∨ routine ≠ .tearOffActivation)
    (words : List StubWord) : Respects R (callStub routine words) := by
  refine bind look fun m => bind (silent (.pushStubFrame _)) fun _ =>
    bind (attempt (runRoutine _ hmoves)) fun r => bind (silent .popStubFrame) fun _ => ?_
  cases r with
  | ok answer => exact ret _
  | error u => exact bind (silent (.park u)) fun _ => ret _

/-! ### Tier code -/

theorem tierStub (pc : UInt32) {routine : Routine} (hmoves : R.Lenient ∨ routine ≠ .tearOffActivation)
    (words : List StubWord) : Respects R (tierStub pc routine words) :=
  bind (silent (.countStubCall pc)) fun _ => bind (callStub hmoves words) fun _ =>
    ite (bind (silent .takeStubUnwind) fun _ => silent (.unwind _)) (ret _)

/-- **An operation of tier code** that does not ask for variables to be moved. -/
theorem tierStep (pc : UInt32) {op : TierOp} (hop : op.Modest) : Respects R (tierStep pc op) := by
  cases op with
  | stub routine dst args =>
    refine bind look fun m => bind (tierStub pc (.inr hop) _) fun value => ?_
    cases dst with
    | some dst => exact silent (.tierStore dst value)
    | none => exact ret _
  | callMethod dst base name propertySite callSite args =>
    exact bind look fun _ => bind (silent (.tierStub pc rfl (.inr (by nofun)) _)) fun _ => bind look fun _ =>
      bind (tierStub pc (.inr (by nofun)) _) fun _ => silent (.tierStore _ _)
  | _ => exact silent (.tierStep pc (fun _ _ _ h => by cases h) fun _ _ _ _ _ _ h => by cases h)

theorem operation {code : Lowered} (hcode : code.Modest) (mark index : Nat) :
    Respects R (operation code mark index) := by
  unfold Metered.operation
  cases hop : code.ops[index]? with
  | none => exact ret _
  | some op =>
    exact bind (silent (.checkpoint _)) fun _ => bind (silent (.truncateTemporaries mark)) fun _ =>
      bind (attempt (tierStep _ (hcode op (Array.mem_of_getElem? hop)))) fun _ => ret _

/-- **Tier code**, by induction on the number of operations. -/
theorem runOps {code : Lowered} (hcode : code.Modest) (mark fuel index : Nat) :
    Respects R (runOps code mark fuel index) := by
  induction fuel generalizing index with
  | zero => exact silent fun _ _ _ hs hk => hs.stops hk
  | succ fuel ih =>
    refine bind (operation hcode mark index) fun flow => ?_
    cases flow with
    | none => exact ret _
    | some flow =>
      refine bind (silent (.settleOperation code index flow)) fun next => ?_
      cases next with
      | inl next => exact ih next
      | inr value => exact ret _

theorem runCompiled {code : Lowered} (hcode : code.Modest) : Respects R (runCompiled code) := by
  refine bind look fun m => bind bound fun env => bind (attempt (runOps hcode _ _ 0)) fun r => ?_
  cases r with
  | ok value => exact bind (silent (.popFramesTo _)) fun _ => bind (silent (.finishReturn value)) fun _ => ret _
  | error u => exact bind (silent (.popFramesTo _)) fun _ => silent (.unwind u)

/-! ### The interpreter -/

theorem callFromFrame (dst : Register) (callee this : Value) (args : Array Value) (isConstruct : Bool)
    (site : Site) : Respects R (callFromFrame dst callee this args isConstruct site) := by
  refine prepared callee this args isConstruct site
    (g := fun function this => invokeFromFrame dst function callee this args isConstruct)
    fun μ k m function this target hs hk hi hknows => ?_
  cases target with
  | host host =>
    exact bind (invokeHost _ _ _ _ _) (fun _ => silent (.setRegister _ _)) μ k m hs hk
  | script code =>
    refine .bind (.pushFrame hs.env hk hi hknows _ _ _ _ _) fun k _ m₁ _ he => ?_
    refine .bind (Q := fun k compiled m' => R.keeps k m' ∧ ∀ l, compiled = some l → l.Modest)
      (.silent (.functionEntry hs.env he)) fun k compiled m₂ _ h₂ => ?_
    cases compiled with
    | some compiled =>
      exact bind (runCompiled (h₂.2 _ rfl)) (fun _ => silent (.setRegister _ _)) μ k m₂ hs h₂.1
    | none => exact ret _ μ k m₂ hs h₂.1

/-- **An instruction.** -/
theorem step (code : CodeId) (opcode : Opcode) : Respects R (step code opcode) := by
  cases opcode with
  | call dst callee this firstArg argc cache =>
    exact bind look fun _ => bind (callFromFrame _ _ _ _ _ _) fun _ => ret _
  | callMethod dst base name firstArg argc propertyCache cache =>
    exact bind (silent (.stepReg _)) fun _ => bind (silent (.identifierAtom _ _)) fun _ =>
      bind (silent (.getById _ _ _)) fun _ => bind look fun _ =>
      bind (callFromFrame _ _ _ _ _ _) fun _ => ret _
  | construct dst callee firstArg argc cache =>
    exact bind look fun _ => bind (callFromFrame _ _ _ _ _ _) fun _ => ret _
  | _ => exact silent (.opcode code rfl)

theorem instruction : Respects R instruction := by
  refine bind (silent (.checkpoint _)) fun _ => bind (silent .fetch) fun fetched => ?_
  rcases fetched with _ | ⟨code, _ | opcode⟩
  · exact ret _
  · exact ret _
  · exact bind (attempt (step code opcode)) fun _ => ret _

/-- **The loop of the interpreter**, by induction on the number of instructions. -/
theorem runLoop (entryDepth mark fuel : Nat) : Respects R (runLoop entryDepth mark fuel) := by
  induction fuel with
  | zero => exact silent fun _ _ _ hs hk => hs.stops hk
  | succ fuel ih =>
    refine bind instruction fun flow => ?_
    cases flow with
    | none => exact ret _
    | some flow =>
      refine bind (silent (.settle entryDepth mark flow)) fun next => ?_
      cases next with
      | none => exact ih
      | some value => exact ret _

end Respects

/-- **A frame that was just pushed** is announced and runs. -/
theorem Ends.runFrame (hs : μ.Serves R) (he : R.entered n m) : runFrame.Ends R μ n m (kept R) := by
  have hentry : (Metered.silent (ScriptMachine.attempt functionEntry)).Ends R μ n m fun k r m' =>
      R.keeps k m' ∧ ∀ compiled, r = .ok compiled → ∀ code, compiled = some code → code.Modest :=
    .silent (.attempted (.functionEntry hs.env he))
  refine .bind (Q := fun k _ m' => n = k ∧ m = m') (.silent ⟨.refl _, rfl, rfl⟩) fun k _ m' _ h => ?_
  obtain ⟨rfl, rfl⟩ := h
  dsimp only
  refine .bind hentry fun k entered m₁ _ h => ?_
  obtain ⟨hk, hmodest⟩ := h
  rcases entered with u | _ | compiled
  · exact Respects.bind (.silent (.popFramesTo _)) (fun _ => .silent (.unwind u)) μ k m₁ hs hk
  · exact Respects.bind .look (fun _ => .bind .bound fun _ => .runLoop _ _ _) μ k m₁ hs hk
  · exact Respects.runCompiled (hmodest _ rfl _ rfl) μ k m₁ hs hk

/-! ### The host -/

namespace Respects

/-- The depth of host calls changes, and the outermost one is timed. -/
theorem nested {c : Machine → Machine} (hc : ∀ m : Machine, m.Silently (c m)) :
    Respects R (liftM (modify c : MachineM Unit) : Metered Unit) := silent (.change fun m _ => hc m)

theorem enter {body : Metered Value} (hbody : Respects R body) : Respects R (enter body) := by
  refine bind look fun m => ite (silent (.raiseError _ _)) ?_
  refine bind (nested fun _ => Silently.beside rfl rfl rfl rfl rfl rfl rfl rfl) fun _ =>
    bind (attempt hbody) fun r =>
    bind (nested fun _ => Silently.beside rfl rfl rfl rfl rfl rfl rfl rfl) fun _ => ?_
  cases r with
  | ok value => exact ret _
  | error u => exact silent (.unwind u)

theorem call (function this : Value) (args : Array Value) : Respects R (call function this args) :=
  enter (callValue _ _ _ _ _)

theorem construct (function : Value) (args : Array Value) : Respects R (construct function args) :=
  enter (callValue _ _ _ _ _)

theorem tryCall (hx : Respects R x) : Respects R (tryCall x) := by
  refine bind (attempt hx) fun r => ?_
  cases r with
  | ok a => exact ret _
  | error u => exact ret _

/-- **The answer to a question**; what is written down has to be respected by the regime, and if it matters,
no variables are moved on request. -/
theorem answer {query : HostQuery}
    (hmoves : R.Lenient ∨ ∀ words, query ≠ .stub .tearOffActivation words)
    (hrecord : ∀ entry, query = .record entry → R.Respects (ScriptMachine.answer (.record entry))) :
    Respects R (answer query) := by
  cases query with
  | call function this args => exact tryCall (call _ _ _)
  | construct function args => exact tryCall (construct _ _)
  | stub routine words =>
    refine bind (callStub (hmoves.imp_right fun h => ?_) words) fun _ => ite (bind (silent .takeStubUnwind) fun _ => ret _) (ret _)
    rintro rfl
    exact h words rfl
  | record entry => exact silent (hrecord entry rfl)
  | _ => exact silent (.answer rfl)

end Respects

end Metered

/-- **A host program that a regime admits**: what it writes down and the listeners it adds are respected. -/
inductive Regime.Admits (R : Regime) : HostProgram → Prop
  | done (result : Except Failure Value) : R.Admits (.done result)
  | ask {query : HostQuery} {next : query.Reply → HostProgram} :
      (∀ entry, query = .record entry → R.Respects (ScriptMachine.answer (.record entry))) →
      (∀ reply, R.Admits (next reply)) → R.Admits (.ask query next)
  | listen {listener : Listener} {next : HostProgram} : R.Respects (addListener listener) →
      R.Admits next → R.Admits (.listen listener next)

namespace Metered

variable {R : Regime} {μ : Meter} {n : Nat} {m : Machine}

/-- **A host program** in a lenient regime, by induction on it. -/
theorem Respects.runHost (hlenient : R.Lenient) {program : HostProgram} (hp : R.Admits program) :
    Respects R (runHost program) := by
  induction hp with
  | done result => exact ret _
  | ask hrecord _ ih => exact bind (answer (.inl hlenient) hrecord) ih
  | listen hlistener _ ih => exact bind (silent hlistener) fun _ => ih

/-- **A host function** in a lenient regime. -/
theorem Ends.runHostFunction (hlenient : R.Lenient) (hs : μ.Serves R) (hk : R.keeps n m) (function : HostId) (c : HostCall)
    (hadmits : ∀ entry, m.hosts[function.index]? = some entry → R.Admits (entry.run c)) :
    (runHostFunction function c).Ends R μ n m (kept R) := by
  refine .bind (Q := fun k seen m' => n = k ∧ m = seen ∧ m = m') (.silent ⟨.refl _, rfl, rfl, rfl⟩)
    fun k seen m' _ h => ?_
  obtain ⟨rfl, rfl, rfl⟩ := h
  dsimp only
  cases hentry : m.hosts[function.index]? with
  | none => exact Respects.silent (.fatal _) μ n m hs hk
  | some entry =>
    dsimp only
    refine Respects.bind (.nested ?_) (fun _ => .bind (.runHost hlenient (hadmits entry hentry)) fun result =>
      .bind (.nested ?_) fun _ => ?_) μ n m hs hk
    · exact fun _ => Silently.beside rfl rfl rfl rfl rfl rfl rfl rfl
    · exact fun _ => Silently.beside rfl rfl rfl rfl rfl rfl rfl rfl
    · rcases result with failure | value
      · cases failure with
        | exception value => exact .silent (.raiseFromHost value)
        | _ => exact .silent (.fatal _)
      · exact .bind (.silent (.modifyHeap fun h => h.preserves_pushTemporary value)) fun _ => .ret _

/-- A metered action and the action of the machine that it is. -/
theorem Ends.act {α : Type} {x : Metered α} {y : MachineM α} {Q : Nat → α → Machine → Prop}
    (hx : x.Ends R μ n m Q) (hact : x.act = y) :
    R.Ends (n + x.pushes μ m) m (Q (n + x.pushes μ m)) (y μ.env m) := hact ▸ hx

/-- A nested activity is an activity with less fuel. -/
theorem Ends.reenter {pause : Machine → List Value → Bool} {fuel : Nat} {a : Activity}
    {Q : Nat → Value → Machine → Prop} (hx : (performIn a).Ends R (Meter.running pause fuel) n m Q) :
    (Metered.reenter a).Ends R (Meter.running pause (fuel + 1)) n m Q := hx.act (performIn_act a)

end Metered

end ScriptMachine
