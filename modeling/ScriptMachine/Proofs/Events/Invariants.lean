import ScriptMachine.Proofs.Events.Calls
import ScriptMachine.Proofs.Progress.Requests

/-! # Invariants of machines

A predicate that silent changes, pushes and pops keep is an invariant (`Invariant`): it is a regime that says
the same at all times (`Regime.constant`). Whatever hosts and listeners do, it lasts, as long as the answers
to their questions keep it. To say so also of hosts that do not ask everything, the part of the machine that
runs host programs is put together anew over any way of answering (`Answering`); over that of the machine it
is the machine (`Answering.perform_answer`). Then an invariant that answers keep is kept by nested activities
(`Invariant.keeps`) and by all that a host demands (`Invariant.demand`). -/

namespace ScriptMachine

open Machine

section

variable {α β : Type}

/-! ### Ways of answering -/

namespace Answering

variable (reply : (query : HostQuery) → MachineM query.Reply)

/-- Runs a host program. -/
def runHost : HostProgram → MachineM (Except Failure Value)
  | .done result => return result
  | .ask query next => do runHost (next (← reply query))
  | .listen listener next => do
    addListener listener
    runHost next

/-- Tells all listeners of an event. -/
def tellListeners (event : DebugEvent) : MachineM Value := do
  let listeners := (← get).listeners
  modify fun m => { m with notifying := true, listeners := #[] }
  for listener in listeners do
    discard <| runHost reply (listener event)
  modify fun m => { m with notifying := false, listeners := listeners ++ m.listeners }
  return .undefined

/-- Runs a host function. -/
def runHostFunction (function : HostId) (c : HostCall) : MachineM Value := do
  let m ← get
  match m.hosts[function.index]? with
  | none => fatal (.invalidBytecode ("unknown host function " ++ toString function.index))
  | some entry =>
    let words := [c.callee, c.this] ++ c.args.toList
    let frame := m.stubFrame (words.map StubWord.ofValue)
    let depth := m.stubFrames.size
    modify fun m => { m with stubFrames := m.stubFrames.push frame }
    let result ← runHost reply (entry.run c)
    modify fun m => { m with stubFrames := m.stubFrames.shrink depth }
    match result with
    | .ok value =>
      modifyHeap (·.pushTemporary value)
      return value
    | .error (.exception value) => raiseFromHost value
    | .error failure => fatal failure

/-- An activity. -/
def performIn : Activity → MachineM Value
  | .notify event => tellListeners reply event
  | .host function c => runHostFunction reply function c
  | .frame => runFrame

/-- Performs an activity with a bound on its nesting. -/
def perform (pause : Machine → List Value → Bool) : Nat → Activity → BaseM Value
  | 0, _ => throw .exhausted
  | fuel + 1, activity => performIn reply activity { reenter := perform pause fuel, fuel, pause }

/-- Does what a host demands. -/
def demand : Demand → MachineM Unit
  | .host program => discard <| runHost reply program
  | demand => demand.perform

/-! ### The way the machine answers -/

theorem runHost_answer (program : HostProgram) : runHost answer program = ScriptMachine.runHost program := by
  induction program with
  | done result => rfl
  | ask query next ih => exact congrArg (answer query >>= ·) (funext ih)
  | listen listener next _ ih => exact congrArg (addListener listener >>= fun _ => ·) ih

theorem performIn_answer (activity : Activity) :
    performIn answer activity = ScriptMachine.performIn activity := by
  have hrun : runHost answer = ScriptMachine.runHost := funext runHost_answer
  cases activity with
  | notify event =>
    change tellListeners answer event = ScriptMachine.tellListeners event
    unfold tellListeners ScriptMachine.tellListeners
    rw [hrun]
  | host function c =>
    refine bind_congr fun m => ?_
    dsimp only
    cases m.hosts[function.index]? with
    | none => rfl
    | some entry =>
      refine bind_congr fun _ => (congrArg (· >>= _) (runHost_answer (entry.run c))).trans ?_
      refine bind_congr fun result => bind_congr fun _ => ?_
      rcases result with failure | value
      · cases failure <;> rfl
      · rfl
  | frame => rfl

/-- **Over the way the machine answers**, activities are those of the machine. -/
theorem perform_answer (pause : Machine → List Value → Bool) (fuel : Nat) :
    perform answer pause fuel = ScriptMachine.perform pause fuel := by
  induction fuel with
  | zero => rfl
  | succ fuel ih =>
    funext activity
    unfold perform ScriptMachine.perform
    rw [performIn_answer, ih]

theorem demand_answer (d : Demand) : demand answer d = d.perform := by
  cases d with
  | host program => exact congrArg (fun x : MachineM (Except Failure Value) => discard x) (runHost_answer program)
  | _ => rfl

end Answering

/-- What a host demands is done, with a way of answering. -/
def Machine.evalAnswering (m : Machine) (reply : (query : HostQuery) → MachineM query.Reply)
    (pause : Machine → List Value → Bool) (fuel : Nat) (demand : Demand) :
    EStateM.Result Stop Machine Unit :=
  Answering.demand reply demand { reenter := Answering.perform reply pause fuel, fuel, pause } m

theorem Machine.evalAnswering_answer (m : Machine) (pause : Machine → List Value → Bool) (fuel : Nat)
    (demand : Demand) : m.evalAnswering answer pause fuel demand = m.evalPausing pause fuel demand.perform := by
  unfold evalAnswering evalPausing
  rw [Answering.demand_answer, Answering.perform_answer]

/-! ### Invariants -/

/-- A regime that says the same at all times. -/
def Regime.constant (P : Machine → Prop) : Regime := ⟨fun _ => P, fun _ => P, fun _ => P, P⟩

/-- **An invariant of machines.** -/
structure Invariant (P : Machine → Prop) : Prop where
  regular : ∀ {m}, P m → m.Regular
  registered : ∀ {m}, P m → m.Registered
  settled : (Regime.constant P).Lenient ∨ ∀ m, P m → m.Settled
  silent : ∀ {m m'}, P m → m.Silent m' → P m'
  push : ∀ {m f id} registers, P m → m.heap.Issued id → m.Starts id f →
    P { m with frames := m.frames.push f, registers }
  pop : ∀ {m} registers, P m → P { m with frames := m.frames.pop, registers }
  /-- Neither the heap nor the frames nor the code change, nor the intrinsic objects; host functions may be
  added. -/
  beside : ∀ {m m'}, P m → m'.heap = m.heap → m'.frames = m.frames → m'.codes = m.codes →
    m'.intrinsics = m.intrinsics → m.hosts.size ≤ m'.hosts.size → P m'

/-- Nested activities keep a predicate. -/
structure Env.Keeps (env : Env) (P : Machine → Prop) : Prop where
  notify : ∀ event m, P m → (Regime.constant P).Ends 0 m (fun _ => P) (env.reenter (.notify event) m)
  host : ∀ function c m, P m → (Regime.constant P).Ends 0 m (fun _ => P) (env.reenter (.host function c) m)
  frame : ∀ m, P m → (Regime.constant P).Ends 0 m (fun _ => P) (env.reenter .frame m)

/-- **A predicate lasts during an action.** -/
def Lasting (P : Machine → Prop) (x : MachineM α) : Prop :=
  ∀ (env : Env) (m : Machine), env.Keeps P → P m → (Regime.constant P).Ends 0 m (fun _ => P) (x env m)

variable {P : Machine → Prop} {env : Env} {m : Machine} {n : Nat} {x y : MachineM α} {g : α → MachineM β}

/-- **Telling the listeners something**, if there are any and they are not busy. -/
theorem Regime.Ends.notifyAt {R : Regime} {Q : Machine → Prop} {kind : EventKind}
    {exception : Option Value} {line : Option UInt32} (hQ : (m.listeners.isEmpty || m.notifying) = true → Q m)
    (htell : R.Ends n m (fun _ => Q) (env.reenter (.notify (m.event kind exception line)) m)) :
    R.Ends n m (fun _ => Q) (notifyAt kind exception line env m) := by
  refine look (ite (fun _ => bind (Q := fun _ => Q) htell fun _ _ _ h => ret h) fun hbusy => ret (hQ ?_))
  simpa only [Bool.not_eq_true', Bool.not_eq_false] using hbusy

/-- The number does not matter. -/
theorem Regime.Ends.recounted {r : EStateM.Result Stop Machine α} {k : Nat}
    (hr : (Regime.constant P).Ends n m (fun _ => P) r) : (Regime.constant P).Ends k m (fun _ => P) r := by
  cases r with
  | ok a m' => exact hr
  | error stop m' => cases stop <;> exact hr

/-- A run leaves a machine that has the property, however it ends. -/
theorem Regime.Ends.leaves {r : EStateM.Result Stop Machine α}
    (hr : (Regime.constant P).Ends n m (fun _ => P) r) : P (leaves r) := by
  cases r with
  | ok a m' => exact hr.2
  | error stop m' =>
    cases stop with
    | unwound u => exact hr.2
    | exhausted | paused _ => exact hr

/-- An invariant is served where nested activities keep it. -/
theorem Invariant.serves (hP : Invariant P) (he : env.Keeps P) : (Regime.constant P).Serves env where
  regular := hP.regular
  registered := hP.registered
  settled := hP.settled.imp_right fun h _ => h
  silent := hP.silent
  stops hm := hm
  push := hP.push
  pop := hP.pop
  report _ _ _ _ hm := .notifyAt (fun _ => hm) (he.notify _ _ hm).recounted
  enter hm := .notifyAt (fun _ => hm) (he.notify _ _ hm).recounted
  leave hm _ := .notifyAt (fun _ => hm) (he.notify _ _ hm).recounted

/-- The meter that counts nothing. -/
def Meter.uncounted (env : Env) : Meter := ⟨env, fun _ _ => 0⟩

theorem Invariant.uncounted (hP : Invariant P) (he : env.Keeps P) :
    (Meter.uncounted env).Serves (Regime.constant P) :=
  ⟨hP.serves he, fun function c hm => (he.host function c _ hm).recounted, fun hm => (he.frame _ hm).recounted⟩

/-! ### Rules -/

namespace Lasting

theorem silent (hP : Invariant P) (hx : (Regime.constant P).Respects x) : Lasting P x :=
  fun env m he hm => hx env 0 m (hP.serves he) hm

/-- What respects every regime, with nested activities. -/
theorem metered (hP : Invariant P) {x : Metered α} (hx : Metered.Respects (Regime.constant P) x)
    (hact : x.act = y) : Lasting P y := by
  intro env m he hm
  rw [← hact]
  have hends : (Regime.constant P).Ends (0 + x.pushes (Meter.uncounted env) m) m (fun _ => P) (x.act env m) :=
    hx (Meter.uncounted env) 0 m (hP.uncounted he) hm
  exact hends.recounted

theorem ret (a : α) : Lasting P (pure a : MachineM α) := fun _ _ _ hm => .ret hm

theorem look : Lasting P (get : MachineM Machine) := fun _ _ _ hm => ⟨.refl _, hm⟩

theorem bind (hx : Lasting P x) (hg : ∀ a, Lasting P (g a)) : Lasting P (x >>= g) :=
  fun env m he hm => .bind (hx env m he hm) fun a m' _ hm' => hg a env m' he hm'

theorem discarded (hx : Lasting P x) : Lasting P (discard x) := bind hx fun _ => ret _

theorem attempt (hx : Lasting P x) : Lasting P (attempt x) := fun env m he hm => .attempt (hx env m he hm)

theorem notify (kind : EventKind) : Lasting P (ScriptMachine.notify kind) :=
  fun _ _ he hm => .notifyAt (fun _ => hm) (he.notify _ _ hm)

/-- **A change beside the heap, the frames and the code.** -/
theorem aside (hP : Invariant P) {c : Machine → Machine}
    (hc : ∀ m : Machine, (c m).heap = m.heap ∧ (c m).frames = m.frames ∧ (c m).codes = m.codes ∧
      (c m).intrinsics = m.intrinsics ∧ m.hosts.size ≤ (c m).hosts.size) :
    Lasting P (modify c : MachineM PUnit) := by
  intro env m he hm
  obtain ⟨hheap, hframes, hcodes, hintrinsics, hhosts⟩ := hc m
  refine ⟨⟨?_, fun _ h => h.mono (by rw [hcodes]) hhosts⟩, hP.beside hm hheap hframes hcodes hintrinsics hhosts⟩
  rw [hheap]
  exact .refl _

theorem call (hP : Invariant P) (function this : Value) (args : Array Value) :
    Lasting P (ScriptMachine.call function this args) :=
  metered hP (.call function this args) (Metered.call_act function this args)

/-- **A program** is loaded and runs. -/
theorem runProgram (hP : Invariant P) (block : Block) : Lasting P (runProgram block) := by
  refine bind (silent hP (.load block)) fun program => bind (notify _) fun _ => bind look fun m =>
    bind (attempt (call hP _ _ _)) fun r => bind (notify _) fun _ => ?_
  cases r with
  | ok value => exact ret _
  | error u => exact silent hP (.unwind u)

/-- **A host function is registered.** -/
theorem newHostFunction (hP : Invariant P) (name : String) (arity : UInt32) (run : HostFunction) :
    Lasting P (newHostFunction name arity run) := by
  intro env m he hm
  have hs := hP.serves he
  refine .bind (.intern hs hm name) fun atom m₁ _ h => .look ?_
  let added : Machine := { m₁ with hosts := m₁.hosts.push { name := atom, arity, run } }
  refine .bind (Q := fun _ m' => P m' ∧ m' = added) ?_ fun _ m₂ _ h₂ => ?_
  · obtain ⟨ho, hm⟩ := aside hP (c := fun m => { m with hosts := m.hosts.push { name := atom, arity, run } })
      (fun m => ⟨rfl, rfl, rfl, rfl, by simp⟩) env m₁ he h.1
    exact ⟨ho, hm, rfl⟩
  · obtain ⟨hm₂, rfl⟩ := h₂
    have hknows : added.Knows (.host ⟨m₁.hosts.size⟩) := by simp [added, Machine.Knows]
    refine .bind (.newFunctionCell hs hm₂ hknows (.inl rfl) (fun known hname => ?_) arity) fun _ _ _ hm => .ret hm
    obtain rfl := Option.some.inj hname
    exact h.2.2

/-! ### Hosts -/

variable {reply : (query : HostQuery) → MachineM query.Reply}

/-- **A host program**, by induction on it. -/
theorem runHost (hP : Invariant P) (hreply : ∀ query, Lasting P (reply query)) (program : HostProgram) :
    Lasting P (Answering.runHost reply program) := by
  induction program with
  | done result => exact ret _
  | ask query next ih => exact bind (hreply query) ih
  | listen listener next _ ih => exact bind (aside hP fun _ => ⟨rfl, rfl, rfl, rfl, Nat.le_refl _⟩) fun _ => ih

/-- **Telling the listeners**, one after the other. -/
theorem tellListeners (hP : Invariant P) (hreply : ∀ query, Lasting P (reply query)) (event : DebugEvent) :
    Lasting P (Answering.tellListeners reply event) := by
  have hloop (listeners : List Listener) : Lasting P
      (forIn listeners PUnit.unit fun listener _ => do
        discard <| Answering.runHost reply (listener event)
        pure (ForInStep.yield PUnit.unit) : MachineM PUnit) := by
    induction listeners with
    | nil => exact ret _
    | cons listener rest ih =>
      rw [List.forIn_cons]
      refine bind (bind (discarded (runHost hP hreply _)) fun _ => ret _) fun r => ?_
      cases r with
      | done _ => exact ret _
      | yield _ => exact ih
  refine bind look fun m => bind (aside hP fun _ => ⟨rfl, rfl, rfl, rfl, Nat.le_refl _⟩) fun _ => ?_
  rw [← Array.forIn_toList]
  exact bind (hloop _) fun _ => bind (aside hP fun _ => ⟨rfl, rfl, rfl, rfl, Nat.le_refl _⟩) fun _ => ret _

/-- **A host function.** -/
theorem runHostFunction (hP : Invariant P) (hreply : ∀ query, Lasting P (reply query)) (function : HostId)
    (c : HostCall) : Lasting P (Answering.runHostFunction reply function c) := by
  refine bind look fun m => ?_
  dsimp only
  cases m.hosts[function.index]? with
  | none => exact silent hP (.fatal _)
  | some entry =>
    refine bind (aside hP fun _ => ⟨rfl, rfl, rfl, rfl, Nat.le_refl _⟩) fun _ => bind (runHost hP hreply _) fun result =>
      bind (aside hP fun _ => ⟨rfl, rfl, rfl, rfl, Nat.le_refl _⟩) fun _ => ?_
    rcases result with failure | value
    · cases failure with
      | exception value => exact silent hP (.raiseFromHost value)
      | _ => exact silent hP (.fatal _)
    · exact bind (silent hP (.modifyHeap fun h => h.preserves_pushTemporary value)) fun _ => ret _

end Lasting

variable {reply : (query : HostQuery) → MachineM query.Reply}

/-- **Nested activities keep an invariant** that answers keep, by induction on the fuel. -/
theorem Invariant.keeps (hP : Invariant P) (hreply : ∀ query, Lasting P (reply query))
    (pause : Machine → List Value → Bool) (fuel : Nat) :
    Env.Keeps { reenter := Answering.perform reply pause fuel, fuel, pause } P := by
  induction fuel with
  | zero => exact ⟨fun _ _ hm => hm, fun _ _ _ hm => hm, fun _ hm => hm⟩
  | succ fuel ih =>
    refine ⟨fun event m hm => ?_, fun function c m hm => ?_, fun m hm => ?_⟩
    · exact Lasting.tellListeners hP hreply event _ m ih hm
    · exact Lasting.runHostFunction hP hreply function c _ m ih hm
    · have hends := (Metered.Ends.runFrame (n := 0) (hP.uncounted ih) hm).act Metered.runFrame_act
      exact hends.recounted

/-- **What a demand does to the persistent roots.** -/
inductive Demand.Reroots (h : Heap) : Demand → Heap → Prop
  /-- A value is protected. -/
  | protect (value : Value) : Reroots h (.protect value) (h.addRoot value).2
  /-- A root is given up. -/
  | unprotect (root : RootId) : Reroots h (.unprotect root) (h.removeRoot root)

/-- Only the roots change. -/
theorem Demand.Reroots.frame {h h' : Heap} {demand : Demand} (hd : demand.Reroots h h') :
    ∃ roots freeRoots, h' = { h with roots, freeRoots } := by
  cases hd with
  | protect value =>
    unfold Heap.addRoot
    split <;> exact ⟨_, _, rfl⟩
  | unprotect root =>
    unfold Heap.removeRoot
    split <;> exact ⟨_, _, rfl⟩

/-- **Whatever a host demands**, an invariant that answers keep holds of the machine it leaves, also when
persistent roots are changed, provided that it lasts then. -/
theorem Invariant.demand (hP : Invariant P) (hreply : ∀ query, Lasting P (reply query)) (hm : P m)
    (demand : Demand) (hroots : ∀ h, demand.Reroots m.heap h → P { m with heap := h })
    (pause : Machine → List Value → Bool) (fuel : Nat) :
    P (leaves (m.evalAnswering reply pause fuel demand)) := by
  have hlasts (hlasting : Lasting P (Answering.demand reply demand)) :
      P (leaves (m.evalAnswering reply pause fuel demand)) :=
    (hlasting _ m (hP.keeps hreply pause fuel) hm).leaves
  cases demand with
  | host program => exact hlasts (.discarded (.runHost hP hreply program))
  | load block => exact hlasts (.silent hP (.discarded (.load block)))
  | run block => exact hlasts (.discarded (.runProgram hP block))
  | define name arity body =>
    exact hlasts (.discarded (.bind (.newHostFunction hP name arity body) fun _ =>
      .silent hP (.bind (.bind .look fun _ => .setProperty _ _ _) fun _ => .ret _)))
  | getProperty object name =>
    exact hlasts (.silent hP (.discarded (.bind (.intern name) fun _ => .getById _ _ _)))
  | deleteProperty object name =>
    exact hlasts (.silent hP (.discarded (.bind (.intern name) fun _ => .deleteById _ _)))
  | toStringValue value =>
    refine hlasts (.silent hP (.discarded (.bind .look fun m => ?_)))
    split
    · exact .ret _
    · exact .newString _
  | installTier => exact hlasts (.aside hP fun _ => ⟨rfl, rfl, rfl, rfl, Nat.le_refl _⟩)
  | setTimeLimit limit => exact hlasts (.aside hP fun _ => ⟨rfl, rfl, rfl, rfl, Nat.le_refl _⟩)
  | protect value => exact hroots _ (.protect value)
  | unprotect root => exact hroots _ (.unprotect root)

end

/-! ## Machines that any host can get at are proper

To be regular, with everything registered, is an invariant that all answers keep (`Invariant.proper`): whatever
hosts and listeners do, and wherever the machine is stopped, it stays so (`Machine.Visited.proper`). -/

variable {m : Machine}

/-- **A proper machine is regular, and everything is registered.** -/
structure Machine.Proper (m : Machine) : Prop where
  regular : m.Regular
  registered : m.Registered

/-- The scopes of frames do not matter. -/
theorem Regime.lenient_proper : (constant Machine.Proper).Lenient := fun _ _ _ _ hk hf hcallee hcode =>
  ⟨(hk.regular.abides_modifyFrame hf hcallee).regular, hk.registered.modifyFrame hf hcode⟩

theorem Invariant.proper : Invariant Machine.Proper where
  regular hm := hm.regular
  registered hm := hm.registered
  settled := .inl Regime.lenient_proper
  silent hm hs := ⟨(hs.abides hm.regular).regular, hs.registered hm.regular hm.registered⟩
  push registers hm hi hf :=
    ⟨hm.regular.push hf.callee hi registers, hm.registered.push hf.code registers⟩
  pop registers hm := ⟨hm.regular.pop registers, hm.registered.pop registers⟩
  beside {m m'} hm hheap hframes hcodes _ hhosts := by
    have hcallees : m'.callees = m.callees := by
      unfold callees
      rw [hframes]
    refine ⟨hm.regular.beside hheap ?_ ?_, hm.registered.beside hheap hcodes hhosts ?_⟩
    · rw [hcallees]
      exact hm.regular.callees
    · rw [hcodes]
      exact hm.regular.codes
    · rw [hframes]
      exact hm.registered.frames

/-- The persistent roots do not matter. -/
theorem Machine.Proper.reroot (hm : m.Proper) {demand : Demand} {h : Heap} (hd : demand.Reroots m.heap h) :
    Machine.Proper { m with heap := h } := by
  obtain ⟨roots, freeRoots, rfl⟩ := hd.frame
  have hr : m.heap.Retains { m.heap with roots, freeRoots } := .of_slots rfl rfl
  exact ⟨(hm.regular.abides_retains hr hm.regular.ordered (.refl _)).regular, hm.registered.retains hr⟩

/-- **The answers of the machine** keep it proper. -/
theorem Lasting.answer (query : HostQuery) : Lasting Machine.Proper (answer query) := by
  refine metered .proper (.answer (.inl Regime.lenient_proper) fun entry _ env n m hs hk => ?_)
    (Metered.answer_act query)
  exact ⟨⟨.refl _, fun _ h => h⟩, Invariant.proper.beside hk rfl rfl rfl rfl (Nat.le_refl _)⟩

/-! ### Visited machines -/

/-- A fresh machine is regular: it has neither functions nor code. -/
theorem Machine.regular_new {config : Config} (hm : Machine.new config = .ok m) : m.Regular := by
  obtain ⟨-, hfounded, hframe⟩ := Machine.new_spec hm
  refine ⟨hfounded.coherent.white, fun _ => hfounded.listed, hfounded.coherent.atoms,
    fun id c hc data name hp _ => absurd hp ((inert_new hm hc).function data), ?_, ?_⟩
  all_goals
    rw [hframe]
    simp [callees]

/-- Nothing is registered in a fresh machine. -/
theorem Machine.registered_new {config : Config} (hm : Machine.new config = .ok m) : m.Registered := by
  obtain ⟨-, -, hframe⟩ := Machine.new_spec hm
  refine ⟨fun id c data hc hp => absurd hp ((inert_new hm hc).function data), ?_, ?_⟩
  all_goals
    rw [hframe]
    simp

/-- **Machines are proper**, between demands and in the middle of them. -/
theorem Machine.Visited.proper (hm : m.Visited) : m.Proper := by
  induction hm with
  | fresh hnew => exact ⟨regular_new hnew, registered_new hnew⟩
  | demand demand pause fuel _ ih =>
    have hm' := Invariant.proper.demand .answer ih demand (fun _ => ih.reroot) pause fuel
    rwa [evalAnswering_answer] at hm'

theorem Machine.Visited.regular (hm : m.Visited) : m.Regular := hm.proper.regular

end ScriptMachine
