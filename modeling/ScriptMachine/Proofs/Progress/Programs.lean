import ScriptMachine.Proofs.Progress.Loop
import ScriptMachine.Proofs.Stack.Programs

/-! # Host programs of intact machines

The machine gives fair replies to whatever a host asks (`Goes.answer`), so that a candid host program ends
without a complaint about the code (`Goes.runHost`). Nested activities have less fuel, so that what an
action relies on holds by induction on the fuel (`faithful_perform`). -/

namespace ScriptMachine

open Machine

variable {m m' : Machine} {α : Type}

/-! ### Calls from the host -/

namespace Calmly

/-- **A call from the host** is one level deeper while it runs. -/
theorem enter {body : MachineM Value} (hbody : Calmly Calm body) : Calmly Calm (enter body) := by
  intro env m he hm
  refine Goes.look (Goes.ite (fun _ => raiseError _ _ env m he hm) fun _ => ?_)
  have hnest {n : Machine} (reentryDepth : Nat) (watchdog : Watchdog) :
      n.Arrives { n with reentryDepth, watchdog } ∧ n.Quiet { n with reentryDepth, watchdog } :=
    arrives_beside rfl rfl rfl rfl rfl
  obtain ⟨ha₁, hq₁⟩ := hnest (n := m) (m.reentryDepth + 1)
    (if m.reentryDepth = 0 then m.watchdog.arm else m.watchdog)
  refine Goes.bind (Q := fun _ m' => m.Calm m') (Goes.change hm ha₁ hq₁.calm) ?_
  intro _ m₁ hm₁ hc₁
  refine Goes.bind (hbody env m₁ he hm₁).attempt ?_
  intro result m₂ hm₂ hr
  obtain ⟨ha₃, hq₃⟩ := hnest (n := m₂) (m₂.reentryDepth - 1)
    (if m₂.reentryDepth = 1 then m₂.watchdog.disarm else m₂.watchdog)
  refine Goes.bind (Q := fun _ m' => m₂.Calm m') (Goes.change hm₂ ha₃ hq₃.calm) ?_
  intro _ m₃ hm₃ hc₃
  cases result with
  | ok value => exact Goes.ret hm₃ ((hc₁.calm hr).calm hc₃)
  | error u => exact Goes.unwind hm₃ ⟨(hc₁.calm hr.1).calm hc₃, fun hc => hr.2 (hc₁.candid hc)⟩

theorem call (function this : Value) (args : Array Value) : Calmly Calm (call function this args) :=
  enter (callValue _ _ _ _ _)

theorem construct (function : Value) (args : Array Value) : Calmly Calm (construct function args) :=
  enter (callValue _ _ _ _ _)

/-! ### Properties by name -/

theorem setProperty (object : Value) (name : String) (value : Value) :
    Calmly Calm (setProperty object name value) := bind (.quiet (intern name)) fun _ => putById _ _ _ _

theorem defineProperty (object : Value) (name : String) (value : Value) (attributes : Attributes) :
    Calmly Calm (defineProperty object name value attributes) := by
  refine bind (.quiet (intern name)) fun atom => bind look fun m => ?_
  split
  · exact runHeap (.defineProperty _ _ _ _)
  · exact raiseError _ _

theorem setPrototype (object prototype : Value) : Calmly Calm (setPrototype object prototype) := by
  refine bind look fun m => ?_
  split
  · exact runHeap (.setPrototype _ _)
  · exact raiseError _ _

theorem setGlobal (name : String) (value : Value) : Calmly Calm (setGlobal name value) :=
  bind look fun _ => setProperty _ name value

end Calmly

/-! ### Host programs -/

namespace Goes

variable {env : Env} {E : Unwind → Machine → Prop}

/-- The host gets a failure as a result. -/
theorem tryCall {x : MachineM α} (he : env.Faithful) (hm : m.Intact) (hx : Calmly Calm x) :
    Goes m (tryCall x env m)
      (fun r m' => m.Calm m' ∧ (m.Candid → ∀ failure, r = .error failure → failure.Innocent)) E := by
  refine bind (hx env m he hm).attempt ?_
  intro r m' hm' hr
  cases r with
  | ok a => exact ret hm' ⟨hr, fun _ _ h => by cases h⟩
  | error u =>
    refine ret hm' ⟨hr.1, fun hc failure h => ?_⟩
    obtain rfl := Except.error.inj h
    exact hr.2 hc

/-- **The replies are fair**, and answering does not unwind. -/
theorem answer (he : env.Faithful) (hm : m.Intact) (query : HostQuery) :
    Goes m (answer query env m) (fun r m' => m.Calm m' ∧ (m.Candid → query.Fair r)) E := by
  have same {α : Type} (a : α) {P : α → Prop} (hP : P a) : Goes m ((pure a : MachineM α) env m)
      (fun r m' => m.Calm m' ∧ (m.Candid → P r)) E := ret hm ⟨.refl m, fun _ => hP⟩
  have interned (name : String) : Goes m (ScriptMachine.intern name env m) (fun _ m' => m.Calm m') E := by
    obtain ⟨ha, hq⟩ := arrives_heap (m := m) (h := (m.heap.intern name).2) (.of_slots rfl rfl)
    exact step hm ha hq.calm
  cases query with
  | display _ | number _ | depth | register _ | scopedVar _ _ | describe _ => exact look (same _ trivial)
  | call function this args => exact tryCall he hm (.call function this args)
  | construct function args => exact tryCall he hm (.construct function args)
  | newString text => exact tryCall he hm (.quiet (.newString text))
  | newArray items => exact tryCall he hm (.quiet (.newArray _))
  | newObject => exact tryCall he hm (.quiet .newObject)
  | newError kind message => exact tryCall he hm (.quiet (.newError kind message))
  | setProperty object name value => exact tryCall he hm (.setProperty object name value)
  | defineProperty object name value attributes =>
    exact tryCall he hm (.defineProperty object name value attributes)
  | setPrototype object prototype => exact tryCall he hm (.setPrototype object prototype)
  | setGlobal name value => exact tryCall he hm (.setGlobal name value)
  | getGlobal name =>
    refine bind (interned name) fun atom m₁ hm₁ h₁ => look ?_
    refine bind (Q := fun _ m' => m.Calm m') (settled hm₁ fun _ _ => h₁) fun found m₂ hm₂ h₂ => ?_
    refine ite (fun _ => bind (Q := fun _ m' => m.Calm m') (settled hm₂ fun _ _ => h₂) ?_) fun _ => ?_
    · exact fun _ _ hm₃ h₃ => ret hm₃ ⟨h₃, fun _ => trivial⟩
    · exact ret hm₂ ⟨h₂, fun _ => trivial⟩
  | collect =>
    obtain ⟨ha, hq⟩ := arrives_collect m
    exact step hm ha ⟨hq.calm, fun _ => trivial⟩
  | release =>
    have hrelease : m.Arrives m.releaseTemporaries ∧ m.Quiet m.releaseTemporaries := by
      unfold releaseTemporaries
      split
      · exact arrives_heap (.of_slots rfl rfl)
      · exact ⟨.refl m, .refl m⟩
    exact change hm hrelease.1 ⟨hrelease.2.calm, fun _ => trivial⟩
  | interrupt =>
    obtain ⟨ha, hq⟩ := arrives_beside (m := m) (n := m.requestInterrupt) rfl rfl rfl rfl rfl
    exact change hm ha ⟨hq.calm, fun _ => trivial⟩
  | intern name => exact (interned name).mono (fun _ _ _ h => ⟨h, fun _ => trivial⟩) fun _ _ _ h => h
  | locate name =>
    exact bind (interned name) fun _ m' hm' h => look (settled hm' fun _ _ => ⟨h, fun _ => trivial⟩)
  | stub routine words =>
    refine bind (callStub he hm routine words) ?_
    rintro result m₁ hm₁ ⟨hc₁, -, hraised⟩
    refine ite (fun hexception => ?_) fun _ => ret hm₁ ⟨hc₁, fun _ _ _ h => by cases h⟩
    obtain ⟨u, hparked, hu⟩ := hraised hexception
    refine bind (takeStubUnwind hm₁ hparked) ?_
    rintro _ m₂ hm₂ ⟨rfl, hq₂⟩
    refine ret hm₂ ⟨hc₁.calm hq₂.calm, fun hc hasks failure h => ?_⟩
    obtain rfl := Except.error.inj h
    exact hu (Routine.apt_of_asksFrame hasks m words) hc
  | record entry =>
    obtain ⟨ha, hq⟩ := arrives_beside (m := m) (n := { m with journal := m.journal.push entry })
      rfl rfl rfl rfl rfl
    exact change hm ha ⟨hq.calm, fun _ => trivial⟩

/-- **A host program** leaves the frames where they are and does not unwind, and a candid one makes no
complaint about the code. -/
theorem runHost (he : env.Faithful) (hm : m.Intact) (program : HostProgram) :
    Goes m (runHost program env m) (fun r m' => m.Calm m' ∧
      (m.Candid → program.Candid → ∀ failure, r = .error failure → failure.Innocent)) E := by
  induction program generalizing m with
  | done result =>
    refine ret hm ⟨.refl m, fun _ hp => ?_⟩
    cases hp with
    | done h => exact h
  | ask query next ih =>
    refine bind (answer he hm query) ?_
    rintro reply m₁ hm₁ ⟨hc₁, hfair⟩
    refine (ih reply hm₁).mono (fun r m₂ _ h => ⟨hc₁.calm h.1, fun hc hp => ?_⟩) fun _ _ _ h => h
    cases hp with
    | ask hnext => exact h.2 (hc₁.candid hc) (hnext reply (hfair hc))
  | listen listener next _ ih =>
    obtain ⟨ha, hq⟩ := arrives_beside (m := m) (n := { m with listeners := m.listeners.push listener })
      rfl rfl rfl rfl rfl
    refine bind (Q := fun _ m' => m.Calm m') (change hm ha hq.calm) ?_
    intro _ m₁ hm₁ hc₁
    refine (ih hm₁).mono (fun r m₂ _ h => ⟨hc₁.calm h.1, fun hc hp => ?_⟩) fun _ _ _ h => h
    cases hp with
    | listen hnext => exact h.2 (hc₁.candid hc) hnext

/-! ### Activities -/

/-- **Telling the listeners.** -/
theorem tellListeners (he : env.Faithful) (hm : m.Intact) (event : DebugEvent) :
    Goes m (tellListeners event env m) (fun _ m' => m.Calm m') E := by
  have hloop (listeners : List Listener) {m : Machine} (hm : m.Intact) :
      Goes m ((forIn listeners PUnit.unit fun listener _ => do
          discard <| ScriptMachine.runHost (listener event)
          pure (ForInStep.yield PUnit.unit) : MachineM PUnit) env m) (fun _ m' => m.Calm m') E := by
    induction listeners generalizing m with
    | nil => exact ⟨.refl m, hm, .refl m⟩
    | cons listener rest ih =>
      rw [List.forIn_cons]
      have hrun : Goes m ((ScriptMachine.runHost (listener event) >>= fun _ => pure ()) env m)
          (fun _ m' => m.Calm m') E :=
        bind (runHost he hm (listener event)) fun _ m' hm' h => ret hm' h.1
      refine bind (Q := fun r m' => (∃ u, r = .yield u) ∧ m.Calm m')
        (bind hrun fun _ m' hm' h => ret hm' ⟨⟨_, rfl⟩, h⟩) ?_
      rintro _ m₁ hm₁ ⟨⟨u, rfl⟩, hc₁⟩
      exact (ih hm₁).mono (fun _ _ _ h => hc₁.calm h) fun _ _ _ h => h
  have hlisten {n : Machine} (listeners : Array Listener) (notifying : Bool) :
      n.Arrives { n with listeners, notifying } ∧ n.Quiet { n with listeners, notifying } :=
    arrives_beside rfl rfl rfl rfl rfl
  obtain ⟨ha₁, hq₁⟩ := hlisten (n := m) #[] true
  refine look (bind (Q := fun _ m' => m.Calm m') (change hm ha₁ hq₁.calm) ?_)
  intro _ m₁ hm₁ hc₁
  rw [← Array.forIn_toList]
  refine bind (hloop m.listeners.toList hm₁) ?_
  intro _ m₂ hm₂ hc₂
  obtain ⟨ha₃, hq₃⟩ := hlisten (n := m₂) (m.listeners ++ m₂.listeners) false
  refine bind (Q := fun _ m' => m₂.Calm m') (change hm₂ ha₃ hq₃.calm) ?_
  exact fun _ m₃ hm₃ hc₃ => ret hm₃ ((hc₁.calm hc₂).calm hc₃)

/-- **Running a host function** that is registered. -/
theorem runHostFunction (he : env.Faithful) (hm : m.Intact) {function : HostId}
    (hk : function.index < m.hosts.size) (c : HostCall) :
    Goes m (runHostFunction function c env m) (fun _ m' => m.Calm m')
      fun u m' => m.Calm m' ∧ (m.Candid → u.Innocent) := by
  refine look ?_
  have hentry := Array.getElem?_eq_getElem hk
  generalize m.hosts[function.index] = entry at hentry
  rw [hentry]
  have hstub {n : Machine} (stubFrames : Array StubFrame) :
      n.Arrives { n with stubFrames } ∧ n.Quiet { n with stubFrames } :=
    arrives_beside rfl rfl rfl rfl rfl
  dsimp only
  generalize m.stubFrame _ = frame
  obtain ⟨ha₁, hq₁⟩ := hstub (n := m) (m.stubFrames.push frame)
  refine bind (Q := fun _ m' => m.Calm m') (change hm ha₁ hq₁.calm) ?_
  intro _ m₁ hm₁ hc₁
  refine bind (runHost he hm₁ (entry.run c)) ?_
  rintro result m₂ hm₂ ⟨hc₂, hresult⟩
  obtain ⟨ha₃, hq₃⟩ := hstub (n := m₂) (m₂.stubFrames.shrink m.stubFrames.size)
  refine bind (Q := fun _ m' => m₂.Calm m') (change hm₂ ha₃ hq₃.calm) ?_
  intro _ m₃ hm₃ hc₃
  have hc := (hc₁.calm hc₂).calm hc₃
  cases result with
  | ok value =>
    refine bind (modifyHeap (c := (·.pushTemporary value)) hm₃ (Heap.retains_pushTemporary _ _)) ?_
    exact fun _ m₄ hm₄ hq₄ => ret hm₄ (hc.calm hq₄.calm)
  | error failure =>
    have hfatal : Goes m₃ ((fatal failure : MachineM Value) env m₃) (fun _ m' => m.Calm m')
        fun u m' => m.Calm m' ∧ (m.Candid → u.Innocent) := by
      refine unwind hm₃ ⟨hc, fun hcandid => Unwind.innocent_fatal ?_⟩
      exact hresult (hc₁.candid hcandid) (hcandid entry (Array.mem_of_getElem? hentry) c) failure rfl
    cases failure with
    | exception value =>
      exact (Calmly.raiseFromHost value env m₃ he hm₃).mono (fun _ _ _ h => hc.calm h) fun _ _ _ h =>
        ⟨hc.calm h.1, fun hcandid => h.2 (hc.candid hcandid)⟩
    | _ => exact hfatal

end Goes

/-- **Nested activities do what actions rely on**, whatever the fuel. -/
theorem faithful_perform (pause : Machine → List Value → Bool) (fuel : Nat) :
    Env.Faithful { reenter := perform pause fuel, fuel, pause } := by
  induction fuel with
  | zero =>
    exact ⟨fun _ m hm => ⟨.refl m, hm, trivial⟩, fun _ _ m hm _ => ⟨.refl m, hm, trivial⟩,
      fun m hm _ => ⟨.refl m, hm, trivial⟩⟩
  | succ fuel ih =>
    refine ⟨fun event m hm => ?_, fun function call m hm hk => ?_, fun m hm hentered => ?_⟩
    · exact Goes.tellListeners ih hm event
    · exact Goes.runHostFunction ih hm hk call
    · exact Goes.runFrame ih hm hentered

end ScriptMachine
