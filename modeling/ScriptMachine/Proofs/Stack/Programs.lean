import ScriptMachine.Proofs.Stack.Loop

/-! # Host programs and nested activities

A plain host program leaves the stacks as they are, whatever it asks for (`Proceeds.runHost`): calls
that it makes push their frames and pop them again. An activity runs in an environment with less fuel,
so that all nested activities are orderly by induction on the fuel (`orderly_perform`). -/

namespace ScriptMachine

open Machine

variable {m m' : Machine}

namespace Machine

/-- Other listeners. -/
theorem Orderly.relisten (hm : m.Orderly) (listeners : Array Listener)
    (hl : ∀ listener ∈ listeners, ∀ event, (listener event).Plain) (notifying : Bool) :
    Orderly { m with listeners, notifying } ∧ m.Still { m with listeners, notifying } :=
  ⟨⟨⟨hm.stacked.tile, hm.stacked.size, hm.stacked.depth, hm.stacked.room, hm.stacked.nesting⟩,
    ⟨hm.settled.lowered, hm.settled.moved⟩,
    ⟨hm.chained.white, hm.chained.listed, hm.chained.scopes⟩, ⟨hm.hosted.hosts, hl⟩⟩,
    ⟨⟨rfl, rfl, rfl, Nat.le_refl _⟩, rfl, rfl, fun _ _ _ _ _ => rfl⟩⟩

/-- Another level of nesting. -/
theorem Orderly.renest (hm : m.Orderly) (reentryDepth : Nat) (watchdog : Watchdog)
    (hn : reentryDepth ≤ m.config.maxReentryDepth) :
    Orderly { m with reentryDepth, watchdog } ∧ m.Still { m with reentryDepth, watchdog } :=
  ⟨⟨⟨hm.stacked.tile, hm.stacked.size, hm.stacked.depth, hm.stacked.room, hn⟩,
    ⟨hm.settled.lowered, hm.settled.moved⟩,
    ⟨hm.chained.white, hm.chained.listed, hm.chained.scopes⟩,
    ⟨hm.hosted.hosts, hm.hosted.listeners⟩⟩,
    ⟨⟨rfl, rfl, rfl, Nat.le_refl _⟩, rfl, rfl, fun _ _ _ _ _ => rfl⟩⟩

end Machine

/-! ### Calls from the host -/

namespace Keeping

variable {α : Type}

/-- **A call from the host** is one level deeper while it runs. -/
theorem enter {body : MachineM Value} (hbody : Restful body) : Restful (enter body) := by
  intro env m he hm
  refine Proceeds.look (Proceeds.ite (fun _ => raiseError _ _ env m he hm) fun hdeep => ?_)
  obtain ⟨hm₁, hs₁⟩ := hm.renest (m.reentryDepth + 1)
    (if m.reentryDepth = 0 then m.watchdog.arm else m.watchdog) (by omega)
  refine Proceeds.bind (Q := fun _ m' => m.Still m' ∧ m'.stubFrames = m.stubFrames ∧
    m'.reentryDepth = m.reentryDepth + 1) (Proceeds.change hm₁ ⟨hs₁, rfl, rfl⟩) ?_
  rintro _ m₁ hm₁ ⟨hs₁, hstub₁, hdepth₁⟩
  refine Proceeds.bind (hbody env m₁ he hm₁).caught ?_
  rintro result m₂ hm₂ ⟨hs₂, hb₂⟩
  have hdepth₂ : m₂.reentryDepth = m.reentryDepth + 1 := hb₂.reentryDepth.trans hdepth₁
  obtain ⟨hm₃, hs₃⟩ := hm₂.renest (m₂.reentryDepth - 1)
    (if m₂.reentryDepth = 1 then m₂.watchdog.disarm else m₂.watchdog)
    (Nat.le_trans (Nat.sub_le _ _) hm₂.stacked.nesting)
  refine Proceeds.bind (Q := fun _ m' => m.Still m' ∧ m.Balanced m') (Proceeds.change hm₃
    ⟨(hs₁.trans hs₂).trans hs₃, hb₂.stubFrames.trans hstub₁, ?_⟩) ?_
  · change m₂.reentryDepth - 1 = m.reentryDepth
    rw [hdepth₂, Nat.add_sub_cancel]
  · rintro _ m₃ hm₃ h
    cases result with
    | ok value => exact Proceeds.ret hm₃ h
    | error u => exact Proceeds.unwind hm₃ h

theorem call (function this : Value) (args : Array Value) : Restful (call function this args) :=
  enter callValue

theorem construct (function : Value) (args : Array Value) : Restful (construct function args) :=
  enter callValue

/-! ### Properties by name -/

theorem setProperty (object : Value) (name : String) (value : Value) :
    Restful (setProperty object name value) := bind (intern name) fun _ => putById _ _ _ _

theorem defineProperty (object : Value) (name : String) (value : Value) (attributes : Attributes) :
    Restful (defineProperty object name value attributes) := by
  refine bind (intern name) fun atom => bind look fun m => ?_
  split
  · exact runHeap (.defineProperty _ _ _ _)
  · exact raiseError _ _

theorem setPrototype (object prototype : Value) : Restful (setPrototype object prototype) := by
  refine bind look fun m => ?_
  split
  · exact runHeap (.setPrototype _ _)
  · exact raiseError _ _

theorem setGlobal (name : String) (value : Value) : Restful (setGlobal name value) :=
  bind look fun _ => setProperty _ name value

end Keeping

/-! ### Host programs -/

namespace Proceeds

variable {env : Env} {α : Type} {E : Unwind → Machine → Prop}

/-- The host gets a failure as a result. -/
theorem tryCall {x : MachineM α} (he : env.Orderly) (hm : m.Orderly) (hx : Restful x) :
    Proceeds (tryCall x env m) (fun _ m' => m.Still m' ∧ m.Balanced m') E := by
  refine bind (hx env m he hm).caught ?_
  intro r m' hm' h
  cases r <;> exact ret hm' h

/-- **Answering a plain question** leaves the stacks as they are, and does not unwind. -/
theorem answer (he : env.Orderly) (hm : m.Orderly) {query : HostQuery} (hq : query.Plain) :
    Proceeds (answer query env m) (fun _ m' => m.Still m' ∧ m.Balanced m') E := by
  have same {α : Type} (a : α) : Proceeds ((pure a : MachineM α) env m)
      (fun _ m' => m.Still m' ∧ m.Balanced m') E := ret hm ⟨.refl m, .refl m⟩
  have interned (name : String) : Proceeds (ScriptMachine.intern name env m)
      (fun _ m' => m.Still m' ∧ m.Balanced m') E :=
    have h := hm.retains (h := (m.heap.intern name).2) (.of_slots rfl rfl)
    step h.1 h.2
  have calm {n : Machine} (h : n.Orderly ∧ m.Still n) (hb : m.Balanced n) :
      n.Orderly ∧ m.Still n ∧ m.Balanced n := ⟨h.1, h.2, hb⟩
  cases query with
  | display _ | number _ | depth | register _ | scopedVar _ _ | describe _ => exact look (same _)
  | call function this args => exact tryCall he hm (Keeping.call function this args)
  | construct function args => exact tryCall he hm (Keeping.construct function args)
  | newString text => exact tryCall he hm (Keeping.newString text)
  | newArray items => exact tryCall he hm (Keeping.newArray _)
  | newObject => exact tryCall he hm Keeping.newObject
  | newError kind message => exact tryCall he hm (Keeping.newError kind message)
  | setProperty object name value => exact tryCall he hm (Keeping.setProperty object name value)
  | defineProperty object name value attributes =>
    exact tryCall he hm (Keeping.defineProperty object name value attributes)
  | setPrototype object prototype => exact tryCall he hm (Keeping.setPrototype object prototype)
  | setGlobal name value => exact tryCall he hm (Keeping.setGlobal name value)
  | getGlobal name =>
    refine bind (interned name) ?_
    rintro _ m₁ hm₁ h₁
    have found {α : Type} {m₁ : Machine} (hm₁ : m₁.Orderly) (h₁ : m.Still m₁ ∧ m.Balanced m₁)
        (found : Option α) : Proceeds (ScriptMachine.settled found env m₁) (fun _ m' => m.Still m' ∧ m.Balanced m') E :=
      settled hm₁ fun _ _ => h₁
    refine look (bind (found hm₁ h₁ _) fun _ m₂ hm₂ h₂ => ?_)
    exact ite (fun _ => bind (found hm₂ h₂ _) fun _ _ hm₃ h₃ => ret hm₃ h₃) fun _ => ret hm₂ h₂
  | collect => exact step hm.collect.1 hm.collect.2
  | release =>
    have hrelease : m.releaseTemporaries.Orderly ∧ m.Still m.releaseTemporaries ∧
        m.Balanced m.releaseTemporaries := by
      unfold releaseTemporaries
      split
      · exact hm.retains (.of_slots rfl rfl)
      · exact ⟨hm, .refl m, .refl m⟩
    exact change hrelease.1 hrelease.2
  | interrupt =>
    obtain ⟨hm', hs, hb⟩ := calm (n := m.requestInterrupt)
      (hm.beside rfl rfl rfl rfl rfl rfl rfl rfl) ⟨rfl, rfl⟩
    exact change hm' ⟨hs, hb⟩
  | intern name => exact interned name
  | locate name =>
    refine bind (interned name) ?_
    rintro _ m' hm' h
    exact look (settled hm' fun _ _ => h)
  | stub routine words =>
    refine bind (callStub (P := m.Still) hm (fun _ _ => Still.trans) fun f m₁ hm₁ hs₁ =>
      (Keeping.runRoutine f hq env m₁ he hm₁).mono (fun _ _ _ h => ⟨hs₁.trans h.1, h.2⟩)
        fun _ _ _ h => ⟨hs₁.trans h.1, h.2⟩) ?_
    rintro result m₁ hm₁ ⟨hs₁, hb₁⟩
    refine ite (fun _ => ?_) fun _ => ret hm₁ ⟨hs₁, hb₁⟩
    obtain ⟨hm₂, hs₂⟩ := hm₁.beside (n := { m₁ with stubUnwind := none })
      rfl rfl rfl rfl rfl rfl rfl rfl
    refine bind (Q := fun _ m' => m.Still m' ∧ m.Balanced m')
      (step hm₂ ⟨hs₁.trans hs₂, hb₁.stubFrames, hb₁.reentryDepth⟩) ?_
    rintro _ m₂ hm₂ h
    exact ret hm₂ h
  | record entry =>
    obtain ⟨hm', hs, hb⟩ := calm (n := { m with journal := m.journal.push entry })
      (hm.beside rfl rfl rfl rfl rfl rfl rfl rfl) ⟨rfl, rfl⟩
    exact change hm' ⟨hs, hb⟩

/-- **A plain host program** leaves the stacks as they are, and does not unwind. -/
theorem runHost (he : env.Orderly) (hm : m.Orderly) {program : HostProgram} (hp : program.Plain) :
    Proceeds (runHost program env m) (fun _ m' => m.Still m' ∧ m.Balanced m') E := by
  induction hp generalizing m with
  | done result => exact ret hm ⟨.refl m, .refl m⟩
  | ask hq _ ih =>
    refine bind (answer he hm hq) ?_
    rintro reply m₁ hm₁ ⟨hs₁, hb₁⟩
    refine (ih reply hm₁).mono ?_ fun _ _ _ h => h
    exact fun _ _ _ h => ⟨hs₁.trans h.1, hb₁.trans h.2⟩
  | listen hl _ _ ih =>
    obtain ⟨hm₁, hs₁⟩ := hm.relisten (m.listeners.push _)
      (fun listener hmem => (Array.mem_push.mp hmem).elim (hm.hosted.listeners listener)
        fun heq => heq ▸ hl) m.notifying
    refine bind (Q := fun _ m' => m.Still m' ∧ m.Balanced m') (change hm₁ ⟨hs₁, rfl, rfl⟩) ?_
    rintro _ m₂ hm₂ ⟨hs₂, hb₂⟩
    refine (ih hm₂).mono ?_ fun _ _ _ h => h
    exact fun _ _ _ h => ⟨hs₂.trans h.1, hb₂.trans h.2⟩

/-! ### Activities -/

/-- **Telling the listeners.** -/
theorem tellListeners (he : env.Orderly) (hm : m.Orderly) (event : DebugEvent) :
    Proceeds (tellListeners event env m) (fun _ m' => m.Still m' ∧ m.Balanced m') E := by
  have hloop (listeners : List Listener)
      (hl : ∀ listener ∈ listeners, ∀ event, (listener event).Plain)
      {m : Machine} (hm : m.Orderly) : Proceeds ((forIn listeners PUnit.unit fun listener _ => do
          discard <| ScriptMachine.runHost (listener event)
          pure (ForInStep.yield PUnit.unit) : MachineM PUnit) env m)
        (fun _ m' => m.Still m' ∧ m.Balanced m') E := by
    induction listeners generalizing m with
    | nil => exact ⟨hm, .refl m, .refl m⟩
    | cons listener rest ih =>
      rw [List.forIn_cons]
      refine bind (Q := fun r m' => (∃ u, r = .yield u) ∧ m.Still m' ∧ m.Balanced m')
        (bind (Q := fun _ m' => m.Still m' ∧ m.Balanced m')
          (bind (runHost he hm (hl listener (by simp) event)) fun _ m' hm' h => ret hm' h)
          fun _ m' hm' h => ret hm' ⟨⟨_, rfl⟩, h⟩) ?_
      rintro _ m₁ hm₁ ⟨⟨u, rfl⟩, hs₁, hb₁⟩
      refine (ih (fun l hmem => hl l (List.mem_cons_of_mem _ hmem)) hm₁).mono ?_ fun _ _ _ h => h
      exact fun _ _ _ h => ⟨hs₁.trans h.1, hb₁.trans h.2⟩
  obtain ⟨hm₁, hs₁⟩ := hm.relisten #[] (by simp) true
  refine look (bind (Q := fun _ m' => m.Still m' ∧ m.Balanced m') (change hm₁ ⟨hs₁, rfl, rfl⟩) ?_)
  rintro _ m₁ hm₁ ⟨hs₁, hb₁⟩
  rw [← Array.forIn_toList]
  refine bind (hloop m.listeners.toList (fun l hmem => hm.hosted.listeners l (by simpa using hmem))
    hm₁) ?_
  rintro _ m₂ hm₂ ⟨hs₂, hb₂⟩
  obtain ⟨hm₃, hs₃⟩ := hm₂.relisten (m.listeners ++ m₂.listeners)
    (fun l hmem => (Array.mem_append.mp hmem).elim (hm.hosted.listeners l)
      (hm₂.hosted.listeners l)) false
  refine bind (Q := fun _ m' => m.Still m' ∧ m.Balanced m') (change hm₃
    ⟨(hs₁.trans hs₂).trans hs₃, (hb₁.trans hb₂).stubFrames, (hb₁.trans hb₂).reentryDepth⟩) ?_
  rintro _ m₃ hm₃ h
  exact ret hm₃ h

/-- **Running a host function.** -/
theorem runHostFunction (he : env.Orderly) (hm : m.Orderly) (function : HostId) (c : HostCall) :
    Proceeds (runHostFunction function c env m) (fun _ m' => m.Still m' ∧ m.Balanced m')
      fun _ m' => m.Still m' ∧ m.Balanced m' := by
  refine look ?_
  cases hentry : m.hosts[function.index]? with
  | none => exact unwind hm ⟨.refl m, .refl m⟩
  | some entry =>
    have hstub {m : Machine} (hm : m.Orderly) (stubFrames : Array StubFrame) :
        Orderly { m with stubFrames } ∧ m.Still { m with stubFrames } :=
      hm.beside rfl rfl rfl rfl rfl rfl rfl rfl
    dsimp only
    generalize m.stubFrame _ = frame
    let pushed : Machine := { m with stubFrames := m.stubFrames.push frame }
    obtain ⟨hm₁, hs₁⟩ := hstub hm (m.stubFrames.push frame)
    refine bind (Q := fun _ m' => m' = pushed) (change hm₁ rfl) ?_
    rintro _ _ - rfl
    refine bind (runHost he hm₁ (hm.hosted.hosts entry (Array.mem_of_getElem? hentry) c)) ?_
    rintro result m₂ hm₂ ⟨hs₂, hb₂⟩
    obtain ⟨hm₃, hs₃⟩ := hstub hm₂ (m₂.stubFrames.shrink m.stubFrames.size)
    have hb₃ : m.Balanced { m₂ with stubFrames := m₂.stubFrames.shrink m.stubFrames.size } := by
      refine ⟨?_, hb₂.reentryDepth⟩
      change m₂.stubFrames.shrink m.stubFrames.size = m.stubFrames
      rw [hb₂.stubFrames, Array.shrink_eq_take]
      simp
    refine bind (Q := fun _ m' => m.Still m' ∧ m.Balanced m')
      (change hm₃ ⟨(hs₁.trans hs₂).trans hs₃, hb₃⟩) ?_
    rintro _ m₃ hm₃ ⟨hs₃, hb₃⟩
    cases result with
    | ok value =>
      obtain ⟨hm₄, hs₄, hb₄⟩ := hm₃.retains (Heap.retains_pushTemporary m₃.heap value)
      refine bind (Q := fun _ m' => m.Still m' ∧ m.Balanced m')
        (change hm₄ ⟨hs₃.trans hs₄, hb₃.trans hb₄⟩) ?_
      rintro _ m₄ hm₄ h
      exact ret hm₄ h
    | error failure =>
      cases failure with
      | exception value =>
        refine (Keeping.raiseFromHost value env m₃ he hm₃).mono ?_ ?_
        all_goals exact fun _ _ _ h => ⟨hs₃.trans h.1, hb₃.trans h.2⟩
      | _ => exact unwind hm₃ ⟨hs₃, hb₃⟩

end Proceeds

/-- **Nested activities are orderly**, whatever the fuel. -/
theorem orderly_perform (pause : Machine → List Value → Bool) (fuel : Nat) :
    Env.Orderly { reenter := perform pause fuel, fuel, pause } := by
  induction fuel with
  | zero =>
    exact ⟨fun _ _ hm => ⟨hm, trivial⟩, fun _ _ _ hm => ⟨hm, trivial⟩, fun _ hm _ => ⟨hm, trivial⟩⟩
  | succ fuel ih =>
    refine ⟨fun event m hm => ?_, fun function call m hm => ?_, fun m hm hf => ?_⟩
    · exact Proceeds.tellListeners ih hm event
    · exact Proceeds.runHostFunction ih hm function call
    · exact Proceeds.runFrame ih hm hf

end ScriptMachine
