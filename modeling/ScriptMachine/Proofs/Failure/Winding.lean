import ScriptMachine.Proofs.Failure.Local

/-! # What is left to do

While something unwinds that no handler takes, the machine tells the listeners, pops frames and puts away
what belongs to the calls in progress, and host functions that pass a failure on may register listeners
and ask what they may still ask. No instruction is among it, and no handler (`Winds`). The listeners, and
what host functions ask, may run scripts of their own, in invocations that have nothing to do with what
unwinds, and these need not come to an end (`Dwells`). -/

namespace ScriptMachine

open Machine

variable {pause : Machine → List Value → Bool} {may : HostQuery → Prop} {env : Env} {s m m' : Machine}

/-- The environment of the machine. -/
abbrev runningEnv (pause : Machine → List Value → Bool) (fuel : Nat) : Env :=
  { reenter := perform pause fuel, fuel, pause }

/-- **What is left to do** while something unwinds, where host functions that pass it on may ask certain
questions. -/
inductive Winds (pause : Machine → List Value → Bool) (may : HostQuery → Prop) : Machine → Machine → Prop
  /-- Nothing. -/
  | refl (m : Machine) : Winds pause may m m
  /-- The listeners are told of an event. -/
  | tell {fuel : Nat} {event : DebugEvent} {v : Value} {m m' m'' : Machine} : Winds pause may m m' →
      perform pause fuel (.notify event) m' = .ok v m'' → Winds pause may m m''
  /-- The running frame is popped. -/
  | pop {f : Frame} {m m' : Machine} : Winds pause may m m' → m'.frame? = some f →
      Winds pause may m { m' with frames := m'.frames.pop, registers := m'.registers.truncate f.base }
  /-- Temporaries, stub frames and the books of calls from the host are put away. -/
  | tidy {m m' : Machine} (temporaries : Array Value) (stubFrames : Array StubFrame)
      (stubUnwind : Option Unwind) (reentryDepth : Nat) (watchdog : Watchdog) : Winds pause may m m' →
      Winds pause may m { m' with heap := { m'.heap with temporaries }, stubFrames, stubUnwind,
                                  reentryDepth, watchdog }
  /-- A host function that passes the failure on asks something. -/
  | ask {fuel : Nat} {query : HostQuery} {reply : query.Reply} {m m' m'' : Machine} :
      Winds pause may m m' → may query → answer query (runningEnv pause fuel) m' = .ok reply m'' →
      Winds pause may m m''
  /-- A host function that passes the failure on registers a listener. -/
  | listen {m m' : Machine} (listener : Listener) : Winds pause may m m' →
      Winds pause may m { m' with listeners := m'.listeners.push listener }

/-- The listeners are told of an event, or a host function asks something, and this does not end. -/
inductive Dwells (pause : Machine → List Value → Bool) (may : HostQuery → Prop) (s : Machine) (stop : Stop)
    (m' : Machine) : Prop
  /-- The listeners are told of an event. -/
  | tell {fuel : Nat} {event : DebugEvent} {m : Machine} : Winds pause may s m →
      perform pause fuel (.notify event) m = .error stop m' → Dwells pause may s stop m'
  /-- A host function asks something. -/
  | ask {fuel : Nat} {query : HostQuery} {m : Machine} : Winds pause may s m → may query →
      answer query (runningEnv pause fuel) m = .error stop m' → Dwells pause may s stop m'

/-! ### Host programs do not unwind -/

/-- An action that may stop, but does not unwind. -/
def Smooth {α : Type} (x : MachineM α) : Prop :=
  ∀ (env : Env) (m : Machine) (u : Unwind) (m' : Machine), x env m ≠ .error (.unwound u) m'

namespace Smooth

variable {α β : Type} {x : MachineM α} {g : α → MachineM β}

theorem ret (a : α) : Smooth (pure a : MachineM α) := fun _ _ _ _ h => by cases h

theorem settled (found : Option α) : Smooth (settled found) := by
  cases found <;> exact fun _ _ _ _ h => by cases h

theorem look : Smooth (get : MachineM Machine) := fun _ _ _ _ h => by cases h

theorem step (c : Machine → α × Machine) : Smooth (modifyGet c : MachineM α) := fun _ _ _ _ h => by
  cases h

theorem change (c : Machine → Machine) : Smooth (modify c : MachineM PUnit) := step _

theorem bind (hx : Smooth x) (hg : ∀ a, Smooth (g a)) : Smooth (x >>= g) := by
  intro env m u m' h
  cases hr : x env m with
  | ok a m₁ =>
    rw [bind_eq_of_ok hr] at h
    exact hg a env m₁ u m' h
  | error stop m₁ =>
    rw [bind_eq_of_error hr] at h
    cases h
    exact hx env m u _ hr

theorem ite {c : Prop} [Decidable c] {y : MachineM α} (hx : Smooth x) (hy : Smooth y) :
    Smooth (if c then x else y) := by
  split
  · exact hx
  · exact hy

theorem attempt (x : MachineM α) : Smooth (attempt x) := by
  intro env m u m' h
  unfold ScriptMachine.attempt at h
  split at h <;> cases h

theorem tryCall (x : MachineM α) : Smooth (tryCall x) := by
  refine bind (attempt x) fun r => ?_
  cases r <;> exact ret _

theorem callStub (routine : Routine) (words : List StubWord) : Smooth (callStub routine words) := by
  refine bind look fun m => bind (change _) fun _ => bind (attempt _) fun r => bind (change _) fun _ => ?_
  cases r with
  | ok answer => exact ret _
  | error u => exact bind (change _) fun _ => ret _

theorem answer (query : HostQuery) : Smooth (answer query) := by
  cases query with
  | display _ | number _ | depth | register _ | scopedVar _ _ | describe _ =>
    exact bind look fun _ => ret _
  | call _ _ _ | construct _ _ | newString _ | newArray _ | newObject | newError _ _
  | setProperty _ _ _ | defineProperty _ _ _ _ | setPrototype _ _ | setGlobal _ _ =>
    exact tryCall _
  | getGlobal name =>
    exact bind (step _) fun _ => bind look fun _ => bind (settled _) fun _ =>
      ite (bind (settled _) fun _ => ret _) (ret _)
  | collect => exact step _
  | release | interrupt | record _ => exact change _
  | intern name => exact step _
  | locate name => exact bind (step _) fun _ => bind look fun _ => settled _
  | stub routine words =>
    exact bind (callStub routine words) fun _ => ite (bind (step _) fun _ => ret _) (ret _)

theorem runHost (program : HostProgram) : Smooth (runHost program) := by
  induction program with
  | done result => exact ret _
  | ask query next ih => exact bind (answer query) fun reply => ih reply
  | listen listener next _ ih => exact bind (change _) fun _ => ih

theorem tellListeners (event : DebugEvent) : Smooth (tellListeners event) := by
  have hloop (listeners : List Listener) : Smooth (forIn listeners PUnit.unit fun listener _ => do
      discard <| ScriptMachine.runHost (listener event)
      pure (ForInStep.yield PUnit.unit) : MachineM PUnit) := by
    induction listeners with
    | nil => exact ret _
    | cons listener rest ih =>
      rw [List.forIn_cons]
      refine bind (bind (bind (runHost _) fun _ => ret _) fun _ => ret _) fun r => ?_
      cases r with
      | done _ => exact ret _
      | yield _ => exact ih
  refine bind look fun m => bind (change _) fun _ => ?_
  rw [← Array.forIn_toList]
  exact bind (hloop _) fun _ => bind (change _) fun _ => ret _

end Smooth

/-- Telling the listeners never unwinds. -/
theorem perform_notify_ne {fuel : Nat} {event : DebugEvent} {u : Unwind} {m' : Machine} :
    perform pause fuel (.notify event) m ≠ .error (.unwound u) m' := by
  cases fuel with
  | zero => exact fun h => by cases h
  | succ fuel => exact Smooth.tellListeners event _ m u m'

namespace Winds

theorem stubs (hw : Winds pause may s m) (stubFrames : Array StubFrame) (stubUnwind : Option Unwind) :
    Winds pause may s { m with stubFrames, stubUnwind } :=
  hw.tidy m.heap.temporaries stubFrames stubUnwind m.reentryDepth m.watchdog

theorem books (hw : Winds pause may s m) (reentryDepth : Nat) (watchdog : Watchdog) :
    Winds pause may s { m with reentryDepth, watchdog } :=
  hw.tidy m.heap.temporaries m.stubFrames m.stubUnwind reentryDepth watchdog

theorem release (hw : Winds pause may s m) (temporaries : Array Value) :
    Winds pause may s { m with heap := { m.heap with temporaries } } :=
  hw.tidy temporaries m.stubFrames m.stubUnwind m.reentryDepth m.watchdog

theorem truncate (hw : Winds pause may s m) (mark : Nat) :
    Winds pause may s { m with heap := m.heap.truncateTemporaries mark } := by
  unfold Heap.truncateTemporaries
  split
  · exact hw
  · exact hw.release _

theorem push (hw : Winds pause may s m) (v : Value) :
    Winds pause may s { m with heap := m.heap.pushTemporary v } := by
  unfold Heap.pushTemporary
  split
  · exact hw.release _
  · exact hw

end Winds

/-! ### Actions that only wind -/

/-- The run of an action that does nothing else: it has a result, unless the listeners do not end. -/
def WindsTo {α : Type} (pause : Machine → List Value → Bool) (may : HostQuery → Prop) (s : Machine) :
    EStateM.Result Stop Machine α → Prop
  | .ok _ m => Winds pause may s m
  | .error (.unwound _) _ => False
  | .error stop m => Dwells pause may s stop m

/-- An action that does nothing else. -/
def Winding {α : Type} (pause : Machine → List Value → Bool) (x : MachineM α) : Prop :=
  ∀ may fuel s m, Winds pause may s m → WindsTo pause may s (x (runningEnv pause fuel) m)

namespace Winding

variable {α β : Type} {x : MachineM α} {g : α → MachineM β}

theorem ret (a : α) : Winding pause (pure a : MachineM α) := fun _ _ _ _ hw => hw

theorem look : Winding pause (get : MachineM Machine) := fun _ _ _ _ hw => hw

theorem change {c : Machine → Machine}
    (hc : ∀ may s m, Winds pause may s m → Winds pause may s (c m)) :
    Winding pause (modify c : MachineM PUnit) := fun may _ s m hw => hc may s m hw

theorem bind (hx : Winding pause x) (hg : ∀ a, Winding pause (g a)) : Winding pause (x >>= g) := by
  intro may fuel s m hw
  have hx := hx may fuel s m hw
  cases hr : x (runningEnv pause fuel) m with
  | ok a m' =>
    rw [hr] at hx
    rw [bind_eq_of_ok hr]
    exact hg a may fuel s m' hx
  | error stop m' =>
    rw [hr] at hx
    rw [bind_eq_of_error hr]
    cases stop <;> exact hx

theorem ite {c : Prop} [Decidable c] {y : MachineM α} (hx : Winding pause x) (hy : Winding pause y) :
    Winding pause (if c then x else y) := by
  split
  · exact hx
  · exact hy

theorem discarded (hx : Winding pause x) : Winding pause (discard x) := bind hx fun _ => ret _

theorem notifyAt (kind : EventKind) (exception : Option Value) (line : Option UInt32) :
    Winding pause (notifyAt kind exception line) := by
  refine bind look fun m => ite (discarded fun may fuel s m' hw => ?_) (ret _)
  change WindsTo pause may s (perform pause fuel (.notify (m.event kind exception line)) m')
  cases hr : perform pause fuel (.notify (m.event kind exception line)) m' with
  | ok v m'' => exact hw.tell hr
  | error stop m'' =>
    cases stop with
    | unwound u => exact absurd hr perform_notify_ne
    | exhausted | paused _ => exact .tell hw hr

theorem popFrame : Winding pause popFrame := by
  refine bind look fun m => ite (ret _) (bind (notifyAt _ _ _) fun _ may fuel s m hw => ?_)
  change Winds pause may s _
  cases hf : m.frames.back? with
  | none => exact hw
  | some f => exact hw.pop hf

theorem popFrames (count : Nat) : Winding pause (popFrames count) := by
  induction count with
  | zero => exact ret _
  | succ count ih => exact bind (discarded popFrame) fun _ => ih

theorem popFramesTo (depth : Nat) : Winding pause (popFramesTo depth) := bind look fun _ => popFrames _

end Winding

end ScriptMachine
