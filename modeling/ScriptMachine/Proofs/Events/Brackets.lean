import ScriptMachine.Proofs.Events.Recording

/-! # Calls and returns are brackets

What a recording listener hears is a sequence of brackets (`Balanced`): a call and a return of the same
function at the same depth, and between them what happens while the frame runs. In the middle of a run the
brackets of the frames are open (`Unfinished`), one inside the other; every push opens one, every pop closes
one, and reports go to the innermost. So a run of a program is heard as its beginning, a balanced
sequence with as many calls as frames are pushed, and its end (`runProgram_brackets`). -/

namespace ScriptMachine

open Machine

variable {m m' : Machine} {n : Nat} {tag : String} {depth : Nat} {name : Option String}
  {callers : List (Option String)} {event : DebugEvent} {before events rest : List DebugEvent}

/-! ### Brackets -/

/-- **A balanced sequence of events**, heard while `depth` frames are there and the function of the running
one has the given name. -/
inductive Balanced : Nat → Option String → List DebugEvent → Prop
  /-- Nothing is heard. -/
  | nil {depth : Nat} {name : Option String} : Balanced depth name []
  /-- A statement or an exception of the running frame. -/
  | report {event : DebugEvent} {rest : List DebugEvent} :
      event.kind = .statement ∨ event.kind = .exception →
      Balanced event.depth event.function rest → Balanced event.depth event.function (event :: rest)
  /-- A frame is pushed, runs and is popped. -/
  | call {entry exit : DebugEvent} {depth : Nat} {name : Option String} {body rest : List DebugEvent} :
      entry.kind = .call → exit.kind = .ret → entry.depth = depth + 1 → exit.depth = entry.depth →
      exit.function = entry.function → Balanced entry.depth entry.function body →
      Balanced depth name rest → Balanced depth name (entry :: (body ++ exit :: rest))

/-- The event is a call. -/
def DebugEvent.isCall (event : DebugEvent) : Bool := event.kind = .call

theorem Balanced.append (hevents : Balanced depth name events) (hrest : Balanced depth name rest) :
    Balanced depth name (events ++ rest) := by
  induction hevents with
  | nil => exact hrest
  | report hkind _ ih => exact .report hkind (ih hrest)
  | call hentry hexit hdepth hsame hfunction hbody _ _ ih =>
    rw [List.cons_append, List.append_assoc, List.cons_append]
    exact .call hentry hexit hdepth hsame hfunction hbody (ih hrest)

/-- **The brackets of the frames are open**, that of the running frame innermost. -/
inductive Unfinished : List (Option String) → List DebugEvent → Prop
  /-- No frame is there. -/
  | outside {events : List DebugEvent} : Balanced 0 none events → Unfinished [] events
  /-- A frame runs. -/
  | inside {callers : List (Option String)} {before body : List DebugEvent} {entry : DebugEvent} :
      Unfinished callers before → entry.kind = .call → entry.depth = callers.length + 1 →
      Balanced entry.depth entry.function body →
      Unfinished (entry.function :: callers) (before ++ entry :: body)

namespace Unfinished

/-- What is heard of the running frame goes on. -/
theorem append (hu : Unfinished callers events) (hrest : Balanced callers.length (callers.headD none) rest) :
    Unfinished callers (events ++ rest) := by
  cases hu with
  | outside hevents => exact .outside (hevents.append hrest)
  | inside hbefore hkind hdepth hbody =>
    rw [List.append_assoc, List.cons_append]
    refine .inside hbefore hkind hdepth (hbody.append ?_)
    rw [hdepth]
    exact hrest

/-- **A report.** -/
theorem report (hu : Unfinished callers events) (hkind : event.kind = .statement ∨ event.kind = .exception)
    (hdepth : event.depth = callers.length) (hfunction : event.function = callers.headD none) :
    Unfinished callers (events ++ [event]) := by
  refine hu.append ?_
  rw [← hdepth, ← hfunction]
  exact .report hkind .nil

/-- **A bracket is opened.** -/
theorem call (hu : Unfinished callers events) (hkind : event.kind = .call)
    (hdepth : event.depth = callers.length + 1) :
    Unfinished (event.function :: callers) (events ++ [event]) := .inside hu hkind hdepth .nil

/-- **A bracket is closed.** -/
theorem ret (hu : Unfinished (name :: callers) events) (hkind : event.kind = .ret)
    (hdepth : event.depth = callers.length + 1) (hfunction : event.function = name) :
    Unfinished callers (events ++ [event]) := by
  cases hu with
  | inside hbefore hentry hopen hbody =>
    rw [List.append_assoc, List.cons_append]
    refine hbefore.append (.call hentry hkind hopen (hdepth.trans hopen.symm) hfunction hbody .nil)

/-- Once no frame is left, all brackets are closed. -/
theorem balanced (hu : Unfinished [] events) : Balanced 0 none events := by
  cases hu with
  | outside hevents => exact hevents

end Unfinished

/-! ### The regime -/

/-- **The one listener has heard** of the frames of the callers and of what came before them. -/
structure Machine.Hears (tag : String) (before : List DebugEvent) (callers : List (Option String)) (n : Nat)
    (m : Machine) : Prop where
  regular : m.Regular
  listeners : m.listeners = #[Listener.recording tag]
  notifying : m.notifying = false
  hosts : ∀ entry ∈ m.hosts, ∀ c, (entry.run c).Discreet tag
  heard : ∃ events, m.heard tag = before ++ events ∧ (m.heap.Roomy → Unfinished callers events) ∧
    events.countP (·.isCall) = n

/-- **The listener hears every frame** that is pushed and every frame that is popped. -/
def Regime.hearing (tag : String) (before : List DebugEvent) : Regime where
  keeps n m := m.Registered ∧ m.Hears tag before m.callers n
  entered n m := m.Registered ∧ m.frames ≠ #[] ∧ ∃ k, n = k + 1 ∧ m.Hears tag before m.callers.tail k
  left n m := m.Registered ∧ m.Hears tag before m.callers.tail n
  stops _ := True

/-! ### What is heard -/

namespace Machine

/-- An event is reported at the depth of the running frame, -/
theorem depth_event (m : Machine) (kind : EventKind) (exception : Option Value) (line : Option UInt32) :
    (m.event kind exception line).depth = m.callers.length := by
  simp [event, callers, callees]

/-- and under the name of its function. -/
theorem function_event (m : Machine) (kind : EventKind) (exception : Option Value) (line : Option UInt32) :
    (m.event kind exception line).function = m.callers.headD none := by
  unfold event callers callees frame?
  dsimp only
  rw [List.map_map, List.map_reverse, List.headD_eq_head?_getD, List.head?_reverse, List.getLast?_map,
    Array.getLast?_toList]
  cases m.frames.back? <;> rfl

theorem callers_eq_nil : m.callers = [] ↔ m.frames = #[] := by simp [callers, callees]

theorem callers_eq_cons (hframes : m.frames ≠ #[]) : m.callers = m.callers.headD none :: m.callers.tail := by
  cases hcallers : m.callers with
  | nil => exact absurd (callers_eq_nil.mp hcallers) hframes
  | cons name callers => rfl

namespace Hears

/-- A change of which nothing is heard. -/
theorem abides (hh : m.Hears tag before callers n) (ha : m.Abides m') {callers' : List (Option String)}
    (hcallers : m'.heap.Roomy → callers' = callers) : m'.Hears tag before callers' n := by
  obtain ⟨events, hheard, hu, hcount⟩ := hh.heard
  refine ⟨ha.regular, ha.listeners.trans hh.listeners, ha.notifying.trans hh.notifying, ?_, events, ?_,
    fun hr => ?_, hcount⟩
  · rw [ha.hosts]
    exact hh.hosts
  · unfold Machine.heard at hheard ⊢
    rwa [ha.journal]
  · rw [hcallers hr]
    exact hu (ha.heap.roomy hr)

/-- **An event is heard.** -/
theorem tell (hh : m.Hears tag before callers n) {callers' : List (Option String)} (text : Option String)
    (hu : ∀ events, Unfinished callers events → Unfinished callers' (events ++ [event])) :
    Hears tag before callers' (n + if event.isCall then 1 else 0)
      { m with journal := m.journal.push (.event tag event text) } := by
  obtain ⟨events, hheard, hunfinished, hcount⟩ := hh.heard
  refine ⟨hh.regular.beside rfl hh.regular.callees hh.regular.codes, hh.listeners, hh.notifying, hh.hosts,
    events ++ [event], ?_, fun hr => hu events (hunfinished hr), ?_⟩
  · rw [heard_told, hheard, List.append_assoc]
  · rw [List.countP_append, hcount, List.countP_singleton]

/-- Something else is written down. -/
theorem note (hh : m.Hears tag before callers n) {entry : JournalEntry} (hentry : entry.event? tag = none) :
    Hears tag before callers n { m with journal := m.journal.push entry } := by
  obtain ⟨events, hheard, hrest⟩ := hh.heard
  refine ⟨hh.regular.beside rfl hh.regular.callees hh.regular.codes, hh.listeners, hh.notifying, hh.hosts,
    events, ?_, hrest⟩
  rw [heard_push, hentry, hheard]
  exact List.append_nil _

end Hears

end Machine

/-- The scopes of frames are not heard of. -/
theorem Regime.lenient_hearing (tag : String) (before : List DebugEvent) : (hearing tag before).Lenient :=
  fun _ _ _ _ hk hf hcallee hcode =>
    have ha := hk.2.regular.abides_modifyFrame hf hcallee
    ⟨hk.1.modifyFrame hf hcode, hk.2.abides ha fun hr => ha.callers hk.2.regular hr⟩

/-- What is written down is not registered. -/
theorem Machine.Registered.note (hm : m.Registered) (entry : JournalEntry) :
    Registered { m with journal := m.journal.push entry } := hm.beside rfl rfl (Nat.le_refl _) hm.frames

/-- **Telling the one listener** writes the event down. -/
theorem Regime.Ends.told {R : Regime} {pause : Machine → List Value → Bool} {fuel : Nat}
    {kind : EventKind} {exception : Option Value} {line : Option UInt32} {Q : Machine → Prop}
    (hlisteners : m.listeners = #[Listener.recording tag]) (hnotifying : m.notifying = false)
    (hstops : R.stops m)
    (hQ : ∀ text, Q { m with journal := m.journal.push (.event tag (m.event kind exception line) text) }) :
    R.Ends n m (fun _ => Q) (ScriptMachine.notifyAt kind exception line (runningEnv pause fuel) m) := by
  refine .notifyAt (fun hbusy => ?_) ?_
  · rw [hlisteners, hnotifying] at hbusy
    cases hbusy
  · cases fuel with
    | zero => exact hstops
    | succ fuel =>
      obtain ⟨text, htold⟩ := tellListeners_recording (m.event kind exception line) (runningEnv pause fuel)
        hlisteners hnotifying
      change R.Ends n m (fun _ => Q) (tellListeners _ (runningEnv pause fuel) m)
      rw [htold]
      exact ⟨⟨.refl _, fun _ h => h⟩, hQ text⟩

/-- **The listener hears what there is to be heard**, in an environment where it is told. -/
theorem Regime.serves_hearing (tag : String) (before : List DebugEvent)
    (pause : Machine → List Value → Bool) (fuel : Nat) :
    (hearing tag before).Serves (runningEnv pause fuel) where
  regular hk := hk.2.regular
  registered hk := hk.1
  settled := .inl (lenient_hearing tag before)
  silent hk hs := by
    have ha := hs.abides hk.2.regular
    exact ⟨hs.registered hk.2.regular hk.1, hk.2.abides ha fun hr => ha.callers hk.2.regular hr⟩
  stops _ := trivial
  push {n m f id} registers hk hi hf := by
    have hcallers : callers { m with frames := m.frames.push f, registers } =
        m.functionName? f.callee :: m.callers := congrArg (List.map _) (callees_push m f registers)
    obtain ⟨hm, hh⟩ := hk
    refine ⟨hm.push hf.code registers, by simp, n, rfl, ?_⟩
    rw [hcallers]
    exact ⟨hh.regular.push hf.callee hi registers, hh.listeners, hh.notifying, hh.hosts, hh.heard⟩
  pop {n m} registers hk := by
    have hcallers : callers { m with frames := m.frames.pop, registers } = m.callers.tail :=
      (congrArg (List.map _) (callees_pop m registers)).trans List.map_tail
    obtain ⟨hm, hh⟩ := hk
    refine ⟨hm.pop registers, ?_⟩
    rw [hcallers]
    exact ⟨hh.regular.pop registers, hh.listeners, hh.notifying, hh.hosts, hh.heard⟩
  report {n m} kind exception line hkind hk := by
    refine .told hk.2.listeners hk.2.notifying trivial fun text => ⟨hk.1.note _, ?_⟩
    have htold := hk.2.tell text fun events hu => hu.report hkind (depth_event m kind exception line)
      (function_event m kind exception line)
    have hcall : (m.event kind exception line).isCall = false := by
      rcases hkind with rfl | rfl <;> rfl
    rwa [hcall] at htold
  enter {n m} hk := by
    obtain ⟨hm, hframes, k, rfl, hh⟩ := hk
    refine .told hh.listeners hh.notifying trivial fun text => ⟨hm.note _, ?_⟩
    have hcallers := callers_eq_cons hframes
    have hdepth : (m.event .call none none).depth = m.callers.tail.length + 1 := by
      rw [depth_event, hcallers]
      rfl
    have hopen (events : List DebugEvent) (hu : Unfinished m.callers.tail events) :
        Unfinished m.callers (events ++ [m.event .call none none]) := by
      rw [hcallers, ← function_event m .call none none]
      exact hu.call rfl hdepth
    exact hh.tell text hopen
  leave {n m} hk hframes := by
    refine .told hk.2.listeners hk.2.notifying trivial fun text => ⟨hk.1.note _, ?_⟩
    have hcallers := callers_eq_cons hframes
    have hdepth : (m.event .ret none none).depth = m.callers.tail.length + 1 := by
      rw [depth_event, hcallers]
      rfl
    have hclose (events : List DebugEvent) (hu : Unfinished m.callers events) :
        Unfinished m.callers.tail (events ++ [m.event .ret none none]) := by
      rw [hcallers] at hu
      exact hu.ret rfl hdepth (function_event m .ret none none)
    exact hk.2.tell text hclose

/-- Host functions that leave the listener alone. -/
theorem HostProgram.Discreet.admits {program : HostProgram} (hp : program.Discreet tag) :
    (Regime.hearing tag before).Admits program := by
  induction hp with
  | done result => exact .done result
  | ask hrecord _ ih =>
    refine .ask (fun entry hentry env n m hs hk => ⟨⟨.refl _, fun _ h => h⟩, hk.1.note _, ?_⟩) ih
    exact hk.2.note (hrecord entry hentry)

/-- **The listener hears everything that happens in a run**, by induction on the fuel. -/
theorem Meter.serves_hearing (tag : String) (before : List DebugEvent)
    (pause : Machine → List Value → Bool) (fuel : Nat) :
    (Meter.running pause fuel).Serves (Regime.hearing tag before) := by
  induction fuel with
  | zero => exact ⟨Regime.serves_hearing tag before pause 0, fun _ _ _ => trivial, fun _ => trivial⟩
  | succ fuel ih =>
    refine ⟨Regime.serves_hearing tag before pause _, fun function c hk => .reenter ?_, fun he => .reenter ?_⟩
    · exact Metered.Ends.runHostFunction (Regime.lenient_hearing tag before) ih hk function c fun entry hentry =>
        (hk.2.hosts entry (Array.mem_of_getElem? hentry) c).admits
    · exact Metered.Ends.runFrame ih he

/-! ### Programs -/

/-- **A program was heard**: that it begins to run, what happens then, and that it has run. -/
def Machine.HeardRun (tag : String) (before : List DebugEvent) (n : Nat) (m : Machine) : Prop :=
  ∃ will body did, m.heard tag = before ++ will :: (body ++ [did]) ∧ will.kind = .willExecuteProgram ∧
    did.kind = .didExecuteProgram ∧ (m.heap.Roomy → Unfinished m.callers body) ∧
    body.countP (·.isCall) = n

/-- All that is said is how a program was heard. -/
def Regime.heardRun (tag : String) (before : List DebugEvent) : Regime where
  keeps := HeardRun tag before
  entered _ _ := False
  left _ _ := False
  stops _ := True

/-- A listener that has not heard of any frame yet. -/
theorem Machine.Regular.hears (hm : m.Regular) (hlisteners : m.listeners = #[Listener.recording tag])
    (hnotifying : m.notifying = false) (hhosts : ∀ entry ∈ m.hosts, ∀ c, (entry.run c).Discreet tag)
    (hframes : m.frames = #[]) : m.Hears tag (m.heard tag) m.callers 0 := by
  refine ⟨hm, hlisteners, hnotifying, hhosts, [], (List.append_nil _).symm, fun _ => ?_, rfl⟩
  rw [callers_eq_nil.mpr hframes]
  exact .outside .nil

/-- No frames come or go. -/
theorem Machine.Gains.frames (hg : m.Gains m') (hframes : m.frames = #[]) : m'.frames = #[] := by
  have hspots := hg.spots
  unfold Machine.spots at hspots
  rw [hframes] at hspots
  simpa using hspots

/-- **A program that loads** is heard from its beginning to its end, and so is each frame. -/
theorem Metered.Ends.runProgram_heard {pause : Machine → List Value → Bool} {fuel : Nat} {block : Block}
    {program : Value} {loaded : Machine} (hm : m.Intact) (hh : m.Hears tag before m.callers 0)
    (hframes : m.frames = #[]) (hload : load block (runningEnv pause fuel) m = .ok program loaded) :
    (Metered.runProgram block).Ends (Regime.heardRun tag (m.heard tag)) (Meter.running pause fuel) 0 m
      (kept (Regime.heardRun tag (m.heard tag))) := by
  have hunheard : loaded.heard tag = m.heard tag := by
    unfold heard
    rw [Unheard.load block _ m program loaded hload]
  have hgoes : Goes m (load block (runningEnv pause fuel) m) _ _ :=
    Goes.load (faithful_perform pause fuel) hm block
  have hloaded := Regime.Respects.load block _ 0 m (Regime.serves_hearing tag before pause fuel)
    ⟨hm.registered, hh⟩
  rw [hload] at hgoes hloaded
  obtain ⟨ho, hm₁, hh₁⟩ := hloaded
  have hfirst : (Regime.heardRun tag (m.heard tag)).Ends 0 m (fun p m' => 0 = 0 ∧ program = p ∧ loaded = m')
      (load block (runningEnv pause fuel) m) := by
    rw [hload]
    exact ⟨ho, rfl, rfl, rfl⟩
  refine .bind (Q := fun k p m' => 0 = k ∧ program = p ∧ loaded = m') (.silent hfirst) ?_
  rintro _ _ _ - ⟨rfl, rfl, rfl⟩
  refine .bind (Q := fun k _ m₂ => 0 = k ∧ m₂.Registered ∧ m₂.Hears tag (m₂.heard tag) m₂.callers 0 ∧
    ∃ will, will.kind = .willExecuteProgram ∧ m₂.heard tag = m.heard tag ++ [will])
    (.silent (.told hh₁.listeners hh₁.notifying trivial fun text => ?_)) ?_
  · refine ⟨rfl, hm₁.note _, Regular.hears ?_ hh₁.listeners hh₁.notifying hh₁.hosts (hgoes.ends.frames hframes),
      loaded.event .willExecuteProgram none none, rfl, ?_⟩
    · exact hh₁.regular.beside rfl hh₁.regular.callees hh₁.regular.codes
    · rw [heard_told, hunheard]
  rintro _ _ m₂ - ⟨rfl, hm₂, hh₂, will, hwill, hheard₂⟩
  refine .bind (Q := fun k g m₃ => 0 = k ∧ m₂ = g ∧ m₂ = m₃) (.silent ⟨.refl _, rfl, rfl, rfl⟩) ?_
  rintro _ _ _ - ⟨rfl, rfl, rfl⟩
  have hcall := Respects.call program m₂.globalObject #[] _ 0 m₂ (Meter.serves_hearing tag _ pause fuel)
    ⟨hm₂, hh₂⟩
  refine .bind (Q := fun k _ m₃ => m₃.Registered ∧ m₃.Hears tag (m₂.heard tag) m₃.callers k)
    (Regime.Ends.caught hcall fun _ _ => trivial) ?_
  rintro k r m₃ - ⟨-, hh₃⟩
  obtain ⟨body, hheard₃, hbody, hcount⟩ := hh₃.heard
  refine .bind (Q := fun k _ => (Regime.heardRun tag (m.heard tag)).keeps k)
    (.silent (.told hh₃.listeners hh₃.notifying trivial fun text => ?_)) fun k _ m₄ _ hrun => ?_
  · refine ⟨will, body, m₃.event .didExecuteProgram none none, ?_, hwill, rfl, hbody, hcount⟩
    rw [heard_told, hheard₃, hheard₂]
    simp
  · cases r with
    | ok value => exact .silent (.ret hrun)
    | error u => exact .silent (.unwind hrun u)

/-- The machine in which a run ends, unless it is stopped. -/
def endOf {α : Type} : EStateM.Result Stop Machine α → Option Machine
  | .ok _ m | .error (.unwound _) m => some m
  | .error _ _ => none

theorem Regime.Ends.ended {R : Regime} {α : Type} {r : EStateM.Result Stop Machine α}
    (hr : R.Ends n m (fun _ => R.keeps n) r) (hend : endOf r = some m') : R.keeps n m' := by
  cases r with
  | ok a m'' => exact Option.some.inj hend ▸ hr.2
  | error stop m'' =>
    cases stop with
    | unwound u => exact Option.some.inj hend ▸ hr.2
    | exhausted | paused _ => cases hend

theorem Goes.ended {α : Type} {r : EStateM.Result Stop Machine α} {P : Machine → Prop}
    (hr : Goes m r (fun _ => P) fun _ => P) (hend : endOf r = some m') : P m' := by
  have hends := hr.ends
  cases r with
  | ok a m'' => exact Option.some.inj hend ▸ hends
  | error stop m'' =>
    cases stop with
    | unwound u => exact Option.some.inj hend ▸ hends
    | exhausted | paused _ => cases hend

/-- **Calls and returns are brackets.** The machines that any host can get at are intact and regular; and
when one of them that runs nothing has one listener, which records, and host functions that leave it alone,
then whenever a program that loads has been run, by the interpreter or by tier code, and however the run
ended, the listener has heard that the program begins to run, a balanced sequence of events, and that it has
run. The calls it has heard are as many as the frames that were pushed; these are counted by the metered
run, which does what the run does. Otherwise the host functions are any `HostProgram`s. -/
theorem calls_and_returns_are_bracketed :
    (∀ m : Machine, m.Visited → m.Intact ∧ m.Regular) ∧
    (∀ block, (Metered.runProgram block).act = runProgram block) ∧
    ∀ (tag : String) (m : Machine), m.Intact → m.Regular → m.frames = #[] → m.notifying = false →
      m.listeners = #[Listener.recording tag] →
      (∀ entry ∈ m.hosts, ∀ call, (entry.run call).Discreet tag) →
      ∀ (block : Block) (pause : Machine → List Value → Bool) (fuel : Nat) (program : Value)
        (loaded m' : Machine),
        m.evalPausing pause fuel (load block) = .ok program loaded →
        endOf (m.evalPausing pause fuel (runProgram block)) = some m' → m'.heap.Roomy →
        ∃ will body did, m'.heard tag = m.heard tag ++ will :: (body ++ [did]) ∧
          will.kind = .willExecuteProgram ∧ did.kind = .didExecuteProgram ∧ Balanced 0 none body ∧
          body.countP (·.isCall) =
            (Metered.runProgram block).pushes (Meter.running pause fuel) m := by
  refine ⟨fun m hm => ⟨hm.intact, hm.regular⟩, Metered.runProgram_act, ?_⟩
  intro tag m hm hregular hframes hnotifying hlisteners hhosts block pause fuel program loaded m' hload hend hr
  have hh := hregular.hears hlisteners hnotifying hhosts hframes
  have hgains : m.Gains m' := Goes.ended ((Goes.runProgram (faithful_perform pause fuel) hm block).mono
    (fun _ _ _ h => h) fun _ _ _ h => h.1) hend
  obtain ⟨will, body, did, hheard, hwill, hdid, hbody, hcount⟩ :=
    ((Metered.Ends.runProgram_heard hm hh hframes hload).act (Metered.runProgram_act block)).ended hend
  have hbalanced := hbody hr
  rw [callers_eq_nil.mpr (hgains.frames hframes)] at hbalanced
  exact ⟨will, body, did, hheard, hwill, hdid, hbalanced.balanced, hcount.trans (Nat.zero_add _)⟩

/-- A machine that runs nothing, with a recording listener. -/
def listening : Machine where
  config := {}
  heap := { Heap.new {} with
    shapes := { shapes := #[{ kind := .object, prototype := .null, dictionary := true }] } }
  registers := { registers := #[], capacity := 10 }
  intrinsics := default
  names := default
  watchdog := .new none 1
  listeners := #[Listener.recording "log"]

/-- A program that calls a function, and catches what it throws. -/
def catching : Block where
  instructions := #[⟨.newFunction 0 0, none⟩, ⟨.call 1 0 0 0 0 0, none⟩, ⟨.ret 1, none⟩,
    ⟨.catchInto 1, none⟩, ⟨.ret 1, none⟩]
  functions := [{ instructions := #[⟨.debug 7, none⟩, ⟨.loadNull 0, none⟩, ⟨.throw 0, none⟩]
                  registerCount := 1 }]
  handlers := [⟨0, 2, 3, 0⟩]
  registerCount := 2
  callCacheCount := 1

theorem intact_listening : listening.Intact := by
  have hheap : (Heap.new {}).Regular := (Heap.Built.new {}).regular
  refine ⟨hheap.white.congr rfl, fun _ => hheap.listed.congr rfl rfl, fun id c hc => ?_, fun f hf => ?_,
    fun entry hentry => ?_⟩
  · simp [listening, Heap.new, Heap.cell?] at hc
  · cases Array.mem_def.mp hf
  · cases Array.mem_def.mp hentry

theorem regular_listening : listening.Regular := by
  refine ⟨intact_listening.white, intact_listening.listed, .empty, fun id c hc => ?_, fun v hv => ?_,
    fun entry hentry => ?_⟩
  · simp [listening, Heap.new, Heap.cell?] at hc
  · cases hv
  · cases Array.mem_def.mp hentry

/-- The action has yielded a result. -/
def succeeds {α : Type} : EStateM.Result Stop Machine α → Bool
  | .ok _ _ => true
  | .error _ _ => false

/-- The function reports a statement and throws: both frames are heard to come and to go. -/
theorem calls_and_returns_are_bracketed_caught : ∃ m m' : Machine, m.Intact ∧ m.Regular ∧
    endOf (m.evalPausing (fun _ _ => false) 20 (runProgram catching)) = some m' ∧
    ∃ will body did, m'.heard "log" = m.heard "log" ++ will :: (body ++ [did]) ∧
      will.kind = .willExecuteProgram ∧ did.kind = .didExecuteProgram ∧ Balanced 0 none body ∧
      body.countP (·.isCall) = 2 := by
  have hloads : succeeds (listening.evalPausing (fun _ _ => false) 20 (load catching)) = true := by
    decide +kernel
  have hroomy : (endOf (listening.evalPausing (fun _ _ => false) 20 (runProgram catching))).any
      (·.heap.slots.size < 2 ^ 32) = true := by decide +kernel
  have hpushes : (Metered.runProgram catching).pushes (Meter.running (fun _ _ => false) 20) listening = 2 := by
    decide +kernel
  obtain ⟨m', hend, hsize⟩ := (Option.any_eq_true _ _).mp hroomy
  have hr : m'.heap.slots.size < 2 ^ 32 := of_decide_eq_true hsize
  cases hload : listening.evalPausing (fun _ _ => false) 20 (load catching) with
  | error stop loaded =>
    rw [hload] at hloads
    cases hloads
  | ok program loaded =>
    have hbrackets := calls_and_returns_are_bracketed.2.2 "log" listening intact_listening regular_listening
      rfl rfl rfl (fun _ h => by cases Array.mem_def.mp h) catching _ 20 program loaded m' hload hend hr
    rw [hpushes] at hbrackets
    exact ⟨listening, m', intact_listening, regular_listening, hend, hbrackets⟩

end ScriptMachine
