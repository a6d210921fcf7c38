import ScriptMachine.Proofs.Failure.Falling
import ScriptMachine.Proofs.Failure.Landing
import ScriptMachine.Proofs.Failure.Raising
import ScriptMachine.Proofs.Progress.Validated

/-! # Failures are not seen, and exceptions are

The end of memory, interruption and a stale handle are failures: no script sees them. A value that is
thrown is an exception: a script or a host sees it, and it sees an exception.

The halting machine stops for good where a failure arises (`halting`): as soon as an instruction, an
operation of tier code, the entry of a function or a question of a host function ends in it, none of
its frames is popped, no handler is looked for, and nothing that is left to do is done. So whatever the
machine itself does after that is all there is to see of what follows from the failure, and that is
nothing but winding until the invocation reports it (`failures_fall`). -/

namespace ScriptMachine

open Machine

section

/-! ### Host programs that pass a failure on -/

/-- A host program that ends with a failure, and only asks certain questions before it does. -/
inductive HostProgram.EndsWith (failure : Failure) (may : HostQuery → Prop) : HostProgram → Prop
  /-- It is done. -/
  | done : EndsWith failure may (.done (.error failure))
  /-- It asks something. -/
  | ask {query : HostQuery} {next : query.Reply → HostProgram} :
      may query → (∀ reply, EndsWith failure may (next reply)) → EndsWith failure may (.ask query next)
  /-- It registers a listener. -/
  | listen {listener : DebugEvent → HostProgram} {next : HostProgram} :
      EndsWith failure may next → EndsWith failure may (.listen listener next)

/-- **A host program that passes a failure on**: when a nested call fails with it, it ends with it. -/
inductive HostProgram.PassesOn (failure : Failure) (may : HostQuery → Prop) : HostProgram → Prop
  /-- It is done. -/
  | done (result : Except Failure Value) : PassesOn failure may (.done result)
  /-- It asks something. -/
  | ask {query : HostQuery} {next : query.Reply → HostProgram} :
      (query.isCall = true → ∀ reply, query.failure? reply = some failure →
        EndsWith failure may (next reply)) →
      (∀ reply, PassesOn failure may (next reply)) → PassesOn failure may (.ask query next)
  /-- It registers a listener. -/
  | listen {listener : DebugEvent → HostProgram} {next : HostProgram} :
      PassesOn failure may next → PassesOn failure may (.listen listener next)

/-- What a call of a host function runs passes the failure on. -/
def Machine.PassesOn (m : Machine) (failure : Failure) (may : HostQuery → Prop) (function : HostId)
    (call : HostCall) : Prop :=
  ∀ entry, m.hosts[function.index]? = some entry → (entry.run call).PassesOn failure may

/-- **The halting machine** stops where the failure arises, in the machines of a kind. Host functions that
do not pass it on are left to the machine itself. -/
noncomputable def halting (failure : Failure) (may : HostQuery → Prop) (point : Machine → Prop) : Probe where
  ends := haltAt point (.fatal failure)
  enter := enterHandler
  answer query next := do
    let reply ← answer query
    haltIf fun m =>
      query.failure? reply = some failure ∧ (next reply).EndsWith failure may ∧ point m
    return reply
  minds m function call := m.PassesOn failure may function call

/-- Comparing the machine with the halting machine. -/
noncomputable def haltingWatch (pause : Machine → List Value → Bool) (failure : Failure)
    (may : HostQuery → Prop) (point : Machine → Prop) : Watch :=
  haltWatch pause may point (fun _ => False) (.fatal failure) (halting failure may point) .plain

variable {pause : Machine → List Value → Bool} {failure : Failure} {may : HostQuery → Prop}
  {point : Machine → Prop}
  {s m : Machine} {fuel : Nat}

/-! ### The loop and tier code -/

theorem Comes.settle (hw : Winds pause may s m) (entryDepth mark : Nat) :
    Comes pause may (fun _ => False) (Raises (.fatal failure)) s
      (Probe.plain.settle entryDepth mark (.error (.fatal failure)) (Probe.plain.env pause fuel) m) := by
  have hhandle : Comes pause may (fun _ => False) (Raises (.fatal failure)) s
      (Probe.plain.handleUnwind entryDepth (.fatal failure) (Probe.plain.env pause fuel) m) :=
    .after (.popFramesTo _) (.popFramesTo _) hw fun _ _ hw' => .inr ⟨rfl, hw'⟩
  refine hhandle.caught fun m' hw' => .inr ?_
  exact ⟨rfl, hw'.truncate mark⟩

theorem haltingWatch_sound : (haltingWatch pause failure may point).Sound := by
  refine haltWatch_sound (fun _ => rfl) (fun _ => rfl) (fun entryDepth mark flow fuel m => ?_)
    (fun code index flow fuel m => ?_) (fun entryDepth mark fuel s m _ hw => .settle hw _ _)
    fun code index fuel s m _ hw => .inr ⟨rfl, hw⟩
  · rw [Probe.settle_congr (p := halting failure may point) (q := .plain) rfl, Probe.settle_plain]
    exact Watch.agree_same (.settle _ _ _)
  · rw [Probe.settleOperation_congr (p := halting failure may point) (q := .plain) rfl,
      Probe.settleOperation_plain]
    exact Watch.agree_same (.settleOperation _ _ _)

/-! ### Host functions -/

/-- A host program that ends with the failure only winds. -/
theorem HostProgram.EndsWith.falls {program : HostProgram} (hp : program.EndsWith failure may)
    (hw : Winds pause may s m) : FallsTo pause may (· = .ok (.error failure)) s
      (Probe.plain.runHost program (Probe.plain.env pause fuel) m) := by
  rw [Probe.env_plain]
  induction hp generalizing m with
  | done => exact ⟨rfl, hw⟩
  | @ask query next hmay _ ih =>
    change FallsTo _ _ _ _ ((answer query >>= fun reply => Probe.plain.runHost (next reply)) _ m)
    cases hr : answer query (runningEnv pause fuel) m with
    | ok reply m' =>
      rw [bind_eq_of_ok hr]
      exact ih reply (hw.ask hmay hr)
    | error stop m' =>
      rw [bind_eq_of_error hr]
      cases stop with
      | unwound u => exact absurd hr (Smooth.answer query _ m u m')
      | exhausted | paused _ => exact .ask hw hmay hr
  | listen _ ih => exact ih (hw.listen _)

section Hosts
variable (hn : (haltingWatch pause failure may point).Nested fuel)
include hn

/-- **A host program that passes the failure on.** -/
theorem runHost_halts {program : HostProgram} (hp : program.PassesOn failure may) (m : Machine) :
    (haltingWatch pause failure may point).AgreeOr (Halts pause may point (· = .ok (.error failure))) fuel m
      ((halting failure may point).runHost program) (Probe.plain.runHost program) := by
  induction hp generalizing m with
  | done result => exact Watch.agree_same (.ret _)
  | @ask query next hends hnext ih =>
    have hask : (halting failure may point).runHost (.ask query next) = answer query >>= fun reply =>
        haltIf (fun m => query.failure? reply = some failure ∧ (next reply).EndsWith failure may ∧
          point m) >>= fun _ => (halting failure may point).runHost (next reply) := by
      change ((halting failure may point).answer query next >>= _) = _
      simp only [halting, bind_assoc, pure_bind]
    have halts (reply : query.Reply) (m' : Machine) : (haltingWatch pause failure may point).AgreeOr
        (Halts pause may point (· = .ok (.error failure))) fuel m'
        (haltIf (fun m => query.failure? reply = some failure ∧ (next reply).EndsWith failure may ∧
          point m) >>= fun _ => (halting failure may point).runHost (next reply))
        (Probe.plain.runHost (next reply)) :=
      Watch.agree_haltIf (fun ⟨_, hpasses, hpoint⟩ => ⟨m', rfl, hpoint, hpasses.falls (.refl m')⟩)
        (ih reply m')
    rw [hask]
    cases hcall : query.isCall with
    | false =>
      exact Watch.agree_bind (congrFun ((Local.answer hcall _ _).trans (Local.answer hcall _ _).symm) m)
        fun reply m' _ => halts reply m'
    | true =>
      rcases answer_agrees haltingWatch_sound hn query m with heq | hland | ⟨s, hs, hpoint, hx⟩
      · exact Watch.agree_bind heq fun reply m' _ => halts reply m'
      · exact (not_lands hland).elim
      · refine .inr ⟨s, bind_eq_of_error hs, hpoint, hx.bind ?_ ?_⟩
        · rintro reply m' ⟨_, ⟨⟩, htold⟩ hw
          exact (hends hcall reply htold).falls hw
        · rintro u ⟨_, ⟨⟩, _⟩
  | listen hnext ih => exact Watch.agree_bind rfl fun _ m' _ => ih m'

/-- **A host function that passes the failure on.** -/
theorem runHostFunction_halts (hf : ∀ v, failure ≠ .exception v) {function : HostId} {call : HostCall}
    (hp : m.PassesOn failure may function call) : (haltingWatch pause failure may point).Agree fuel m
      (runHostFunctionBy (halting failure may point).runHost function call)
      (runHostFunctionBy Probe.plain.runHost function call) := by
  refine Watch.agree_look ?_
  cases hentry : m.hosts[function.index]? with
  | none => exact Watch.agree_same (.fatal _)
  | some entry =>
    refine Watch.agree_bind rfl fun _ m₁ _ => ?_
    rcases runHost_halts hn (hp entry hentry) m₁ with heq | ⟨s, hs, hpoint, hx⟩
    · refine Watch.agree_bind heq fun result m₂ _ => Watch.agree_same (.bind (.change _) fun _ => ?_)
      cases result with
      | ok value => exact .bind (.modifyHeap _) fun _ => .ret _
      | error failure =>
        cases failure with
        | exception v => exact .raiseFromHost v
        | _ => exact .fatal _
    · refine .inr (.inr ⟨s, bind_eq_of_error hs, hpoint, hx.bind ?_ ?_⟩)
      · rintro _ m₂ ⟨⟩ hw
        cases failure with
        | exception v => exact absurd rfl (hf v)
        | _ => exact ⟨rfl, hw.stubs _ _⟩
      · rintro u ⟨⟩

end Hosts

/-- **Failures are not seen.** Whatever a host does to run scripts, in any machine: the halting machine does
the same, or it stops where the failure arose, and from there the machine does nothing but wind until the
invocation reports the failure, unless the listeners do not end. -/
theorem failures_fall (hf : ∀ v, failure ≠ .exception v) (i : Invocation) (fuel : Nat) (m : Machine) :
    i.run ((halting failure may point).env pause fuel) m = i.run (runningEnv pause fuel) m ∨
      Halts pause may point (Raises (.fatal failure)) (i.run ((halting failure may point).env pause fuel) m)
        (i.run (runningEnv pause fuel) m) := by
  have hnested : (haltingWatch pause failure may point).Nested fuel := by
    refine haltingWatch_sound.nested (fun fuel hn function call m => ?_) fuel
    by_cases hp : m.PassesOn failure may function call
    · exact Watch.host_agrees hp trivial (runHostFunction_halts hn hf hp)
    · refine .inl ((if_neg hp).trans ?_)
      exact (congrFun (congrFun (Probe.perform_plain pause (fuel + 1)) (.host function call)) m).symm
  rw [← Probe.env_plain]
  exact (haltingWatch_sound.invocation i fuel m hnested).imp id fun h => h.resolve_left not_lands

end

/-! ## Failures and exceptions -/

variable {m m' : Machine} {pause : Machine → List Value → Bool} {fuel : Nat}

/-- When the run ends, every frame it has pushed is popped, and the others stand where they stood. -/
structure Machine.Regains {α : Type} (m : Machine) (r : EStateM.Result Stop Machine α) : Prop where
  /-- It has a result. -/
  ok : ∀ a m', r = .ok a m' → m'.spots = m.spots
  /-- It unwinds. -/
  unwound : ∀ u m', r = .error (.unwound u) m' → m'.spots = m.spots

theorem Goes.regains {α : Type} {r : EStateM.Result Stop Machine α}
    (hr : Goes m r (fun _ m' => m'.spots = m.spots) fun _ m' => m'.spots = m.spots) : m.Regains r := by
  have hends := hr.ends
  refine ⟨?_, ?_⟩
  all_goals
    rintro _ m' rfl
    exact hends

theorem Invocation.regains (i : Invocation) (hm : m.Intact) :
    m.Regains (i.run (runningEnv pause fuel) m) := by
  have he := faithful_perform pause fuel
  cases i with
  | call function this args =>
    exact ((Calmly.call function this args _ m he hm).mono (fun _ _ _ h => h.spots)
      fun _ _ _ h => h.1.spots).regains
  | construct function args =>
    exact ((Calmly.construct function args _ m he hm).mono (fun _ _ _ h => h.spots)
      fun _ _ _ h => h.1.spots).regains
  | program block =>
    exact ((Goes.runProgram he hm block).mono (fun _ _ _ h => h.spots) fun _ _ _ h => h.1.spots).regains

/-- **Failures are never seen, and exceptions always are.** The machines that any host can get at, also in
the middle of a run, are intact; and in these, whatever the host does to run scripts, when it ends, all its
frames are popped.

Where a failure arises that is no exception, the machine does nothing from there but wind until the invocation
reports the failure, if no host function swallows it: what it does is what the machine does that stops for good
where the failure arises, and then winding. Where a value is thrown, a handler is entered with it, or
a host function is told of the exception, with nothing but winding before that; or the invocation
reports the exception. And whatever throws does so: the instruction that throws, errors, and calls for which
there is no room, unless there is no memory for the error; and a stub call raises what its routine raised.
Host functions and listeners are any `HostProgram`s. -/
theorem failures_unseen_exceptions_arrive :
    (∀ m : Machine, m.Visited → m.Intact) ∧
    ∀ m : Machine, m.Intact → ∀ (pause : Machine → List Value → Bool) (fuel : Nat),
      (∀ i : Invocation,
        let run := i.run (runningEnv pause fuel) m
        m.Regains run ∧
        (∀ failure may point, (∀ v, failure ≠ .exception v) →
          let halted := i.run ((halting failure may point).env pause fuel) m
          halted = run ∨ Halts pause may point (Raises (.fatal failure)) halted run) ∧
        ∀ v point,
          let thrown := i.run ((throwing v point).env pause fuel) m
          let landed := i.run ((landing v (Reaches pause point)).env pause fuel) m
          thrown = run ∨ Lands (Arrives pause v (Reaches pause point)) landed ∨
            Halts pause HostQuery.Barred point (Raises (.throw v)) thrown run) ∧
      (∀ {α : Type} (x : MachineM α) E, m.Throws x E →
        Goes m (x (runningEnv pause fuel) m) (fun _ _ => False) fun u m' => m'.heap.Roomy → E u) ∧
      ∀ pc routine words u m',
        let called := (m.setPc (pc + 1)).countStubCall
        let frame := called.stubFrame words
        runRoutine frame routine (runningEnv pause fuel)
            { called with stubFrames := called.stubFrames.push frame } = .error (.unwound u) m' →
        tierStub pc routine words (runningEnv pause fuel) m =
          .error (.unwound u) { m' with stubFrames := m'.stubFrames.pop, stubUnwind := none } := by
  refine ⟨fun m hm => hm.intact, fun m hm pause fuel => ⟨fun i => ⟨i.regains hm, ?_, ?_⟩, ?_, ?_⟩⟩
  · exact fun failure may point hf => failures_fall hf i fuel m
  · exact fun v point => exceptions_arrive v point i fuel m
  · exact fun x E hx => hx.goes (faithful_perform pause fuel) hm
  · exact fun pc routine words u m' => tierStub_raises

/-- A heap with a function. -/
def functionHeap : Heap := ((Heap.new {}).allocate ⟨0⟩
  (.function { target := .script ⟨0⟩, scope := none, name := none, arity := 0 })).2

/-- A machine without memory, with a function that makes an object where a handler would take what it
throws. -/
def starving : Machine :=
  { calling (.ret 0) with
    heap := { functionHeap with limits := { maxBytes := 0 } }
    codes := #[.fresh { instructions := #[⟨.newObject 0, none⟩, ⟨.ret 0, none⟩, ⟨.catchInto 0, none⟩,
                          ⟨.ret 0, none⟩]
                        handlers := [⟨0, 1, 2, 0⟩], registerCount := 1 } #[] #[] []]
    registers := { registers := #[], capacity := 10 }
    frames := #[] }

theorem intact_starving : starving.Intact := by
  have hheap : functionHeap.Regular := (Heap.Built.allocate _ _ (.new {}) fun _ => by decide).regular
  have hcell : starving.heap.cell? = functionHeap.cell? := Heap.cell?_congr rfl
  refine ⟨hheap.white.congr rfl, fun _ => hheap.listed.congr rfl rfl, fun id c hc => ?_, fun f hf => ?_,
    fun entry hentry => ?_⟩
  · rw [hcell] at hc
    rcases Heap.cell?_allocate_cases hc with hold | hnew
    · simp [Heap.new, Heap.cell?] at hold
    · rw [hnew]
      exact ⟨Nat.zero_lt_one, fun _ _ h => by cases h⟩
  · cases Array.mem_def.mp hf
  · obtain rfl := List.mem_singleton.mp (Array.mem_def.mp hentry)
    exact complete_fresh (Block.checkOwn_eq_ok_iff.mp (by decide)) rfl rfl rfl (by simp)

/-- Stops after a failure. -/
def stopAt (failure : Failure) {α : Type} : Except Unwind α → MachineM (Except Unwind α)
  | .error (.fatal other) => if other = failure then throw .exhausted else return .error (.fatal other)
  | r => return r

theorem haltAt_everywhere (failure : Failure) {α : Type} (r : Except Unwind α) :
    haltAt (fun _ => True) (.fatal failure) r = stopAt failure r := by
  funext env m
  rcases r with (value | other) | a
  · exact bind_eq_of_ok (haltIf_goes _ (by simp) env)
  · by_cases h : other = failure
    · rw [stopAt, if_pos h]
      exact bind_eq_of_error (haltIf_stops _ (by simp [h]) env)
    · rw [stopAt, if_neg h]
      exact bind_eq_of_ok (haltIf_goes _ (by simp [h]) env)
  · exact bind_eq_of_ok (haltIf_goes _ (by simp) env)

/-- The machine that halts wherever the failure arises need not ask for the kind of machine it is in. -/
theorem halting_everywhere (failure : Failure) (may : HostQuery → Prop) :
    halting failure may (fun _ => True) =
      { halting failure may fun _ => True with ends := stopAt failure } := by
  simp only [halting, Probe.mk.injEq, and_true]
  funext α r
  exact haltAt_everywhere failure r

/-- The failure that a run ends with. -/
def failureOf {α : Type} : EStateM.Result Stop Machine α → Option Failure
  | .error (.unwound (.fatal failure)) _ => some failure
  | _ => none

/-- The object finds no memory: the function fails, and the handler does not take the failure. The halting
machine stops there, and all that the machine itself does after that is to wind. -/
theorem failures_unseen_exceptions_arrive_starving : ∃ (m : Machine) (i : Invocation), m.Intact ∧
    let run := i.run (runningEnv (fun _ _ => false) 2) m
    let halted := i.run ((halting (.outOfMemory 0) (fun _ => False) fun _ => True).env
      (fun _ _ => false) 2) m
    failureOf run = some (.outOfMemory 0) ∧ m.Regains run ∧
      Halts (fun _ _ => false) (fun _ => False) (fun _ => True) (Raises (.fatal (.outOfMemory 0)))
        halted run := by
  obtain ⟨hinvocations, -⟩ :=
    failures_unseen_exceptions_arrive.2 starving intact_starving (fun _ _ => false) 2
  obtain ⟨hregains, hfailures, -⟩ := hinvocations (.call (.cell ⟨0, 0⟩) .undefined #[])
  have hfails : failureOf ((Invocation.call (.cell ⟨0, 0⟩) .undefined #[]).run
      (runningEnv (fun _ _ => false) 2) starving) = some (.outOfMemory 0) := by decide +kernel
  have hstops : failureOf ((Invocation.call (.cell ⟨0, 0⟩) .undefined #[]).run
      ((halting (.outOfMemory 0) (fun _ => False) fun _ => True).env (fun _ _ => false) 2) starving) =
      none := by
    rw [halting_everywhere]
    decide +kernel
  refine ⟨starving, .call (.cell ⟨0, 0⟩) .undefined #[], intact_starving, hfails, hregains, ?_⟩
  rcases hfailures (.outOfMemory 0) (fun _ => False) (fun _ => True) (fun _ h => by cases h) with
    hsame | hhalts
  · rw [hsame, hfails] at hstops
    cases hstops
  · exact hhalts

end ScriptMachine
