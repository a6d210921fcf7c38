import ScriptMachine.Proofs.Failure.Falling

/-! # Exceptions arrive

Three machines are compared. One stops for good where a value is thrown (`throwing`). One stops where that
exception arrives (`landing`): at a handler that is about to be entered with it, or at a host function that
is told of it. And there is the machine itself. When the first one has stopped, the second one stops as
well, in a machine to which nothing but winding leads; or the machine does nothing but wind until the
invocation reports the exception (`exceptions_arrive`). In between an exception is never anything else. -/

namespace ScriptMachine

open Machine

/-! ### The machines that stop -/

/-- The machine that stops where a value is thrown, in the machines of a kind. -/
noncomputable def throwing (v : Value) (point : Machine → Prop) : Probe where
  ends := haltAt point (.throw v)
  enter := enterHandler
  answer query _ := answer query
  minds _ _ _ := True

/-- No question may be asked. -/
def HostQuery.Barred (_ : HostQuery) : Prop := False

/-- Winding leads to the machine, from one of a kind. -/
def Reaches (pause : Machine → List Value → Bool) (point : Machine → Prop) (m : Machine) : Prop :=
  ∃ s, point s ∧ Winds pause HostQuery.Barred s m

/-- Delivers an exception to the handler of the running instruction, unless that is where the machine
stops. -/
noncomputable def enterOrHalt (v : Value) (c : Machine → Prop) (value : Value) :
    MachineM (Option UInt32) := do
  haltIf fun m => value = v ∧ m.findHandler.1.isSome = true ∧ c m
  enterHandler value

/-- **The machine that stops where an exception arrives**, in the machines of a kind. -/
noncomputable def landing (v : Value) (c : Machine → Prop) : Probe where
  ends r := pure r
  enter := enterOrHalt v c
  answer query _ := answerOrHalt c (.exception v) query
  minds _ _ _ := True

/-- **The exception arrives** in the machine. -/
inductive Arrives (pause : Machine → List Value → Bool) (v : Value) (c : Machine → Prop) (m : Machine) :
    Prop
  /-- The running instruction has a handler. -/
  | handler : c m → m.findHandler.1.isSome = true → Arrives pause v c m
  /-- A host function asked something, and is told of the exception. -/
  | host {query : HostQuery} {reply : query.Reply} {asked : Machine} {fuel : Nat} : c m →
      answer query ((landing v c).env pause fuel) asked = .ok reply m →
      query.failure? reply = some (.exception v) → Arrives pause v c m

/-- Comparing the machine that stops where a value is thrown with the one that stops where it arrives. -/
noncomputable def throwingWatch (pause : Machine → List Value → Bool) (v : Value)
    (point : Machine → Prop) : Watch :=
  haltWatch pause HostQuery.Barred point (Arrives pause v (Reaches pause point)) (.throw v) (throwing v point)
    (landing v (Reaches pause point))

/-- Comparing the machine with the one that stops where an exception arrives. -/
noncomputable def landingWatch (pause : Machine → List Value → Bool) (v : Value) (c : Machine → Prop) :
    Watch where
  pause
  probe := landing v c
  other := .plain
  Off l _ := Lands (Arrives pause v c) l

variable {pause : Machine → List Value → Bool} {v : Value} {point c : Machine → Prop} {α β : Type}
  {x x' : MachineM α} {g g' : α → MachineM β} {s m : Machine} {fuel : Nat}

/-! ### Handlers -/

theorem findHandler_of_none (h : m.findHandler.1 = none) : m.findHandler.2 = m := by
  unfold findHandler at h ⊢
  split
  · rfl
  · split
    · rfl
    · split
      · rfl
      · simp_all

theorem enterHandler_of_none (h : m.findHandler.1 = none) (v : Value) (env : Env) :
    enterHandler v env m = .ok none m := by
  have hm := findHandler_of_none h
  unfold enterHandler
  rw [modifyGet_run]
  rcases hfound : m.findHandler with ⟨target, m'⟩
  rw [hfound] at h hm
  subst h hm
  rfl

/-- An action lands, or does what another one does. -/
def LandsOr (pause : Machine → List Value → Bool) (v : Value) (c : Machine → Prop)
    (x' x : MachineM α) : Prop :=
  ∀ env m, x' env m = x env m ∨ Lands (Arrives pause v c) (x' env m)

namespace LandsOr

theorem refl (x : MachineM α) : LandsOr pause v c x x := fun _ _ => .inl rfl

theorem bind (hx : LandsOr pause v c x' x) (hg : ∀ a, LandsOr pause v c (g' a) (g a)) :
    LandsOr pause v c (x' >>= g') (x >>= g) := by
  intro env m
  rcases hx env m with heq | hland
  · cases hr : x env m with
    | ok a m' =>
      rw [bind_eq_of_ok hr, bind_eq_of_ok (heq.trans hr)]
      exact hg a env m'
    | error stop m' =>
      rw [bind_eq_of_error hr, bind_eq_of_error (heq.trans hr)]
      exact .inl rfl
  · exact .inr hland.bind

theorem attempt {k : Except Unwind α → MachineM β} (hx : LandsOr pause v c x' x) :
    LandsOr pause v c (attempt x' >>= k) (attempt x >>= k) := by
  intro env m
  rcases hx env m with heq | hland
  · refine .inl ?_
    have hattempt : ScriptMachine.attempt x' env m = ScriptMachine.attempt x env m := by
      unfold ScriptMachine.attempt
      rw [heq]
    cases hr : ScriptMachine.attempt x env m with
    | ok r m' => rw [bind_eq_of_ok hr, bind_eq_of_ok (hattempt.trans hr)]
    | error stop m' => rw [bind_eq_of_error hr, bind_eq_of_error (hattempt.trans hr)]
  · exact .inr hland.caught

theorem enter (value : Value) : LandsOr pause v c (enterOrHalt v c value) (enterHandler value) := by
  intro env m
  by_cases hc : value = v ∧ m.findHandler.1.isSome = true ∧ c m
  · refine .inr ⟨m, bind_eq_of_error ?_, .handler hc.2.2 hc.2.1⟩
    exact haltIf_stops _ hc env
  · exact .inl (bind_eq_of_ok (haltIf_goes _ hc env))

theorem unwindFrames (entryDepth : Nat) (value : Value) (count : Nat) :
    LandsOr pause v c ((landing v c).unwindFrames entryDepth value count)
      (unwindFrames entryDepth value count) := by
  induction count with
  | zero => exact refl _
  | succ count ih =>
    refine bind (enter value) fun handler => ?_
    cases handler with
    | some target => exact refl _
    | none =>
      refine bind (refl _) fun m => bind (refl _) fun _ => ?_
      split
      · exact refl _
      · exact ih

theorem settle (entryDepth mark : Nat) (flow : Except Unwind Flow) :
    LandsOr pause v c ((landing v c).settle entryDepth mark flow) (settle entryDepth mark flow) := by
  cases flow with
  | ok flow => exact refl _
  | error u =>
    cases u with
    | fatal failure => exact refl _
    | throw value => exact attempt (bind (refl _) fun m => unwindFrames entryDepth value _)

theorem settleOperation (code : Lowered) (index : Nat) (flow : Except Unwind TierStep) :
    LandsOr pause v c ((landing v c).settleOperation code index flow)
      (settleOperation code index flow) := by
  rcases flow with ⟨value | failure⟩ | flow
  · exact bind (enter value) fun _ => refl _
  all_goals exact refl _

end LandsOr

/-! ### Where a value is thrown -/

section
variable (hpoint : point s)
include hpoint

/-- Entering a handler with the value lands, or there is none. -/
theorem enter_comes {E : Except Unwind β → Prop} {g : Option UInt32 → MachineM β} {env : Env}
    (hw : Winds pause HostQuery.Barred s m)
    (hg : Comes pause HostQuery.Barred (Arrives pause v (Reaches pause point)) E s (g none env m)) :
    Comes pause HostQuery.Barred (Arrives pause v (Reaches pause point)) E s
      ((enterOrHalt v (Reaches pause point) v >>= g) env m) := by
  cases hhandler : m.findHandler.1 with
  | some target =>
    have hreaches : Reaches pause point m := ⟨s, hpoint, hw⟩
    refine .inl (Lands.bind ⟨m, bind_eq_of_error (if_pos ⟨rfl, ?_, hreaches⟩), .handler hreaches ?_⟩)
    all_goals rw [hhandler]; rfl
  | none =>
    have hgo : haltIf (fun m => v = v ∧ m.findHandler.1.isSome = true ∧ Reaches pause point m) env m =
        .ok () m := if_neg fun h => by simp [hhandler] at h
    have henter : enterOrHalt v (Reaches pause point) v env m = .ok none m :=
      (bind_eq_of_ok hgo).trans (enterHandler_of_none hhandler v env)
    rw [bind_eq_of_ok henter]
    exact hg

theorem unwindFrames_comes (entryDepth count : Nat) (hw : Winds pause HostQuery.Barred s m) :
    Comes pause HostQuery.Barred (Arrives pause v (Reaches pause point)) (Raises (.throw v)) s
      ((landing v (Reaches pause point)).unwindFrames entryDepth v count
        ((landing v (Reaches pause point)).env pause fuel) m) := by
  induction count generalizing m with
  | zero => exact .inr ⟨rfl, hw⟩
  | succ count ih =>
    refine enter_comes hpoint hw (Comes.after .look .look hw fun m' m₁ hw₁ => ?_)
    refine Comes.after (.discarded .popFrame) (.discarded .popFrame) hw₁ fun _ m₂ hw₂ => ?_
    split
    · exact .inr ⟨rfl, hw₂⟩
    · exact ih hw₂

theorem settle_comes (entryDepth mark : Nat) (hw : Winds pause HostQuery.Barred s m) :
    Comes pause HostQuery.Barred (Arrives pause v (Reaches pause point)) (Raises (.throw v)) s
      ((landing v (Reaches pause point)).settle entryDepth mark (.error (.throw v))
        ((landing v (Reaches pause point)).env pause fuel) m) := by
  have hhandle : Comes pause HostQuery.Barred (Arrives pause v (Reaches pause point)) (Raises (.throw v)) s
      ((landing v (Reaches pause point)).handleUnwind entryDepth (.throw v)
        ((landing v (Reaches pause point)).env pause fuel) m) :=
    unwindFrames_comes hpoint entryDepth _ hw
  refine hhandle.caught fun m' hw' => .inr ⟨rfl, ?_⟩
  exact (hw'.truncate mark).push v

end

theorem throwingWatch_sound : (throwingWatch pause v point).Sound := by
  refine haltWatch_sound (fun _ => rfl) (fun _ => rfl) (fun entryDepth mark flow fuel m => ?_)
    (fun code index flow fuel m => ?_) (fun entryDepth mark fuel s m hpoint hw => settle_comes hpoint _ _ hw)
    fun code index fuel s m hpoint hw => enter_comes hpoint hw (.inr ⟨rfl, hw⟩)
  · rw [Probe.settle_congr (p := throwing v point) (q := .plain) rfl, Probe.settle_plain]
    have hlocal := Local.settle entryDepth mark flow
    rcases LandsOr.settle entryDepth mark flow ((landing v (Reaches pause point)).env pause fuel) m with
      heq | hland
    · exact .inl ((congrFun ((hlocal _ _).trans (hlocal _ _).symm) m).trans heq.symm)
    · exact .inr (.inl hland)
  · rw [Probe.settleOperation_congr (p := throwing v point) (q := .plain) rfl,
      Probe.settleOperation_plain]
    have hlocal := Local.settleOperation code index flow
    rcases LandsOr.settleOperation code index flow ((landing v (Reaches pause point)).env pause fuel) m
      with heq | hland
    · exact .inl ((congrFun ((hlocal _ _).trans (hlocal _ _).symm) m).trans heq.symm)
    · exact .inr (.inl hland)

/-- **Host programs**: what they are told of a thrown value, the one that lands is not. -/
theorem throwing_runHost (program : HostProgram) : (throwingWatch pause v point).Follows
    ((throwing v point).runHost program) ((landing v (Reaches pause point)).runHost program) := by
  intro fuel m hn
  induction program generalizing m with
  | done result => exact Watch.agree_same (.ret _)
  | ask query next ih =>
    have hask : (landing v (Reaches pause point)).runHost (.ask query next) = answer query >>= fun reply =>
        haltIf (fun m => query.failure? reply = some (.exception v) ∧ Reaches pause point m) >>= fun _ =>
          (landing v (Reaches pause point)).runHost (next reply) := by
      change (answerOrHalt (Reaches pause point) (.exception v) query >>= _) = _
      simp only [answerOrHalt, bind_assoc, pure_bind]
    rw [hask]
    rcases answer_agrees throwingWatch_sound hn query m with heq | hland | ⟨s, hs, hpoint, hx⟩
    · refine Watch.agree_bind heq fun reply m' hr => Watch.agree_other_haltIf ?_ (ih reply m')
      exact fun ⟨htold, hreaches⟩ => .inl ⟨m', rfl, .host hreaches hr htold⟩
    · exact .inr (.inl hland.bind)
    · have hhalted := bind_eq_of_error hs (g := fun reply => (throwing v point).runHost (next reply))
      change FallsTo pause HostQuery.Barred _ s
        (answer query ((landing v (Reaches pause point)).env pause fuel) m) at hx
      cases hr : answer query ((landing v (Reaches pause point)).env pause fuel) m with
      | ok reply m' =>
        rw [hr] at hx
        obtain ⟨⟨_, ⟨⟩, htold⟩, hw⟩ := hx
        have hreaches : Reaches pause point m' := ⟨s, hpoint, hw⟩
        refine .inr (.inl ⟨m', (bind_eq_of_ok hr).trans ?_, .host hreaches hr htold⟩)
        exact bind_eq_of_error (haltIf_stops _ ⟨htold, hreaches⟩ _)
      | error stop m' =>
        rw [hr] at hx
        refine .inr (.inr ⟨s, hhalted, hpoint, ?_⟩)
        change FallsTo pause HostQuery.Barred _ s ((_ >>= _ : MachineM (Except Failure Value))
          ((landing v (Reaches pause point)).env pause fuel) m)
        rw [bind_eq_of_error hr]
        cases stop with
        | unwound u =>
          obtain ⟨⟨_, h, _⟩, _⟩ := hx
          cases h
        | exhausted | paused _ => exact hx
  | listen listener next _ ih => exact Watch.agree_bind rfl fun _ m' _ => ih m'

theorem throwingWatch_nested (fuel : Nat) : (throwingWatch pause v point).Nested fuel := by
  refine throwingWatch_sound.nested (fun fuel hn function call m => ?_) fuel
  exact Watch.host_agrees trivial trivial
    (throwingWatch_sound.runHostFunction throwing_runHost function call fuel m hn)

/-! ### Where an exception arrives -/

/-- Whatever is caught, both machines go on in the same way, unless the exception has arrived. -/
theorem landingWatch_attempt {k' k : Except Unwind α → MachineM β}
    (hx : (landingWatch pause v c).Agree fuel m x' x)
    (hk : ∀ r m, (landingWatch pause v c).Agree fuel m (k' r) (k r)) :
    (landingWatch pause v c).Agree fuel m (attempt x' >>= k') (attempt x >>= k) :=
  hx.elim (fun heq => Watch.agree_attempt heq hk) fun hland => .inr hland.caught

/-- An action that lands, or does what another one does, follows it. -/
theorem LandsOr.agrees (hx : LandsOr pause v c x' x) (hlocal : Local x) :
    (landingWatch pause v c).Agree fuel m x' x :=
  (hx ((landing v c).env pause fuel) m).imp
    (·.trans (congrFun ((hlocal _ _).trans (hlocal _ _).symm) m)) id

theorem landingWatch_sound : (landingWatch pause v c).Sound where
  bind hland := hland.bind
  cleans hland _ _ _ _ := .inr hland.caught
  turn entryDepth mark fuel m hx := by
    refine landingWatch_attempt hx fun r m' => ?_
    change (landingWatch pause v c).Agree fuel m' ((landing v c).settle entryDepth mark r)
      (Probe.plain.settle entryDepth mark r)
    rw [Probe.settle_plain]
    exact (LandsOr.settle entryDepth mark r).agrees (.settle _ _ _)
  tierTurn code index fuel m hx := by
    refine landingWatch_attempt hx fun r m' => ?_
    change (landingWatch pause v c).Agree fuel m' ((landing v c).settleOperation code index r)
      (Probe.plain.settleOperation code index r)
    rw [Probe.settleOperation_plain]
    exact (LandsOr.settleOperation code index r).agrees (.settleOperation _ _ _)
  entry := by
    intro _ _ x k' k cleanup fuel m hlocal hc hw hk' hk hok
    refine landingWatch_attempt (Watch.agree_same hlocal) fun r m' => ?_
    cases r with
    | ok a => exact hok a m'
    | error u =>
      change (landingWatch pause v c).Agree fuel m' (k' (.error u)) (k (.error u))
      rw [hk', hk]
      exact Watch.agree_same (hc.bind fun _ => .unwind u)

/-- **The answers to the questions of host functions.** -/
theorem landingWatch_answer (query : HostQuery) :
    (landingWatch pause v c).Follows (answer query) (answer query) := by
  have tried {α : Type} {x : MachineM α} (hx : (landingWatch pause v c).Follows x x) :
      (landingWatch pause v c).Follows (tryCall x) (tryCall x) := fun fuel m hn =>
    landingWatch_attempt (hx fuel m hn) fun r m' => by
      cases r <;> exact Watch.agree_same (.ret _)
  cases query with
  | call function this args => exact tried (landingWatch_sound.call _ _ _)
  | construct function args => exact tried (landingWatch_sound.construct _ _)
  | stub routine words =>
    rw [answer_stub]
    refine .after .look fun m => .after (.change _) fun _ fuel m' hn => ?_
    refine landingWatch_attempt (landingWatch_sound.runRoutine _ routine fuel m' hn) fun r m'' => ?_
    refine Watch.agree_same ?_
    cases r with
    | ok answer => exact .bind (.change _) fun _ => .ite (.bind (.step _) fun _ => .ret _) (.ret _)
    | error u => exact .bind (.change _) fun _ => .bind (.change _) fun _ => .ret _
  | _ => exact .same (.answer rfl)

/-- **Host programs.** -/
theorem landing_runHost (program : HostProgram) : (landingWatch pause v c).Follows
    ((landing v c).runHost program) (Probe.plain.runHost program) := by
  induction program with
  | done result => exact .same (.ret _)
  | ask query next ih =>
    refine landingWatch_sound.after (fun fuel m hn => ?_) ih
    change (landingWatch pause v c).Agree fuel m (answerOrHalt c (.exception v) query) (answer query)
    rw [← bind_pure (answer query)]
    rcases landingWatch_answer query fuel m hn with heq | hland
    · refine Watch.agree_bind heq fun reply m' hr => Watch.agree_haltIf ?_ (.inl rfl)
      exact fun ⟨htold, hc⟩ => ⟨m', rfl, .host hc (heq.trans hr) htold⟩
    · exact .inr hland.bind
  | listen listener next _ ih => exact .after (.change _) fun _ => ih

theorem landingWatch_nested (fuel : Nat) : (landingWatch pause v c).Nested fuel := by
  refine landingWatch_sound.nested (fun fuel hn function call m => ?_) fuel
  exact Watch.host_agrees trivial trivial
    (landingWatch_sound.runHostFunction landing_runHost function call fuel m hn)

/-- **Exceptions arrive.** Whatever a host does to run scripts, in any machine: the machine that stops where a
value is thrown does the same as the machine itself; or the machine that stops where the exception arrives
has stopped there, at a handler or where a host function is told; or the machine does nothing but wind from
where the value was thrown, until the invocation reports it, unless the listeners do not end. -/
theorem exceptions_arrive (v : Value) (point : Machine → Prop) (i : Invocation) (fuel : Nat) (m : Machine) :
    i.run ((throwing v point).env pause fuel) m = i.run (runningEnv pause fuel) m ∨
      Lands (Arrives pause v (Reaches pause point))
        (i.run ((landing v (Reaches pause point)).env pause fuel) m) ∨
      Halts pause HostQuery.Barred point (Raises (.throw v)) (i.run ((throwing v point).env pause fuel) m)
        (i.run (runningEnv pause fuel) m) := by
  have hlanding : (landingWatch pause v (Reaches pause point)).Agree fuel m i.run i.run :=
    landingWatch_sound.invocation i fuel m (landingWatch_nested fuel)
  have hthrowing : (throwingWatch pause v point).Agree fuel m i.run i.run :=
    throwingWatch_sound.invocation i fuel m (throwingWatch_nested fuel)
  rw [← Probe.env_plain]
  rcases hlanding with heq | hland
  · rcases hthrowing with heq' | hland | hhalts
    · exact .inl (heq'.trans heq)
    · exact .inr (.inl hland)
    · exact .inr (.inr (heq ▸ hhalts))
  · exact .inr (.inl hland)

end ScriptMachine
