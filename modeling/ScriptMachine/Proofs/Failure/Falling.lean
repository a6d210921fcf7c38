import ScriptMachine.Proofs.Failure.Following

/-! # Falling

A probe can stop a machine for good: stopping is running out of fuel, which nothing in the machine can catch
(`haltIf`). When one of two machines has stopped where something set out to unwind, the other goes on from
there, and falls if all that it does is to wind (`FallsTo`). -/

namespace ScriptMachine

open Machine

/-- The failure that a reply tells of. -/
def HostQuery.failure? : (query : HostQuery) → query.Reply → Option Failure
  | .call .., reply | .construct .., reply | .newString _, reply | .newArray _, reply
  | .newObject, reply | .newError .., reply =>
    match (reply : Except Failure Value) with
    | .ok _ => none
    | .error failure => some failure
  | .setProperty .., reply | .defineProperty .., reply | .setPrototype .., reply
  | .setGlobal .., reply =>
    match (reply : Except Failure Unit) with
    | .ok _ => none
    | .error failure => some failure
  | .stub .., reply =>
    match (reply : Except Failure StubReturn) with
    | .ok _ => none
    | .error failure => some failure
  | _, _ => none

/-! ### Stopping -/

section
variable (c : Machine → Prop)

open Classical in
/-- Stops in the machines of a kind. -/
noncomputable def haltIf : MachineM Unit := fun _ m =>
  if c m then .error .exhausted m else .ok () m

theorem haltIf_stops {m : Machine} (h : c m) (env : Env) : haltIf c env m = .error .exhausted m := if_pos h

theorem haltIf_goes {m : Machine} (h : ¬c m) (env : Env) : haltIf c env m = .ok () m := if_neg h

/-- Stops after an unwinding, in the machines of a kind. -/
noncomputable def haltAt (u : Unwind) {α : Type} (r : Except Unwind α) : MachineM (Except Unwind α) := do
  haltIf fun m => r = .error u ∧ c m
  return r

/-- Answers a question, and stops if the answer tells of the failure, in the machines of a kind. -/
noncomputable def answerOrHalt (failure : Failure) (query : HostQuery) : MachineM query.Reply := do
  let reply ← answer query
  haltIf fun m => query.failure? reply = some failure ∧ c m
  return reply

end

/-! ### Falling -/

/-- What a run comes to that falls from a machine: all that it does is to wind, and it ends as `E` says,
unless the listeners do not end. -/
def FallsTo {α : Type} (pause : Machine → List Value → Bool) (may : HostQuery → Prop)
    (E : Except Unwind α → Prop) (s : Machine) : EStateM.Result Stop Machine α → Prop
  | .ok a m' => E (.ok a) ∧ Winds pause may s m'
  | .error (.unwound u) m' => E (.error u) ∧ Winds pause may s m'
  | .error stop m' => Dwells pause may s stop m'

/-- **A run of a machine that has stopped**, and the run of the other one, which falls from there. -/
def Halts {α : Type} (pause : Machine → List Value → Bool) (may : HostQuery → Prop)
    (point : Machine → Prop) (E : Except Unwind α → Prop) (h r : EStateM.Result Stop Machine α) : Prop :=
  ∃ s, h = .error .exhausted s ∧ point s ∧ FallsTo pause may E s r

/-- A run that has stopped in a machine of a kind. -/
def Lands {α : Type} (lands : Machine → Prop) (r : EStateM.Result Stop Machine α) : Prop :=
  ∃ m, r = .error .exhausted m ∧ lands m

/-- A run that lands or falls. -/
def Comes {α : Type} (pause : Machine → List Value → Bool) (may : HostQuery → Prop)
    (lands : Machine → Prop) (E : Except Unwind α → Prop) (s : Machine)
    (r : EStateM.Result Stop Machine α) : Prop :=
  Lands lands r ∨ FallsTo pause may E s r

/-- A run ends by unwinding. -/
def Raises {α : Type} (u : Unwind) (r : Except Unwind α) : Prop := r = .error u

variable {pause : Machine → List Value → Bool} {may : HostQuery → Prop} {point : Machine → Prop}
  {u : Unwind} {α β : Type}
  {x x' : MachineM α} {g : α → MachineM β} {s m : Machine} {fuel : Nat} {env : Env}

namespace FallsTo

variable {E E' : Except Unwind α → Prop} {F : Except Unwind β → Prop}

theorem bind (hx : FallsTo pause may E s (x env m))
    (hok : ∀ a m', E (.ok a) → Winds pause may s m' → FallsTo pause may F s (g a env m'))
    (herror : ∀ u, E (.error u) → F (.error u)) : FallsTo pause may F s ((x >>= g) env m) := by
  cases hr : x env m with
  | ok a m' =>
    rw [hr] at hx
    rw [bind_eq_of_ok hr]
    exact hok a m' hx.1 hx.2
  | error stop m' =>
    rw [hr] at hx
    rw [bind_eq_of_error hr]
    cases stop with
    | unwound u => exact ⟨herror u hx.1, hx.2⟩
    | exhausted | paused _ => exact hx

/-- What unwinds passes whatever does not catch it. -/
theorem passes (hx : FallsTo pause may (Raises u) s (x env m)) :
    FallsTo pause may (Raises u) s ((x >>= g) env m) :=
  hx.bind (fun _ _ h => by cases h) fun u h => by
    cases h
    rfl

end FallsTo

section
variable {lands : Machine → Prop} {E : Except Unwind β → Prop}

theorem not_lands {r : EStateM.Result Stop Machine α} : ¬Lands (fun _ => False) r := fun ⟨_, _, h⟩ => h

theorem Lands.bind (hr : Lands lands (x env m)) : Lands lands ((x >>= g) env m) := by
  obtain ⟨s, hs, hlands⟩ := hr
  exact ⟨s, bind_eq_of_error hs, hlands⟩

theorem Lands.caught {k : Except Unwind α → MachineM β} (hr : Lands lands (x env m)) :
    Lands lands ((attempt x >>= k) env m) := by
  obtain ⟨s, hs, hlands⟩ := hr
  exact ⟨s, bind_eq_of_error (attempt_eq_of_stopped hs fun _ h => by cases h), hlands⟩

namespace Comes

/-- After what only winds, the rest of the run decides. -/
theorem after {p : Probe} (hlocal : Local x) (hx : Winding pause x) (hw : Winds pause may s m)
    (hg : ∀ a m', Winds pause may s m' → Comes pause may lands E s (g a (p.env pause fuel) m')) :
    Comes pause may lands E s ((x >>= g) (p.env pause fuel) m) := by
  have hx := hx may fuel s m hw
  have henv : x (p.env pause fuel) m = x (runningEnv pause fuel) m := congrFun (hlocal _ _) m
  cases hr : x (runningEnv pause fuel) m with
  | ok a m' =>
    rw [hr] at hx
    rw [bind_eq_of_ok (henv.trans hr)]
    exact hg a m' hx
  | error stop m' =>
    rw [hr] at hx
    rw [bind_eq_of_error (henv.trans hr)]
    cases stop with
    | unwound u => exact hx.elim
    | exhausted | paused _ => exact .inr hx

/-- What unwinds is caught, and then the rest of the run decides. -/
theorem caught {k : Except Unwind α → MachineM β} (hx : Comes pause may lands (Raises u) s (x env m))
    (hk : ∀ m', Winds pause may s m' → Comes pause may lands E s (k (.error u) env m')) :
    Comes pause may lands E s ((attempt x >>= k) env m) := by
  rcases hx with hland | hx
  · exact .inl hland.caught
  cases hr : x env m with
  | ok a m' =>
    rw [hr] at hx
    cases hx.1
  | error stop m' =>
    rw [hr] at hx
    cases stop with
    | unwound u =>
      obtain ⟨⟨⟩, hw⟩ := hx
      rw [bind_eq_of_ok (attempt_eq_of_unwound hr)]
      exact hk m' hw
    | exhausted | paused _ =>
      rw [bind_eq_of_error (attempt_eq_of_stopped hr fun _ h => by cases h)]
      exact .inr hx

end Comes

end

/-! ### Comparing with a machine that stops -/

/-- **Comparing with a machine that stops** where something sets out to unwind: the machine that follows
falls from there. It may stop itself, in machines where it lands. -/
def haltWatch (pause : Machine → List Value → Bool) (may : HostQuery → Prop)
    (point lands : Machine → Prop) (u : Unwind) (probe other : Probe) : Watch where
  pause
  probe
  other
  Off h r := Lands lands r ∨ Halts pause may point (Raises u) h r

section
variable {lands c : Machine → Prop}

theorem Halts.caught {E : Except Unwind β → Prop} {k k' : Except Unwind α → MachineM β} {env' : Env}
    (hr : Halts pause may point (Raises u) (x' env' m) (x env m))
    (hk : ∀ s m', point s → Winds pause may s m' → Comes pause may lands E s (k (.error u) env m')) :
    Lands lands ((attempt x >>= k) env m) ∨
      Halts pause may point E ((attempt x' >>= k') env' m) ((attempt x >>= k) env m) := by
  obtain ⟨s, hs, hpoint, hx⟩ := hr
  exact (Comes.caught (.inr hx) (hk s · hpoint)).imp id fun hfalls =>
    ⟨s, bind_eq_of_error (attempt_eq_of_stopped hs fun _ h => by cases h), hpoint, hfalls⟩

/-- The leading machine stops, or both go on. -/
theorem Watch.agree_haltIf {T : Watch}
    {R : EStateM.Result Stop Machine α → EStateM.Result Stop Machine α → Prop}
    (hstop : c m → R (.error .exhausted m) (x (T.other.env T.pause fuel) m))
    (hgo : T.AgreeOr R fuel m x' x) : T.AgreeOr R fuel m (haltIf c >>= fun _ => x') x := by
  unfold AgreeOr
  by_cases hc : c m
  · rw [bind_eq_of_error (haltIf_stops c hc _)]
    exact .inr (hstop hc)
  · rw [bind_eq_of_ok (haltIf_goes c hc _)]
    exact hgo

/-- The machine that follows stops, or both go on. -/
theorem Watch.agree_other_haltIf {T : Watch}
    {R : EStateM.Result Stop Machine α → EStateM.Result Stop Machine α → Prop}
    (hstop : c m → R (x' (T.probe.env T.pause fuel) m) (.error .exhausted m))
    (hgo : T.AgreeOr R fuel m x' x) : T.AgreeOr R fuel m x' (haltIf c >>= fun _ => x) := by
  unfold AgreeOr
  by_cases hc : c m
  · rw [bind_eq_of_error (haltIf_stops c hc _)]
    exact .inr (hstop hc)
  · rw [bind_eq_of_ok (haltIf_goes c hc _)]
    exact hgo

end

section
variable {lands : Machine → Prop} {probe other : Probe}
  (hends : ∀ {α : Type} (r : Except Unwind α), probe.ends r = haltAt point u r)
  (hother : ∀ {α : Type} (r : Except Unwind α), other.ends r = pure r)
include hends hother

/-- After the end of an action the leading machine stops, or both go on. -/
theorem haltWatch_ends {k' k : Except Unwind α → MachineM β}
    (hx : (haltWatch pause may point lands u probe other).Agree fuel m x' x)
    (hk : ∀ r m, (haltWatch pause may point lands u probe other).Agree fuel m (k' r) (k r))
    (hfalls : ∀ s m, point s → Winds pause may s m →
      Comes pause may lands (Raises u) s (k (.error u) (other.env pause fuel) m)) :
    (haltWatch pause may point lands u probe other).Agree fuel m
      (attempt x' >>= fun r => probe.ends r >>= k') (attempt x >>= fun r => other.ends r >>= k) := by
  simp only [hends, hother, haltAt, bind_assoc, pure_bind]
  rcases hx with heq | hland | hhalts
  · refine Watch.agree_attempt heq fun r m' => Watch.agree_haltIf ?_ (hk r m')
    rintro ⟨rfl, hpoint⟩
    exact (hfalls m' m' hpoint (.refl m')).imp id fun hf => ⟨m', rfl, hpoint, hf⟩
  · exact .inr (.inl hland.caught)
  · exact .inr (hhalts.caught hfalls)

/-- **Comparing with a machine that stops is sound**, if loop and tier code go on in the same way in both
machines, and fall or land after what unwinds. -/
theorem haltWatch_sound
    (hsettle : ∀ entryDepth mark flow fuel m, (haltWatch pause may point lands u probe other).Agree fuel m
      (probe.settle entryDepth mark flow) (other.settle entryDepth mark flow))
    (hoperation : ∀ code index flow fuel m, (haltWatch pause may point lands u probe other).Agree fuel m
      (probe.settleOperation code index flow) (other.settleOperation code index flow))
    (hfalls : ∀ entryDepth mark fuel s m, point s → Winds pause may s m →
      Comes pause may lands (Raises u) s
        (other.settle entryDepth mark (.error u) (other.env pause fuel) m))
    (htier : ∀ code index fuel s m, point s → Winds pause may s m →
      Comes pause may lands (Raises u) s
        (other.settleOperation code index (.error u) (other.env pause fuel) m)) :
    (haltWatch pause may point lands u probe other).Sound where
  bind := by
    rintro _ _ _ _ _ _ _ _ (hland | ⟨s, hs, hpoint, hx⟩)
    · exact .inl hland.bind
    · exact .inr ⟨s, bind_eq_of_error hs, hpoint, hx.passes⟩
  cleans := by
    rintro _ _ _ _ _ _ _ _ _ (hland | hhalts) hc hw hk' hk
    · exact .inr (.inl hland.caught)
    · refine .inr (hhalts.caught fun s m' hpoint hwinds => ?_)
      rw [hk]
      exact .after hc hw hwinds fun _ _ hw' => .inr ⟨rfl, hw'⟩
  turn entryDepth mark fuel m hx := haltWatch_ends hends hother hx
    (fun r m' => hsettle entryDepth mark r fuel m') (hfalls entryDepth mark fuel)
  tierTurn code index fuel m hx := haltWatch_ends hends hother hx
    (fun r m' => hoperation code index r fuel m') (htier code index fuel)
  entry hlocal hc hw hk' hk hok := by
    refine haltWatch_ends hends hother (Watch.agree_same hlocal) (fun r m' => ?_)
      fun s m' hpoint hwinds => ?_
    · cases r with
      | ok a => exact hok a m'
      | error w =>
        rw [hk', hk]
        exact Watch.agree_same (hc.bind fun _ => .unwind w)
    · rw [hk]
      exact .after hc hw hwinds fun _ _ hw' => .inr ⟨rfl, hw'⟩

end

/-! ### Questions of host functions -/

/-- The reply tells of the failure. -/
def HostQuery.Tells (failure : Failure) (query : HostQuery) (r : Except Unwind query.Reply) : Prop :=
  ∃ reply, r = .ok reply ∧ query.failure? reply = some failure

/-- Both machines are told the same, or the leading one has stopped and the other lands or is told of what
unwinds. -/
theorem answer_agrees {lands : Machine → Prop} {probe other : Probe}
    (hT : (haltWatch pause may point lands u probe other).Sound)
    (hn : (haltWatch pause may point lands u probe other).Nested fuel) (query : HostQuery) (m : Machine) :
    (haltWatch pause may point lands u probe other).AgreeOr
      (fun h r => Lands lands r ∨ Halts pause may point (query.Tells u.failure) h r) fuel m
      (answer query) (answer query) := by
  have tried {α : Type} {E : Except Unwind (Except Failure α) → Prop} {x : MachineM α}
      (hx : (haltWatch pause may point lands u probe other).Follows x x) (hE : E (.ok (.error u.failure))) :
      (haltWatch pause may point lands u probe other).AgreeOr
        (fun h r => Lands lands r ∨ Halts pause may point E h r) fuel m (tryCall x) (tryCall x) := by
    rcases hx fuel m hn with heq | hland | hhalts
    · refine Watch.agree_attempt heq fun r m' => ?_
      cases r <;> exact Watch.agree_same (.ret _)
    · exact .inr (.inl hland.caught)
    · exact .inr (hhalts.caught fun _ _ _ hw => .inr ⟨hE, hw⟩)
  cases query with
  | call function this args => exact tried (hT.call _ _ _) ⟨_, rfl, rfl⟩
  | construct function args => exact tried (hT.construct _ _) ⟨_, rfl, rfl⟩
  | stub routine words =>
    rw [answer_stub]
    refine Watch.agree_bind rfl fun m₁ m₂ _ => Watch.agree_bind rfl fun _ m₃ _ => ?_
    rcases hT.runRoutine _ routine fuel m₃ hn with heq | hland | hhalts
    · refine Watch.agree_attempt heq fun r m' => Watch.agree_same ?_
      cases r with
      | ok answer => exact .bind (.change _) fun _ => .ite (.bind (.step _) fun _ => .ret _) (.ret _)
      | error u => exact .bind (.change _) fun _ => .bind (.change _) fun _ => .ret _
    · exact .inr (.inl hland.caught)
    · refine .inr (hhalts.caught fun _ _ _ hw => .inr ⟨⟨_, rfl, rfl⟩, ?_⟩)
      exact (hw.stubs _ _).stubs _ _
  | _ => exact Watch.agree_same (.answer rfl)

end ScriptMachine
