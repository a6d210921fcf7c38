import ScriptMachine.Machine.Embedding
import ScriptMachine.Proofs.Machine.Safe

/-! # Safe runs

`Runs env m x Q` says that an action `x` leaves a safe machine, however it ends: with a result for
which `Q` holds, by throwing a value that does not dangle, by a failure that is not about a stale
handle, out of fuel, or stopped at a checkpoint where the values still in use do not dangle. It says the
same of the run that is not stopped (`Env.Unpaused`), which goes on where this one is stopped
(`Resumes`). The rules follow the ways actions are put together; what the actions of the machine need is
proved from them, one action at a time. -/

namespace ScriptMachine

open Machine

/-- What is on its way to a handler or to the caller does not dangle. -/
def Machine.Carries (m : Machine) : Unwind → Prop
  | .throw value => m.Holds value
  | .fatal failure => m.Addressable → failure ≠ .staleHandle

/-- How a safe run ends. -/
def Ends {α : Type} (Q : α → Machine → Prop) : EStateM.Result Stop Machine α → Prop
  | .ok a m => Q a m
  | .error (.unwound u) m => m.Carries u
  | .error .exhausted _ => True
  | .error (.paused held) m => ∀ v ∈ held, m.Holds v

/-- What a safe run does in one environment. -/
structure SafeRun {α : Type} (env : Env) (m : Machine) (x : MachineM α) (Q : α → Machine → Prop) :
    Prop where
  safe : (leaves (x env m)).Safe
  grows : m.Grows (leaves (x env m))
  ends : Ends Q (x env m)

/-- **The second run goes on** where the first one is stopped, and is the same otherwise. -/
def Resumes {α : Type} (pause : Machine → List Value → Bool) (r r' : EStateM.Result Stop Machine α) :
    Prop :=
  r' = r ∨ ∃ held k, r = .error (.paused held) k ∧ pause k held = true ∧ k.Grows (leaves r')

/-- **The second environment stops nowhere**, and is like the first one otherwise. -/
structure Env.Unpaused (env env' : Env) : Prop where
  fuel : env'.fuel = env.fuel
  pause : ∀ m held, env'.pause m held = false
  host : ∀ {m : Machine} (function : HostId) (call : HostCall), m.Safe →
    SafeRun env' m (ScriptMachine.reenter (.host function call)) (fun _ _ => False) ∧
      Resumes env.pause (env.reenter (.host function call) m) (env'.reenter (.host function call) m)
  frame : ∀ {m : Machine}, m.Safe → SafeRun env' m (ScriptMachine.reenter .frame) (fun v m' => m'.Holds v) ∧
    Resumes env.pause (env.reenter .frame m) (env'.reenter .frame m)

/-- **A safe run**, which is as safe where nothing stops it. -/
structure Runs {α : Type} (env : Env) (m : Machine) (x : MachineM α) (Q : α → Machine → Prop) : Prop
    extends SafeRun env m x Q where
  resumes : ∀ {env'}, env.Unpaused env' → SafeRun env' m x Q ∧ Resumes env.pause (x env m) (x env' m)

section

variable {α β : Type} {env env' : Env} {m m' : Machine} {x : MachineM α} {f : α → MachineM β}
  {Q Q' : α → Machine → Prop} {R : β → Machine → Prop} {v : Value}

namespace SafeRun

theorem monoSafe (hx : SafeRun env m x Q) (hQ : ∀ a m', m'.Safe → Q a m' → Q' a m') :
    SafeRun env m x Q' := by
  refine ⟨hx.safe, hx.grows, ?_⟩
  have hends := hx.ends
  have hsafe := hx.safe
  cases hr : x env m with
  | ok a m' =>
    rw [hr] at hends hsafe
    exact hQ a m' hsafe hends
  | error stop m' =>
    rw [hr] at hends
    cases stop <;> exact hends

theorem bind (hx : SafeRun env m x Q)
    (hf : ∀ a m', m'.Safe → m.Grows m' → Q a m' → SafeRun env m' (f a) R) :
    SafeRun env m (x >>= f) R := by
  have hsafe := hx.safe
  have hgrows := hx.grows
  have hends := hx.ends
  cases hr : x env m with
  | ok a m' =>
    rw [hr] at hsafe hgrows hends
    have hnext := hf a m' hsafe hgrows hends
    have heq : (x >>= f) env m = f a env m' := by
      simp only [Bind.bind, ReaderT.bind, EStateM.bind, hr]
    exact ⟨by rw [heq]; exact hnext.safe, by rw [heq]; exact hgrows.trans hnext.grows,
      by rw [heq]; exact hnext.ends⟩
  | error stop m' =>
    rw [hr] at hsafe hgrows hends
    have heq : (x >>= f) env m = .error stop m' := by
      simp only [Bind.bind, ReaderT.bind, EStateM.bind, hr]
    refine ⟨by rw [heq]; exact hsafe, by rw [heq]; exact hgrows, ?_⟩
    rw [heq]
    cases stop <;> exact hends

theorem attempt (hx : SafeRun env m x Q) : SafeRun env m (attempt x) fun r m' =>
    match r with
    | .ok a => Q a m'
    | .error u => m'.Carries u := by
  have hsafe := hx.safe
  have hgrows := hx.grows
  have hends := hx.ends
  cases hr : x env m with
  | ok a m' =>
    rw [hr] at hsafe hgrows hends
    have heq : ScriptMachine.attempt x env m = .ok (.ok a) m' := by
      simp only [ScriptMachine.attempt, hr]
    exact ⟨by rw [heq]; exact hsafe, by rw [heq]; exact hgrows, by rw [heq]; exact hends⟩
  | error stop m' =>
    rw [hr] at hsafe hgrows hends
    cases stop with
    | unwound u =>
      have heq : ScriptMachine.attempt x env m = .ok (.error u) m' := by
        simp only [ScriptMachine.attempt, hr]
      exact ⟨by rw [heq]; exact hsafe, by rw [heq]; exact hgrows, by rw [heq]; exact hends⟩
    | exhausted =>
      have heq : ScriptMachine.attempt x env m = .error .exhausted m' := by
        simp only [ScriptMachine.attempt, hr]
      exact ⟨by rw [heq]; exact hsafe, by rw [heq]; exact hgrows, by rw [heq]; exact hends⟩
    | paused held =>
      have heq : ScriptMachine.attempt x env m = .error (.paused held) m' := by
        simp only [ScriptMachine.attempt, hr]
      exact ⟨by rw [heq]; exact hsafe, by rw [heq]; exact hgrows, by rw [heq]; exact hends⟩

end SafeRun

namespace Resumes

variable {pause : Machine → List Value → Bool}

theorem refl (r : EStateM.Result Stop Machine α) : Resumes pause r r := .inl rfl

/-- What follows goes on as well; it must not lose anything when only the second run gets there. -/
theorem bind (hx : SafeRun env' m x Q) (hr : Resumes pause (x env m) (x env' m))
    (hf : ∀ a m', m'.Safe → m.Grows m' → Q a m' →
      SafeRun env' m' (f a) R ∧ Resumes pause (f a env m') (f a env' m')) :
    Resumes pause ((x >>= f) env m) ((x >>= f) env' m) := by
  have hsafe := hx.safe
  have hgrows := hx.grows
  have hends := hx.ends
  simp only [Bind.bind, ReaderT.bind, EStateM.bind]
  cases hx' : x env' m with
  | ok a m' =>
    rw [hx'] at hr hsafe hgrows hends
    obtain ⟨hrun, hnext⟩ := hf a m' hsafe hgrows hends
    rcases hr with hr | ⟨held, k, hr, hp, hk⟩
    · rw [← hr]
      exact hnext
    · rw [hr]
      exact .inr ⟨held, k, rfl, hp, hk.trans hrun.grows⟩
  | error stop m' =>
    rw [hx'] at hr
    rcases hr with hr | ⟨held, k, hr, hp, hk⟩
    · rw [← hr]
      exact refl _
    · rw [hr]
      exact .inr ⟨held, k, rfl, hp, hk⟩

theorem attempt (hr : Resumes pause (x env m) (x env' m)) :
    Resumes pause (ScriptMachine.attempt x env m) (ScriptMachine.attempt x env' m) := by
  unfold ScriptMachine.attempt
  rcases hr with hr | ⟨held, k, hr, hp, hk⟩
  · rw [hr]
    exact refl _
  · rw [hr]
    refine .inr ⟨held, k, rfl, hp, ?_⟩
    cases hx' : x env' m with
    | ok a m' =>
      rw [hx'] at hk
      exact hk
    | error stop m' =>
      rw [hx'] at hk
      cases stop <;> exact hk

end Resumes

end

namespace Runs

variable {α β : Type} {env : Env} {m m' : Machine} {x : MachineM α} {f : α → MachineM β}
  {Q Q' : α → Machine → Prop} {R : β → Machine → Prop} {v : Value}

/-! ### Rules -/

/-- What does the same in all environments. -/
theorem anywhere (hx : ∀ env, SafeRun env m x Q) (heq : ∀ env env', x env' m = x env m) :
    Runs env m x Q :=
  ⟨hx env, fun _ => ⟨hx _, .inl (heq _ _)⟩⟩

/-- What is known to have a result. -/
theorem known {a : α} (heq : ∀ env, x env m = .ok a m') (hs : m'.Safe) (hg : m.Grows m') (hQ : Q a m') :
    Runs env m x Q := by
  refine anywhere (fun env => ⟨?_, ?_, ?_⟩) fun env env' => by rw [heq, heq]
  all_goals rw [heq]
  · exact hs
  · exact hg
  · exact hQ

theorem monoSafe (hx : Runs env m x Q) (hQ : ∀ a m', m'.Safe → Q a m' → Q' a m') :
    Runs env m x Q' :=
  ⟨hx.toSafeRun.monoSafe hQ, fun h => ⟨(hx.resumes h).1.monoSafe hQ, (hx.resumes h).2⟩⟩

theorem mono (hx : Runs env m x Q) (hQ : ∀ a m', Q a m' → Q' a m') : Runs env m x Q' :=
  hx.monoSafe fun a m' _ => hQ a m'

theorem ret (hs : m.Safe) {a : α} (hQ : Q a m) : Runs env m (pure a) Q :=
  anywhere (fun _ => ⟨hs, .refl m, hQ⟩) fun _ _ => rfl

theorem unwind (hs : m.Safe) {u : Unwind} (hu : m.Carries u) : Runs env m (unwind u) Q :=
  anywhere (fun _ => ⟨hs, .refl m, hu⟩) fun _ _ => rfl

theorem fatal (hs : m.Safe) {failure : Failure} (hf : m.Addressable → failure ≠ .staleHandle) :
    Runs env m (fatal failure) Q := unwind hs hf

/-- What is known not to end. -/
theorem never (hs : m.Safe) (heq : ∀ env, x env m = .error .exhausted m) : Runs env m x Q := by
  refine anywhere (fun env => ⟨?_, ?_, ?_⟩) fun env env' => by rw [heq, heq]
  all_goals rw [heq]
  · exact hs
  · exact .refl m
  · trivial

theorem exhausted (hs : m.Safe) : Runs env m (throw .exhausted) Q := never hs fun _ => rfl

/-- What is searched for is found, or the search never ends. -/
theorem settled (hs : m.Safe) {found : Option α} (hQ : ∀ a, found = some a → Q a m) :
    Runs env m (settled found) Q := by
  cases found with
  | some a => exact ret hs (hQ a rfl)
  | none => exact exhausted hs

theorem ite {c : Prop} [Decidable c] {y : MachineM α} (ht : c → Runs env m x Q)
    (hf : ¬c → Runs env m y Q) : Runs env m (if c then x else y) Q := by
  split
  case isTrue h => exact ht h
  case isFalse h => exact hf h

/-- **One action after the other.** -/
theorem bind (hx : Runs env m x Q)
    (hf : ∀ a m', m'.Safe → m.Grows m' → Q a m' → Runs env m' (f a) R) :
    Runs env m (x >>= f) R :=
  ⟨hx.toSafeRun.bind fun a m' hs hg hq => (hf a m' hs hg hq).toSafeRun, fun h =>
    ⟨(hx.resumes h).1.bind fun a m' hs hg hq => ((hf a m' hs hg hq).resumes h).1,
      .bind (hx.resumes h).1 (hx.resumes h).2 fun a m' hs hg hq => (hf a m' hs hg hq).resumes h⟩⟩

theorem look {f : Machine → MachineM β} (hf : Runs env m (f m) R) : Runs env m (get >>= f) R :=
  ⟨⟨hf.safe, hf.grows, hf.ends⟩, fun h =>
    ⟨⟨(hf.resumes h).1.safe, (hf.resumes h).1.grows, (hf.resumes h).1.ends⟩, (hf.resumes h).2⟩⟩

/-- Of the environment, only the fuel is asked for. -/
theorem ask {f : Env → MachineM β} (hfuel : ∀ env' : Env, env'.fuel = env.fuel → f env' = f env)
    (hf : Runs env m (f env) R) : Runs env m (read >>= f) R := by
  refine ⟨⟨hf.safe, hf.grows, hf.ends⟩, fun {env'} h => ?_⟩
  have heq : (read >>= f : MachineM β) env' m = f env env' m := by
    rw [← hfuel env' h.fuel]
    rfl
  obtain ⟨⟨hsafe, hgrows, hends⟩, hresumes⟩ := hf.resumes h
  refine ⟨⟨?_, ?_, ?_⟩, ?_⟩
  all_goals rw [heq]
  · exact hsafe
  · exact hgrows
  · exact hends
  · exact hresumes

theorem step {g : Machine → α × Machine} (hs : (g m).2.Safe) (hg : m.Grows (g m).2)
    (hQ : Q (g m).1 (g m).2) : Runs env m (modifyGet g) Q :=
  anywhere (fun _ => ⟨hs, hg, hQ⟩) fun _ _ => rfl

theorem stepTo {g : Machine → α × Machine} {a : α} (h : g m = (a, m')) (hs : m'.Safe)
    (hg : m.Grows m') (hQ : Q a m') : Runs env m (modifyGet g) Q := by
  refine step ?_ ?_ ?_
  · rw [h]
    exact hs
  · rw [h]
    exact hg
  · rw [h]
    exact hQ

theorem update {g : Machine → Machine} {Q : PUnit → Machine → Prop} (hs : (g m).Safe)
    (hg : m.Grows (g m)) (hQ : Q ⟨⟩ (g m)) : Runs env m (modify g) Q :=
  anywhere (fun _ => ⟨hs, hg, hQ⟩) fun _ _ => rfl

theorem attempt (hx : Runs env m x Q) : Runs env m (attempt x) fun r m' =>
    match r with
    | .ok a => Q a m'
    | .error u => m'.Carries u :=
  ⟨hx.toSafeRun.attempt, fun h => ⟨(hx.resumes h).1.attempt, (hx.resumes h).2.attempt⟩⟩

/-- Going on from a checkpoint, where the values in use must not dangle. -/
theorem pass (hs : m.Safe) {held : List Value} (hv : ∀ v ∈ held, m.Holds v)
    {f : Unit → MachineM β} (hf : Runs env m (f ()) R) :
    Runs env m (checkpoint held >>= f) R := by
  have hstop (env : Env) : SafeRun env m (checkpoint held) fun _ m' => m' = m := by
    cases hp : env.pause m held with
    | false =>
      have heq : checkpoint held env m = .ok () m := by simp [checkpoint, hp]
      exact ⟨by rw [heq]; exact hs, by rw [heq]; exact .refl m, by rw [heq]; exact rfl⟩
    | true =>
      have heq : checkpoint held env m = .error (.paused held) m := by simp [checkpoint, hp]
      exact ⟨by rw [heq]; exact hs, by rw [heq]; exact .refl m, by rw [heq]; exact hv⟩
  have hpass : Runs env m (checkpoint held) fun _ m' => m' = m := by
    refine ⟨hstop env, fun {env'} h => ⟨hstop env', ?_⟩⟩
    have heq' : checkpoint held env' m = .ok () m := by simp [checkpoint, h.pause]
    rw [heq']
    cases hp : env.pause m held with
    | false =>
      have heq : checkpoint held env m = .ok () m := by simp [checkpoint, hp]
      exact .inl heq.symm
    | true =>
      have heq : checkpoint held env m = .error (.paused held) m := by simp [checkpoint, hp]
      exact .inr ⟨held, m, heq, hp, .refl m⟩
  refine bind hpass ?_
  intro _ m' _ _ hm'
  rw [hm']
  exact hf

end Runs

end ScriptMachine
