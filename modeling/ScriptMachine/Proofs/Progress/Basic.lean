import ScriptMachine.Proofs.Machine.Trail

/-! # Runs of intact machines

What a run of any action is, whatever the host functions and listeners do (`Goes`): a trail of steps
that leaves the machine intact. Most actions are calm (`Calmly`): they leave every frame at its
instruction, and they do not fail with a complaint about the code.

Such a complaint can be made up by a host function. A host program is candid (`HostProgram.Candid`) if
it ends with one only after it was given one, and the host is given one only by the routines of the
stub table that need the running frame to be in order. -/

namespace ScriptMachine

/-! ### Complaints about the code -/

/-- The failure is no complaint about the code. -/
def Failure.Innocent (failure : Failure) : Prop := ∀ message, failure ≠ .invalidBytecode message

/-- Nothing that unwinds is a complaint about the code. -/
def Unwind.Innocent (u : Unwind) : Prop := u.failure.Innocent

/-- The routine asks the running frame for its code. -/
def Routine.asksFrame : Routine → Bool
  | .newFunction | .tearOffActivation | .pushScope | .argumentsObject => true
  | _ => false

/-- A reply that the machine may give a host program: a complaint about the code only if a routine
that asks the running frame is called out of place. -/
def HostQuery.Fair : (query : HostQuery) → query.Reply → Prop
  | .call .., reply | .construct .., reply | .newString _, reply | .newArray _, reply
  | .newObject, reply | .newError .., reply =>
    ∀ failure, (reply : Except Failure Value) = .error failure → failure.Innocent
  | .setProperty .., reply | .defineProperty .., reply | .setPrototype .., reply
  | .setGlobal .., reply =>
    ∀ failure, (reply : Except Failure Unit) = .error failure → failure.Innocent
  | .stub routine _, reply => routine.asksFrame = false →
    ∀ failure, (reply : Except Failure StubReturn) = .error failure → failure.Innocent
  | _, _ => True

/-- **A host program that makes up no complaint about the code.** -/
inductive HostProgram.Candid : HostProgram → Prop
  /-- It is done. -/
  | done {result : Except Failure Value} :
      (∀ failure, result = .error failure → failure.Innocent) → Candid (.done result)
  /-- It goes on after a fair reply. -/
  | ask {query : HostQuery} {next : query.Reply → HostProgram} :
      (∀ reply, query.Fair reply → Candid (next reply)) → Candid (.ask query next)
  /-- It goes on after a listener was registered; the result of a listener is not used. -/
  | listen {listener : DebugEvent → HostProgram} {next : HostProgram} :
      Candid next → Candid (.listen listener next)

theorem Unwind.innocent_throw (v : Value) : (Unwind.throw v).Innocent := fun _ h => by cases h

theorem Unwind.innocent_fatal {failure : Failure} (h : failure.Innocent) :
    (Unwind.fatal failure).Innocent := h

/-! ### Frames at their instructions -/

/-- A frame without its scopes. -/
def Frame.spot (f : Frame) : Frame := { f with scope := none, activation := none, scopeDepth := 0 }

namespace Machine

/-- Its host functions make up no complaint about the code. -/
def Candid (m : Machine) : Prop := ∀ entry ∈ m.hosts, ∀ call, (entry.run call).Candid

/-- The frames without their scopes. -/
def spots (m : Machine) : List Frame := m.frames.toList.map Frame.spot

/-- The frames stand where they are said to, and the code and the host functions are the same. -/
structure Stands (m : Machine) (spots : List Frame) (m' : Machine) : Prop where
  spots : m'.spots = spots
  hosts : m'.hosts = m.hosts
  codes : m'.codes.map CodeEntry.fixed = m.codes.map CodeEntry.fixed

/-- **The frames stay where they are.** -/
abbrev Calm (m m' : Machine) : Prop := m.Stands m.spots m'

/-- The frames and the registers stay as they are. -/
structure Quiet (m m' : Machine) : Prop where
  frames : m'.frames = m.frames
  registers : m'.registers = m.registers
  hosts : m'.hosts = m.hosts
  codes : m'.codes.map CodeEntry.fixed = m.codes.map CodeEntry.fixed

/-- A frame has just been pushed. -/
def Entered (m : Machine) : Prop := ∃ f, m.frame? = some f ∧ f.pc = 0

/-- There is a run from one machine to the other. -/
def Arrives (m m' : Machine) : Prop := ∃ writes, Trail m writes m'

end Machine

open Machine

variable {m m' m'' : Machine} {f : Frame} {spots spots' : List Frame}

namespace Machine

theorem Stands.trans (h₁ : m.Stands spots m') (h₂ : m'.Stands spots' m'') : m.Stands spots' m'' :=
  ⟨h₂.spots, h₂.hosts.trans h₁.hosts, h₂.codes.trans h₁.codes⟩

theorem Stands.calm (h₁ : m.Stands spots m') (h₂ : m'.Calm m'') : m.Stands spots m'' := by
  have := h₁.trans h₂
  rwa [h₁.spots] at this

theorem Calm.refl (m : Machine) : m.Calm m := ⟨rfl, rfl, rfl⟩

instance : IsPreorder Machine Calm where
  refl := .refl
  trans _ _ _ := Stands.calm

theorem Stands.candid (h : m.Stands spots m') (hc : m.Candid) : m'.Candid := by
  unfold Candid
  rwa [h.hosts]

theorem Stands.knows (h : m.Stands spots m') {target : CallTarget} (hk : m.Knows target) :
    m'.Knows target := by
  cases target with
  | script code =>
    have hsize := congrArg Array.size h.codes
    simp only [Array.size_map] at hsize
    exact Nat.lt_of_lt_of_eq hk hsize.symm
  | host function =>
    unfold Knows
    rwa [h.hosts]

theorem Stands.code? (h : m.Stands spots m') {code : CodeId} {entry : CodeEntry}
    (hcode : m.code? code = some entry) :
    ∃ entry', m'.code? code = some entry' ∧ entry'.fixed = entry.fixed :=
  code?_of_fixed h.codes hcode

theorem Quiet.calm (h : m.Quiet m') : m.Calm m' :=
  ⟨by unfold Machine.spots; rw [h.frames], h.hosts, h.codes⟩

theorem Quiet.refl (m : Machine) : m.Quiet m := ⟨rfl, rfl, rfl, rfl⟩

theorem Quiet.trans (h₁ : m.Quiet m') (h₂ : m'.Quiet m'') : m.Quiet m'' :=
  ⟨h₂.frames.trans h₁.frames, h₂.registers.trans h₁.registers, h₂.hosts.trans h₁.hosts,
    h₂.codes.trans h₁.codes⟩

instance : IsPreorder Machine Quiet where
  refl := .refl
  trans _ _ _ := .trans

theorem Quiet.frame? (h : m.Quiet m') : m'.frame? = m.frame? := by
  unfold Machine.frame?
  rw [h.frames]

/-- The running frame is where it was. -/
theorem Stands.frame? (h : m.Calm m') (hf : m.frame? = some f) :
    ∃ f', m'.frame? = some f' ∧ f'.spot = f.spot := by
  have hlast := congrArg List.getLast? h.spots
  simp only [Machine.spots, List.getLast?_map, Array.getLast?_toList] at hlast
  unfold Machine.frame? at hf ⊢
  rw [hf] at hlast
  exact Option.map_eq_some_iff.mp hlast

theorem Entered.calm (he : m.Entered) (h : m.Calm m') : m'.Entered := by
  obtain ⟨f, hf, hpc⟩ := he
  obtain ⟨f', hf', hspot⟩ := h.frame? hf
  exact ⟨f', hf', (congrArg Frame.pc hspot :).trans hpc⟩

theorem Arrives.refl (m : Machine) : m.Arrives m := ⟨_, .refl⟩

theorem Arrives.trans (h₁ : m.Arrives m') (h₂ : m'.Arrives m'') : m.Arrives m'' := by
  obtain ⟨_, ht₁⟩ := h₁
  obtain ⟨_, ht₂⟩ := h₂
  exact ⟨_, ht₁.trans ht₂⟩

theorem Step.arrives {writes : List SlotWrite} (hs : Step m writes m') : m.Arrives m' :=
  ⟨_, .single hs⟩

theorem Arrives.intact (ha : m.Arrives m') (hm : m.Intact) : m'.Intact := by
  obtain ⟨_, ht⟩ := ha
  exact ht.intact hm

end Machine

/-! ### Runs -/

/-- **A run** from an intact machine, and how it ends if it does. -/
structure Goes {α : Type} (m : Machine) (r : EStateM.Result Stop Machine α)
    (Q : α → Machine → Prop) (E : Unwind → Machine → Prop) : Prop where
  arrives : m.Arrives (leaves r)
  intact : (leaves r).Intact
  ends : Concludes Q E r

/-- **What an action relies on**: nested activities leave the frames where they are, and a frame that
runs to its end is popped; telling the listeners of an event never unwinds. -/
structure Env.Faithful (env : Env) : Prop where
  notify : ∀ event (m : Machine), m.Intact →
    Goes m (env.reenter (.notify event) m) (fun _ m' => m.Calm m') fun _ _ => False
  host : ∀ function call (m : Machine), m.Intact → function.index < m.hosts.size →
    Goes m (env.reenter (.host function call) m) (fun _ m' => m.Calm m')
      fun u m' => m.Calm m' ∧ (m.Candid → u.Innocent)
  frame : ∀ m : Machine, m.Intact → m.Entered →
    Goes m (env.reenter .frame m) (fun _ m' => m.Stands m.spots.dropLast m')
      fun u m' => m.Stands m.spots.dropLast m' ∧ (m.Candid → u.Innocent)

/-- **A calm action** leaves a machine in a relation to what it was, and makes no complaint about the
code unless a host function does. -/
def Calmly {α : Type} (R : Machine → Machine → Prop) (x : MachineM α) : Prop :=
  ∀ (env : Env) (m : Machine), env.Faithful → m.Intact →
    Goes m (x env m) (fun _ m' => R m m') fun u m' => R m m' ∧ (m.Candid → u.Innocent)

section Rules

variable {α β : Type} {env : Env} {x : MachineM α} {g : α → MachineM β}
  {R R' : Machine → Machine → Prop} {Q Q' : α → Machine → Prop} {E E' : Unwind → Machine → Prop}
  {P : β → Machine → Prop}

namespace Goes

variable {r : EStateM.Result Stop Machine α}

theorem mono (hr : Goes m r Q E) (hQ : ∀ a m', m'.Intact → Q a m' → Q' a m')
    (hE : ∀ u m', m'.Intact → E u m' → E' u m') : Goes m r Q' E' := by
  have hends := hr.ends
  have hintact := hr.intact
  refine ⟨hr.arrives, hr.intact, ?_⟩
  cases r with
  | ok a m' => exact hQ a m' hintact hends
  | error stop m' =>
    cases stop with
    | unwound u => exact hE u m' hintact hends
    | exhausted => trivial
    | paused _ => trivial

theorem ret (hm : m.Intact) {a : α} (hQ : Q a m) : Goes m ((pure a : MachineM α) env m) Q E :=
  ⟨.refl m, hm, hQ⟩

theorem unwind (hm : m.Intact) {u : Unwind} (hE : E u m) :
    Goes m ((unwind u : MachineM α) env m) Q E := ⟨.refl m, hm, hE⟩

theorem exhausted (hm : m.Intact) : Goes m ((throw .exhausted : MachineM α) env m) Q E :=
  ⟨.refl m, hm, trivial⟩

/-- What is searched for is found, or the search never ends. -/
theorem settled (hm : m.Intact) {found : Option α} (hQ : ∀ a, found = some a → Q a m) :
    Goes m (settled found env m) Q E := by
  cases found with
  | some a => exact ret hm (hQ a rfl)
  | none => exact exhausted hm

/-- **One action after the other.** -/
theorem bind (hx : Goes m (x env m) Q E)
    (hg : ∀ a m', m'.Intact → Q a m' → Goes m' (g a env m') P E) :
    Goes m ((x >>= g) env m) P E := by
  have harrives := hx.arrives
  have hintact := hx.intact
  have hends := hx.ends
  cases hr : x env m with
  | ok a m' =>
    rw [hr] at harrives hintact hends
    rw [bind_eq_of_ok hr]
    have hnext := hg a m' hintact hends
    exact ⟨harrives.trans hnext.arrives, hnext.intact, hnext.ends⟩
  | error stop m' =>
    rw [hr] at harrives hintact hends
    rw [bind_eq_of_error hr]
    exact ⟨harrives, hintact, by cases stop <;> exact hends⟩

theorem attempt (hx : Goes m (x env m) Q E) : Goes m (attempt x env m)
    (fun r m' => match r with
      | .ok a => Q a m'
      | .error u => E u m') E' := by
  have harrives := hx.arrives
  have hintact := hx.intact
  have hends := hx.ends
  cases hr : x env m with
  | ok a m' =>
    rw [hr] at harrives hintact hends
    rw [attempt_eq_of_ok hr]
    exact ⟨harrives, hintact, hends⟩
  | error stop m' =>
    rw [hr] at harrives hintact hends
    cases stop with
    | unwound u =>
      rw [attempt_eq_of_unwound hr]
      exact ⟨harrives, hintact, hends⟩
    | exhausted | paused _ =>
      rw [attempt_eq_of_stopped hr fun _ h => by cases h]
      exact ⟨harrives, hintact, trivial⟩

theorem pass (hm : m.Intact) {held : List Value} {g : Unit → MachineM β}
    (hg : Goes m (g () env m) P E) : Goes m ((checkpoint held >>= g) env m) P E := by
  by_cases hp : env.pause m held
  · have heq : (checkpoint held >>= g) env m = .error (.paused held) m := by
      simp only [checkpoint, Bind.bind, ReaderT.bind, EStateM.bind, if_pos hp]
    rw [heq]
    exact ⟨.refl m, hm, trivial⟩
  · have heq : (checkpoint held >>= g) env m = g () env m := by
      simp only [checkpoint, Bind.bind, ReaderT.bind, EStateM.bind, if_neg hp]
    rw [heq]
    exact hg

theorem look {g : Machine → MachineM β} (hg : Goes m (g m env m) P E) :
    Goes m ((get >>= g) env m) P E := hg

theorem ask {g : Env → MachineM β} (hg : Goes m (g env env m) P E) :
    Goes m ((read >>= g) env m) P E := hg

/-- A change of the machine that yields something. -/
theorem step (hm : m.Intact) {c : Machine → α × Machine} (ha : m.Arrives (c m).2)
    (hQ : Q (c m).1 (c m).2) : Goes m ((modifyGet c : MachineM α) env m) Q E :=
  ⟨ha, ha.intact hm, hQ⟩

theorem stepTo (hm : m.Intact) {c : Machine → α × Machine} {a : α} (h : c m = (a, m'))
    (ha : m.Arrives m') (hQ : Q a m') : Goes m ((modifyGet c : MachineM α) env m) Q E :=
  step hm (by rwa [h]) (by rwa [h])

theorem change (hm : m.Intact) {c : Machine → Machine} {Q : PUnit → Machine → Prop}
    (ha : m.Arrives (c m)) (hQ : Q ⟨⟩ (c m)) : Goes m ((modify c : MachineM PUnit) env m) Q E :=
  ⟨ha, ha.intact hm, hQ⟩

theorem ite {c : Prop} [Decidable c] {y : MachineM α} (ht : c → Goes m (x env m) Q E)
    (hf : ¬c → Goes m (y env m) Q E) : Goes m ((if c then x else y) env m) Q E := by
  split
  case isTrue h => exact ht h
  case isFalse h => exact hf h

end Goes

namespace Calmly

theorem mono (hR : ∀ m m', R m m' → R' m m') (hx : Calmly R x) : Calmly R' x :=
  fun env m he hm => (hx env m he hm).mono (fun _ _ _ h => hR _ _ h)
    fun _ _ _ h => ⟨hR _ _ h.1, h.2⟩

theorem quiet (hx : Calmly Quiet x) : Calmly Calm x := hx.mono fun _ _ => Quiet.calm

theorem ite {c : Prop} [Decidable c] {y : MachineM α} (hx : c → Calmly R x) (hy : ¬c → Calmly R y) :
    Calmly R (if c then x else y) := by
  split
  case isTrue h => exact hx h
  case isFalse h => exact hy h

theorem step {c : Machine → α × Machine}
    (hc : ∀ m : Machine, m.Intact → m.Arrives (c m).2 ∧ R m (c m).2) : Calmly R (modifyGet c) :=
  fun _ m _ hm => .step hm (hc m hm).1 (hc m hm).2

theorem change {c : Machine → Machine}
    (hc : ∀ m : Machine, m.Intact → m.Arrives (c m) ∧ R m (c m)) : Calmly R (modify c) :=
  fun _ m _ hm => .change hm (hc m hm).1 (hc m hm).2

variable [IsPreorder Machine R]

theorem ret (a : α) : Calmly R (pure a : MachineM α) := fun _ m _ hm => .ret hm (refl_of R m)

theorem unwind {u : Unwind} (hu : u.Innocent) : Calmly R (unwind u : MachineM α) :=
  fun _ m _ hm => .unwind hm ⟨refl_of R m, fun _ => hu⟩

theorem fatal {failure : Failure} (hf : failure.Innocent) : Calmly R (fatal failure : MachineM α) :=
  unwind (Unwind.innocent_fatal hf)

theorem settled (found : Option α) : Calmly R (settled found) := fun _ m _ hm =>
  .settled hm fun _ _ => refl_of R m

theorem look : Calmly R (get : MachineM Machine) := fun _ m _ hm => ⟨.refl m, hm, refl_of R m⟩

theorem checkpoint (held : List Value) : Calmly R (checkpoint held) := by
  intro env m _ hm
  have : ScriptMachine.checkpoint held = (ScriptMachine.checkpoint held >>= fun u => pure u) :=
    (bind_pure _).symm
  rw [this]
  exact Goes.pass hm (.ret hm (refl_of R m))

end Calmly

/-- Relations that say nothing of the running frame's scopes leave the host functions alone. -/
class Leaving (R : Machine → Machine → Prop) : Prop extends IsPreorder Machine R where
  hosts : ∀ m m', R m m' → m'.hosts = m.hosts

instance : Leaving Calm where
  hosts _ _ h := h.hosts

instance : Leaving Quiet where
  hosts _ _ h := h.hosts

theorem Leaving.candid [Leaving R] (h : R m m') (hc : m.Candid) : m'.Candid := by
  unfold Machine.Candid
  rwa [Leaving.hosts m m' h]

namespace Calmly

variable [Leaving R]

/-- **One action after the other.** -/
theorem bind (hx : Calmly R x) (hg : ∀ a, Calmly R (g a)) : Calmly R (x >>= g) := by
  intro env m he hm
  refine Goes.bind (hx env m he hm) fun a m' hm' h => ?_
  refine (hg a env m' he hm').mono (fun _ _ _ h' => trans_of R h h') fun _ _ _ h' => ?_
  exact ⟨trans_of R h h'.1, fun hc => h'.2 (Leaving.candid h hc)⟩

theorem discarded (hx : Calmly R x) : Calmly R (discard x) := by
  change Calmly R (x >>= fun _ => pure ())
  exact bind hx fun _ => ret _

end Calmly

end Rules

end ScriptMachine
