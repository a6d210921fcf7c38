import ScriptMachine.Machine.Perform
import ScriptMachine.Proofs.Events.Callers
import ScriptMachine.Proofs.Machine.Turn
import ScriptMachine.Proofs.Progress.Call
import ScriptMachine.Proofs.Stack.Compiled
import ScriptMachine.Proofs.Stack.Interpreter

/-! # Regimes

What is kept while a machine runs is said by a `Regime`: a predicate for the moments between two operations,
one for a frame that was pushed and not announced, and one for a frame whose end was announced and that is
not popped yet. A regime is served in an environment (`Regime.Serves`) when silent changes keep it, a push
and a pop lead from one predicate to the next, and telling the listeners does. Then every action that starts
no activity of its own respects it (`Regime.Respects`): a frame is pushed for a handle that was issued, it
is announced before anything else happens, and none is popped that was not announced. -/

namespace ScriptMachine

open Machine

/-- **What is kept while a machine runs**; the number is that of the frames pushed so far. -/
structure Regime where
  /-- Between two operations. -/
  keeps : Nat → Machine → Prop
  /-- A frame was pushed, and the listeners have not been told. -/
  entered : Nat → Machine → Prop
  /-- The listeners were told that the running frame is left. -/
  left : Nat → Machine → Prop
  /-- Out of fuel, or stopped at a checkpoint. -/
  stops : Machine → Prop

/-- Silent changes one after the other. -/
abbrev Machine.Silently : Machine → Machine → Prop := Relation.ReflTransGen Silent

namespace Regime

variable {α β : Type}

/-- **How a run ends**: with a result for which `Q` holds, by unwinding, or stopped. -/
def Ends (R : Regime) (n : Nat) (m : Machine) (Q : α → Machine → Prop) :
    EStateM.Result Stop Machine α → Prop
  | .ok a m' => m.Outlasts m' ∧ Q a m'
  | .error (.unwound _) m' => m.Outlasts m' ∧ R.keeps n m'
  | .error _ m' => R.stops m'

/-- **A lenient regime** does not care for the scopes of frames. -/
def Lenient (R : Regime) : Prop :=
  ∀ (n : Nat) (m : Machine) (f : Frame) (g : Frame → Frame), R.keeps n m → m.frame? = some f →
    (g f).callee = f.callee → (g f).code = f.code → R.keeps n (m.modifyFrame g)

/-- **A regime that is served** in an environment. -/
structure Serves (R : Regime) (env : Env) : Prop where
  regular : ∀ {n m}, R.keeps n m → m.Regular
  registered : ∀ {n m}, R.keeps n m → m.Registered
  /-- If it matters, code that asks for it has its variables moved before any block scope is open. -/
  settled : R.Lenient ∨ ∀ n m, R.keeps n m → m.Settled
  silent : ∀ {n m m'}, R.keeps n m → m.Silent m' → R.keeps n m'
  stops : ∀ {n m}, R.keeps n m → R.stops m
  push : ∀ {n m f id} registers, R.keeps n m → m.heap.Issued id → m.Starts id f →
    R.entered (n + 1) { m with frames := m.frames.push f, registers }
  pop : ∀ {n m} registers, R.left n m → R.keeps n { m with frames := m.frames.pop, registers }
  /-- A statement or an exception is reported. -/
  report : ∀ {n m} (kind exception line), kind = .statement ∨ kind = .exception → R.keeps n m →
    R.Ends n m (fun _ => R.keeps n) (notifyAt kind exception line env m)
  /-- A call is announced. -/
  enter : ∀ {n m}, R.entered n m → R.Ends n m (fun _ => R.keeps n) (notify .call env m)
  /-- A return is announced. -/
  leave : ∀ {n m}, R.keeps n m → m.frames ≠ #[] → R.Ends n m (fun _ => R.left n) (notify .ret env m)

/-- **An action that respects a regime**, however it ends. -/
def Respects (R : Regime) (x : MachineM α) : Prop :=
  ∀ (env : Env) (n : Nat) (m : Machine), R.Serves env → R.keeps n m →
    R.Ends n m (fun _ => R.keeps n) (x env m)

variable {R : Regime} {env : Env} {n : Nat} {m m' : Machine} {x : MachineM α} {g : α → MachineM β}
  {Q Q' : α → Machine → Prop} {P : β → Machine → Prop}

/-! ### Rules -/

theorem Serves.silently (hs : R.Serves env) (hk : R.keeps n m) (h : m.Silently m') :
    R.keeps n m' ∧ m.Outlasts m' := by
  induction h with
  | refl => exact ⟨hk, .refl _⟩
  | tail _ hlink ih =>
    exact ⟨hs.silent ih.1 hlink, ih.2.trans (hlink.abides (hs.regular ih.1)).toOutlasts⟩

namespace Ends

theorem ret {a : α} (hQ : Q a m) : R.Ends n m Q ((pure a : MachineM α) env m) := ⟨.refl _, hQ⟩

theorem unwind (hk : R.keeps n m) (u : Unwind) : R.Ends n m Q ((unwind u : MachineM α) env m) :=
  ⟨.refl _, hk⟩

theorem look {g : Machine → MachineM β} (hg : R.Ends n m P (g m env m)) :
    R.Ends n m P ((get >>= g) env m) := hg

theorem ite {c : Prop} [Decidable c] {y : MachineM α} (hx : c → R.Ends n m Q (x env m))
    (hy : ¬c → R.Ends n m Q (y env m)) : R.Ends n m Q ((if c then x else y) env m) := by
  split
  case isTrue h => exact hx h
  case isFalse h => exact hy h

theorem mono {r : EStateM.Result Stop Machine α} (hr : R.Ends n m Q r) (hQ : ∀ a m', Q a m' → Q' a m') :
    R.Ends n m Q' r := by
  cases r with
  | ok a m' => exact ⟨hr.1, hQ a m' hr.2⟩
  | error stop m' => cases stop <;> exact hr

/-- A run that goes on from where another one led. -/
theorem after {r : EStateM.Result Stop Machine α} (ho : m.Outlasts m') (hr : R.Ends n m' Q r) :
    R.Ends n m Q r := by
  cases r with
  | ok a m'' => exact ⟨ho.trans hr.1, hr.2⟩
  | error stop m'' =>
    cases stop with
    | unwound u => exact ⟨ho.trans hr.1, hr.2⟩
    | exhausted | paused _ => exact hr

/-- **One action after the other.** -/
theorem bind (hx : R.Ends n m Q (x env m))
    (hg : ∀ a m', m.Outlasts m' → Q a m' → R.Ends n m' P (g a env m')) :
    R.Ends n m P ((x >>= g) env m) := by
  cases hr : x env m with
  | ok a m' =>
    rw [hr] at hx
    rw [bind_eq_of_ok hr]
    exact (hg a m' hx.1 hx.2).after hx.1
  | error stop m' =>
    rw [hr] at hx
    rw [bind_eq_of_error hr]
    cases stop <;> exact hx

/-- Looking at the running frame. -/
theorem framed {g : Frame → MachineM β} (hk : R.keeps n m)
    (hg : ∀ f, m.frame? = some f → R.Ends n m P (g f env m)) :
    R.Ends n m P ((currentFrame >>= g) env m) := by
  cases hf : m.frame? with
  | none =>
    rw [bind_eq_of_error (currentFrame_of_none hf env)]
    exact ⟨.refl _, hk⟩
  | some f =>
    rw [bind_eq_of_ok (currentFrame_eq hf env)]
    exact hg f hf

theorem pass (hs : R.Serves env) (hk : R.keeps n m) {held : List Value} {g : Unit → MachineM β}
    (hg : R.Ends n m P (g () env m)) : R.Ends n m P ((checkpoint held >>= g) env m) := by
  by_cases hp : env.pause m held
  · have heq : (checkpoint held >>= g) env m = .error (.paused held) m := by
      simp only [checkpoint, Bind.bind, ReaderT.bind, EStateM.bind, if_pos hp]
    rw [heq]
    exact hs.stops hk
  · have heq : (checkpoint held >>= g) env m = g () env m := by
      simp only [checkpoint, Bind.bind, ReaderT.bind, EStateM.bind, if_neg hp]
    rw [heq]
    exact hg

/-- A silent change that yields something. -/
theorem step (hs : R.Serves env) (hk : R.keeps n m) {c : Machine → α × Machine}
    (hc : m.Silently (c m).2) (hQ : R.keeps n (c m).2 → Q (c m).1 (c m).2) :
    R.Ends n m Q ((modifyGet c : MachineM α) env m) := by
  obtain ⟨hk', ho⟩ := hs.silently hk hc
  exact ⟨ho, hQ hk'⟩

theorem change (hs : R.Serves env) (hk : R.keeps n m) {c : Machine → Machine}
    {Q : PUnit → Machine → Prop} (hc : m.Silently (c m)) (hQ : R.keeps n (c m) → Q ⟨⟩ (c m)) :
    R.Ends n m Q ((modify c : MachineM PUnit) env m) :=
  step (c := fun m => (PUnit.unit, c m)) hs hk hc hQ

/-- **An action whose unwinding is caught**, possibly in another regime. -/
theorem caught {R' : Regime} (hx : R.Ends n m (fun _ => R.keeps n) (x env m))
    (hstops : ∀ m', R.stops m' → R'.stops m') : R'.Ends n m (fun _ => R.keeps n) (attempt x env m) := by
  cases hr : x env m with
  | ok a m' =>
    rw [hr] at hx
    rw [attempt_eq_of_ok hr]
    exact hx
  | error stop m' =>
    rw [hr] at hx
    cases stop with
    | unwound u =>
      rw [attempt_eq_of_unwound hr]
      exact hx
    | exhausted | paused _ =>
      rw [attempt_eq_of_stopped hr fun _ h => by cases h]
      exact hstops m' hx

theorem attempt (hx : R.Ends n m (fun _ => R.keeps n) (x env m)) :
    R.Ends n m (fun _ => R.keeps n) (attempt x env m) := hx.caught fun _ h => h

/-- What holds of the results holds of those that are not unwinding. -/
theorem attempted {P : α → Prop} (hx : R.Ends n m (fun a m' => R.keeps n m' ∧ P a) (x env m)) :
    R.Ends n m (fun r m' => R.keeps n m' ∧ ∀ a, r = .ok a → P a) (ScriptMachine.attempt x env m) := by
  cases hr : x env m with
  | ok a m' =>
    rw [hr] at hx
    rw [attempt_eq_of_ok hr]
    exact ⟨hx.1, hx.2.1, fun b hb => Except.ok.inj hb ▸ hx.2.2⟩
  | error stop m' =>
    rw [hr] at hx
    cases stop with
    | unwound u =>
      rw [attempt_eq_of_unwound hr]
      exact ⟨hx.1, hx.2, fun _ h => nomatch h⟩
    | exhausted | paused _ =>
      rw [attempt_eq_of_stopped hr fun _ h => by cases h]
      exact hx

end Ends

namespace Respects

theorem ret (a : α) : R.Respects (pure a : MachineM α) := fun _ _ _ _ hk => .ret hk

theorem unwind (u : Unwind) : R.Respects (unwind u : MachineM α) := fun _ _ _ _ hk => .unwind hk u

theorem fatal (failure : Failure) : R.Respects (fatal failure : MachineM α) := unwind _

/-- What is searched for is found, or the search never ends. -/
theorem settled (found : Option α) : R.Respects (settled found) := by
  cases found with
  | some a => exact ret a
  | none => exact fun _ _ _ hs hk => hs.stops hk

theorem look : R.Respects (get : MachineM Machine) := fun _ _ _ _ hk => ⟨.refl _, hk⟩

theorem bind (hx : R.Respects x) (hg : ∀ a, R.Respects (g a)) : R.Respects (x >>= g) :=
  fun env n m hs hk => (hx env n m hs hk).bind fun a m' _ hk' => hg a env n m' hs hk'

theorem ite {c : Prop} [Decidable c] {y : MachineM α} (hx : R.Respects x) (hy : R.Respects y) :
    R.Respects (if c then x else y) := by
  split
  · exact hx
  · exact hy

theorem discarded (hx : R.Respects x) : R.Respects (discard x) := bind hx fun _ => ret _

theorem attempt (hx : R.Respects x) : R.Respects (attempt x) :=
  fun env n m hs hk => .attempt (hx env n m hs hk)

theorem checkpoint (held : List Value) : R.Respects (checkpoint held) := by
  intro env n m hs hk
  rw [← bind_pure (ScriptMachine.checkpoint held)]
  exact .pass hs hk (.ret hk)

/-- **A silent change.** -/
theorem step {c : Machine → α × Machine} (hc : ∀ m : Machine, m.Regular → m.Silently (c m).2) :
    R.Respects (modifyGet c : MachineM α) :=
  fun _ _ m hs hk => .step hs hk (hc m (hs.regular hk)) fun hk' => hk'

theorem change {c : Machine → Machine} (hc : ∀ m : Machine, m.Regular → m.Silently (c m)) :
    R.Respects (modify c : MachineM PUnit) := step (c := fun m => (PUnit.unit, c m)) hc

theorem withHeap {c : Heap → α × Heap} (hc : ∀ h : Heap, h.Preserves (c h).2) :
    R.Respects (withHeap c) := step fun m _ => .single (.heap (hc m.heap))

theorem modifyHeap {c : Heap → Heap} (hc : ∀ h : Heap, h.Preserves (c h)) : R.Respects (modifyHeap c) :=
  change fun m _ => .single (.heap (hc m.heap))

theorem tryHeap {c : HeapM α} (hc : Heap.Preserving c) : R.Respects (tryHeap c) := by
  refine withHeap fun h => ?_
  have hp := hc h
  revert hp
  cases c h <;> exact id

end Respects

end Regime

/-! ### Silent changes of parts of the machine -/

namespace Machine.Silently

variable {m m' : Machine}

theorem heap {h : Heap} (hp : m.heap.Preserves h) : m.Silently { m with heap := h } := .single (.heap hp)

/-- Something else changes. -/
theorem beside (hheap : m'.heap = m.heap) (hframes : m'.frames = m.frames) (hcodes : m'.codes = m.codes)
    (hhosts : m'.hosts = m.hosts) (hjournal : m'.journal = m.journal)
    (hlisteners : m'.listeners = m.listeners) (hnotifying : m'.notifying = m.notifying)
    (hintrinsics : m'.intrinsics = m.intrinsics) : m.Silently m' :=
  .single (.beside hheap hframes hcodes hhosts hjournal hlisteners hnotifying hintrinsics)

theorem setPc (m : Machine) (pc : UInt32) : m.Silently (m.setPc pc) := by
  cases hf : m.frame? with
  | none =>
    rw [show m.setPc pc = m from modifyFrame_of_none hf]
  | some f => exact .single (.frame hf (.goes m f pc))

theorem setRegister (m : Machine) (r : Register) (v : Value) : m.Silently (m.setRegister r v) := by
  unfold Machine.setRegister
  cases m.frame? with
  | none => exact .refl
  | some f =>
    dsimp only
    cases f.redirects r with
    | some a => exact .single (.slot _ _ _)
    | none => exact beside rfl rfl rfl rfl rfl rfl rfl rfl

theorem setScopedVar (m : Machine) (depth index : UInt32) (v : Value) :
    m.Silently (m.setScopedVar depth index v) := by
  unfold Machine.setScopedVar
  cases m.scopeAt? depth with
  | some scope => exact .single (.slot _ _ _)
  | none => exact .refl

theorem popScope (m : Machine) : m.Silently m.popScope := by
  cases hf : m.frame? with
  | none =>
    rw [show m.popScope = m by unfold Machine.popScope; rw [hf]]
  | some f =>
    by_cases hd : f.scopeDepth = 0
    · rw [popScope_of_zero hf hd]
    · rw [popScope_eq hf hd]
      exact .single (.frame hf (.closes hd))

/-- **One registered block changes**, but not what is fixed of it. -/
theorem modifyCode (hm : m.Regular) (code : CodeId) {c : CodeEntry → CodeEntry}
    (hfixed : ∀ entry, (c entry).fixed = entry.fixed)
    (hissued : ∀ entry, entry.CallsIssued m.heap → (c entry).CallsIssued m.heap)
    (hbacks : ∀ entry, m.code? code = some entry → m.Backs entry → m.Backs (c entry)) :
    m.Silently (m.modifyCode code c) := by
  refine .single (.recode (fun entry hentry => ?_) (recodes_modify hfixed hbacks))
  obtain ⟨i, hi⟩ := Array.mem_iff_getElem?.mp hentry
  rw [Array.getElem?_modify] at hi
  split at hi
  case isTrue =>
    obtain ⟨old, hold, rfl⟩ := Option.map_eq_some_iff.mp hi
    exact hissued old (hm.codes old (Array.mem_of_getElem? hold))
  case isFalse => exact hm.codes entry (Array.mem_of_getElem? hi)

/-- A change that leaves tier code and call sites alone. -/
theorem recount (hm : m.Regular) (code : CodeId) {c : CodeEntry → CodeEntry}
    (hfixed : ∀ entry, (c entry).fixed = entry.fixed)
    (hcompiled : ∀ entry, (c entry).compiled = entry.compiled)
    (hcalls : ∀ entry, (c entry).caches.calls = entry.caches.calls) : m.Silently (m.modifyCode code c) := by
  refine modifyCode hm code hfixed (fun entry hc => ?_) fun entry _ hb => ?_
  · unfold CodeEntry.CallsIssued
    rw [hcalls]
    exact hc
  · refine hb.congr (hfixed entry) (fun l hl => hb.compiled l (hcompiled entry ▸ hl)) ?_
    rw [hcalls]
    exact hb.calls

theorem cacheProperty (hm : m.Regular) (site : Site) (entry : PropertyEntry) :
    m.Silently (m.cacheProperty site entry) := by
  unfold Machine.cacheProperty
  split
  · exact .refl
  · cases site with
    | none => exact .refl
    | some site => exact recount hm _ (fun _ => rfl) (fun _ => rfl) fun _ => rfl

/-- A call site remembers a handle that was issued, and what is registered. -/
theorem cacheTarget (hm : m.Regular) (site : Site) {callee : Handle} (hi : m.heap.Issued callee)
    {target : CallTarget} (hk : m.Knows target) : m.Silently (m.cacheTarget site callee target) := by
  -- what a call site of the new code remembers was remembered before, or is the callee
  have hmem {entry : CodeEntry} {index : Nat} {cache : InlineCache Handle CallTarget}
      (hcache : cache ∈ entry.caches.calls.modify index fun cache => cache.update callee target)
      {k : Handle} {t : CallTarget} (hmem : (k, t) ∈ cache.entries) :
      (∃ old ∈ entry.caches.calls, (k, t) ∈ old.entries) ∨ (k = callee ∧ t = target) := by
    obtain ⟨i, hi⟩ := Array.mem_iff_getElem?.mp hcache
    rw [Array.getElem?_modify] at hi
    split at hi
    case isTrue =>
      obtain ⟨old, hold, rfl⟩ := Option.map_eq_some_iff.mp hi
      exact (InlineCache.mem_update hmem).imp (fun h => ⟨old, Array.mem_of_getElem? hold, h⟩) id
    case isFalse => exact .inl ⟨cache, Array.mem_of_getElem? hi, hmem⟩
  unfold Machine.cacheTarget
  split
  · exact .refl
  · cases site with
    | none => exact .refl
    | some site =>
      refine modifyCode hm _ (fun _ => rfl) (fun entry hc cache hcache k t h => ?_) fun entry _ hb =>
        hb.congr rfl hb.compiled fun cache hcache k t h => ?_
      · rcases hmem hcache h with ⟨old, hold, hthere⟩ | ⟨rfl, -⟩
        · exact hc old hold k t hthere
        · exact hi
      · rcases hmem hcache h with ⟨old, hold, hthere⟩ | ⟨-, rfl⟩
        · exact hb.calls old hold k t hthere
        · exact hk

theorem tierUp (hm : m.Regular) : m.Silently m.tierUp.2 := by
  have hcount (code : CodeId) (callCount : UInt32) :
      m.Silently (m.modifyCode code fun e => { e with callCount }) :=
    recount hm _ (fun _ => rfl) (fun _ => rfl) fun _ => rfl
  unfold Machine.tierUp
  cases m.frame? with
  | none => exact .refl
  | some f =>
    dsimp only
    cases hcode : m.code? f.code with
    | none => exact .refl
    | some entry =>
      dsimp only
      cases entry.compiled with
      | some lowered => exact .refl
      | none =>
        dsimp only
        cases m.tier with
        | none => exact hcount _ _
        | some stats =>
          dsimp only
          split
          · exact hcount _ _
          · have hstats : m.Silent { m with tier := some (stats.count entry.lower) } :=
              .beside rfl rfl rfl rfl rfl rfl rfl rfl
            refine .trans (.single hstats) (modifyCode (hstats.abides hm).regular _ (fun _ => rfl)
              (fun _ hc => hc) fun e he hb => ?_)
            obtain rfl := Option.some.inj (hcode.symm.trans he)
            refine hb.congr rfl (fun l hl => ?_) hb.calls
            cases hlower : entry.lower with
            | ok lowered =>
              rw [hlower] at hl
              exact congrArg Except.ok (Option.some.inj hl)
            | error fault =>
              rw [hlower] at hl
              cases hl

end Machine.Silently

/-- What is found in the cache of a call site was remembered. -/
theorem Machine.mem_of_cachedTarget? {m : Machine} {site : Site} {callee : Handle} {target : CallTarget}
    (h : m.cachedTarget? site callee = some target) :
    ∃ entry ∈ m.codes, ∃ cache ∈ entry.caches.calls, (callee, target) ∈ cache.entries := by
  unfold Machine.cachedTarget? at h
  split at h
  case isTrue => cases h
  case isFalse =>
    split at h
    case h_1 => cases h
    case h_2 =>
      split at h
      case h_1 => cases h
      case h_2 entry hcode =>
        split at h
        case h_2 => cases h
        case h_1 cache hcache =>
          exact ⟨entry, Array.mem_of_getElem? hcode, cache, Array.mem_of_getElem? hcache,
            InlineCache.mem_of_lookup? h⟩

/-- What a call site remembers was issued. -/
theorem Machine.Regular.issued_of_cachedTarget? {m : Machine} (hm : m.Regular) {site : Site}
    {callee : Handle} {target : CallTarget} (h : m.cachedTarget? site callee = some target) :
    m.heap.Issued callee := by
  obtain ⟨entry, hentry, cache, hcache, hmem⟩ := mem_of_cachedTarget? h
  exact hm.codes entry hentry cache hcache callee target hmem

/-- What a call site remembers is registered. -/
theorem Machine.Registered.knows_of_cachedTarget? {m : Machine} (hm : m.Registered) {site : Site}
    {callee : Handle} {target : CallTarget} (h : m.cachedTarget? site callee = some target) :
    m.Knows target := by
  obtain ⟨entry, hentry, cache, hcache, hmem⟩ := mem_of_cachedTarget? h
  exact (hm.codes entry hentry).calls cache hcache callee target hmem

end ScriptMachine
