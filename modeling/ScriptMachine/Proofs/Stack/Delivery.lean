import ScriptMachine.Proofs.Program.Handlers
import ScriptMachine.Proofs.Stack.Loop
import ScriptMachine.Proofs.Stack.Restored
import ScriptMachine.Proofs.Tier.Lowering

/-! # Exceptions reach the nearest handler

A value that an instruction throws goes to the innermost handler of the topmost frame of the loop that
has one: the frames above are popped, the frame has as many block scopes open as the handler expects, and
a `Catch` at the target stores the value. If no frame has a handler, all frames of the loop are popped,
and the value leaves the loop. Tier code does the same with its only frame
(`exceptions_reach_nearest_handler`).

Listeners are told of every frame that is popped, and unwinding waits for them. It always ends if they
do (`Prompt`). -/

namespace ScriptMachine

open Machine

variable {env : Env} {m m' m'' : Machine} {f : Frame} {v : Value} {entryDepth mark : Nat}

/-! ### Unwinding ends -/

/-- A listener is stopped before it is done. -/
def Env.Delays (env : Env) (stop : Stop) (m' : Machine) : Prop :=
  (∀ u, stop ≠ .unwound u) ∧ ∃ event m, env.reenter (.notify event) m = .error stop m'

/-- **An action that ends**, unless a listener that it waits for does not. -/
def Prompt {α : Type} (env : Env) (x : MachineM α) : Prop :=
  ∀ m stop m', x env m = .error stop m' → (∃ u, stop = .unwound u) ∨ env.Delays stop m'

namespace Prompt

variable {α β : Type} {x : MachineM α} {g : α → MachineM β}

theorem ret (a : α) : Prompt env (pure a : MachineM α) := fun _ _ _ h => by cases h

theorem unwind (u : Unwind) : Prompt env (unwind u : MachineM α) := fun _ _ _ h => by
  cases h
  exact .inl ⟨u, rfl⟩

theorem step (c : Machine → α × Machine) : Prompt env (modifyGet c : MachineM α) :=
  fun _ _ _ h => by cases h

theorem look : Prompt env (get : MachineM Machine) := fun _ _ _ h => by cases h

theorem bind (hx : Prompt env x) (hg : ∀ a, Prompt env (g a)) : Prompt env (x >>= g) := by
  intro m stop m' h
  cases hr : x env m with
  | ok a m₁ =>
    rw [bind_eq_of_ok hr] at h
    exact hg a m₁ stop m' h
  | error stop₁ m₁ =>
    rw [bind_eq_of_error hr] at h
    obtain ⟨rfl, rfl⟩ := EStateM.Result.error.inj h
    exact hx m _ _ hr

theorem ite {c : Prop} [Decidable c] {y : MachineM α} (hx : Prompt env x) (hy : Prompt env y) :
    Prompt env (if c then x else y) := by
  split
  · exact hx
  · exact hy

theorem notify (kind : EventKind) : Prompt env (notify kind) := by
  refine bind look fun m => ite (bind ?_ fun _ => ret _) (ret _)
  intro m₁ stop m' h
  by_cases hu : ∃ u, stop = .unwound u
  · exact .inl hu
  · exact .inr ⟨fun u heq => hu ⟨u, heq⟩, _, m₁, h⟩

theorem popFrame : Prompt env popFrame :=
  bind look fun _ => ite (ret _) (bind (notify _) fun _ => step _)

theorem popFrames (count : Nat) : Prompt env (popFrames count) := by
  induction count with
  | zero => exact ret _
  | succ count ih => exact bind (bind popFrame fun _ => ret _) fun _ => ih

theorem popFramesTo (depth : Nat) : Prompt env (popFramesTo depth) :=
  bind look fun _ => popFrames _

theorem unwindFrames (value : Value) (count : Nat) :
    Prompt env (unwindFrames entryDepth value count) := by
  induction count with
  | zero => exact unwind _
  | succ count ih =>
    refine bind (step _) fun target => ?_
    cases target with
    | some _ => exact ret _
    | none =>
      exact bind look fun _ => bind (bind popFrame fun _ => ret _) fun _ => ite (unwind _) ih

/-- **Unwinding ends**, unless a listener does not. -/
theorem handleUnwind (u : Unwind) : Prompt env (handleUnwind entryDepth u) := by
  cases u with
  | throw value => exact bind look fun _ => unwindFrames _ _
  | fatal failure => exact bind (popFramesTo _) fun _ => unwind _

end Prompt

/-! ### Handlers of a frame -/

theorem Frame.handler?_eq {entry : CodeEntry} (hcode : m.code? f.code = some entry) :
    f.handler? m = entry.block.handlerFor? (f.pc - min f.pc 1) := by
  unfold Frame.handler?
  rw [hcode]

/-- A handler that leaves at least as many block scopes open as there are leaves the chain alone. -/
theorem Frame.resumed_of_le {h : Heap} {handler : Handler} (hle : f.scopeDepth ≤ handler.scopeDepth) :
    f.resumed h handler = { f with pc := handler.target } := by
  have hmin : min f.scopeDepth handler.scopeDepth = f.scopeDepth := by
    rw [← UInt32.toNat_inj, UInt32.toNat_min, Nat.min_eq_left (UInt32.le_iff_toNat_le.mp hle)]
  have hhead : f.headAt h handler.scopeDepth.toNat = f.scope := by
    rw [Frame.headAt, Nat.sub_eq_zero_of_le (UInt32.le_iff_toNat_le.mp hle), Function.iterate_zero_apply]
  rw [Frame.resumed, hmin, hhead]

/-! ### In the loop -/

namespace Machine

/-- Releasing temporaries does not matter to a frame that continues at a handler. -/
theorem DeliveredTo.reheap {i : Nat} {handler : Handler} {h : Heap}
    (hd : DeliveredTo i f handler v m m') (hs : m'.Still { m' with heap := h })
    (hretains : m'.heap.Retains h) : DeliveredTo i f handler v m { m' with heap := h } := by
  have hscopes : h.enclosing = m'.heap.enclosing := Heap.enclosing_congr hretains.links
  refine ⟨hd.frame, hd.found, hd.above, hd.keeps.trans (hs.keeps i), hd.size, ?_, hd.registers,
    fun hr n hn => ?_, hd.pending⟩
  · have := hd.resumed
    unfold Frame.resumed Frame.headAt at this ⊢
    dsimp only
    rw [hscopes, this]
  · dsimp only
    rw [hscopes]
    exact hd.scopes (hs.roomy hr) n hn

end Machine

/-- **An instruction of the loop throws**: the loop goes on at the nearest handler, or the value leaves
the loop. -/
theorem runLoop_throw (he : env.Orderly) (hm : m.Orderly) (hd : entryDepth < m.frames.size)
    (hthrow : instruction env m = .ok (some (.error (.throw v))) m') (mark fuel : Nat) :
    (∃ m'', Delivered entryDepth v m' m'' ∧
      runLoop entryDepth mark (fuel + 1) env m = runLoop entryDepth mark fuel env m'') ∨
    (∃ m'', Undelivered entryDepth m' m'' ∧
      runLoop entryDepth mark (fuel + 1) env m = .error (.unwound (.throw v)) m'') ∨
    ∃ stop m'', env.Delays stop m'' ∧ runLoop entryDepth mark (fuel + 1) env m = .error stop m'' := by
  have hp := Proceeds.instruction he hm (E := fun _ _ => True)
  rw [hthrow] at hp
  have hm' : m'.Orderly := hp.orderly
  have ho : m.Outcome m' (.error (.throw v)) := hp.ends.2
  have hunwind := Proceeds.handleUnwind he hm' (Nat.lt_of_lt_of_le hd ho.keeps.2) (.throw v)
  have hturn : turn entryDepth mark env m = settle entryDepth mark (.error (.throw v)) env m' :=
    bind_eq_of_ok hthrow
  rw [runLoop_succ]
  cases hr : handleUnwind entryDepth (.throw v) env m' with
  | ok _ m₁ =>
    rw [hr] at hunwind
    obtain ⟨⟨v', hv, i, f, handler, hi, hto⟩, -⟩ := hunwind.ends
    cases hv
    have hretains := Heap.retains_truncateTemporaries m₁.heap mark
    have hsettle : settle entryDepth mark (.error (.throw v)) env m' =
        .ok none { m₁ with heap := m₁.heap.truncateTemporaries mark } :=
      bind_eq_of_ok (attempt_eq_of_ok hr)
    obtain ⟨-, hs, -⟩ := Orderly.retains (m := m₁) hunwind.orderly hretains
    exact .inl ⟨_, ⟨i, f, handler, hi, hto.reheap hs hretains⟩,
      bind_eq_of_ok (hturn.trans hsettle)⟩
  | error stop m₁ =>
    cases stop with
    | unwound u =>
      rw [hr] at hunwind
      obtain ⟨⟨rfl, hc, hunhandled⟩, -⟩ := hunwind.ends
      have hretains := (Heap.retains_truncateTemporaries m₁.heap mark).trans
        (Heap.retains_pushTemporary _ v)
      have hsettle : settle entryDepth mark (.error (.throw v)) env m' =
          .error (.unwound (.throw v))
            { m₁ with heap := (m₁.heap.truncateTemporaries mark).pushTemporary v } :=
        bind_eq_of_ok (attempt_eq_of_unwound hr)
      obtain ⟨-, hs, -⟩ := Orderly.retains (m := m₁) hunwind.orderly hretains
      exact .inr (.inl ⟨_, ⟨⟨hc.keeps.trans (hs.keeps _), hc.size⟩, hunhandled v rfl⟩,
        bind_eq_of_error (hturn.trans hsettle)⟩)
    | exhausted | paused held =>
      have hsettle : settle entryDepth mark (.error (.throw v)) env m' = .error _ m₁ :=
        bind_eq_of_error (attempt_eq_of_stopped hr fun u h => by cases h)
      rcases Prompt.handleUnwind _ m' _ _ hr with ⟨u, hu⟩ | hdelays
      · cases hu
      · exact .inr (.inr ⟨_, m₁, hdelays, bind_eq_of_error (hturn.trans hsettle)⟩)

/-- A checkpoint where the machine goes on. -/
theorem checkpoint_eq {held : List Value} (hpause : env.pause m held = false) :
    checkpoint held env m = .ok () m := if_neg (by simp [hpause])

/-- The value that was delivered is taken. -/
theorem takeException_eq (hv : m.pendingException = some v) :
    takeException env m = .ok v { m with pendingException := none } := by
  change EStateM.Result.ok (m.pendingException.getD .undefined) _ = _
  rw [hv]
  rfl

/-- **`Catch` stores the value** that was delivered. -/
theorem instruction_catchInto {entry : CodeEntry} {dst : Register} {position : Option SourcePosition}
    (hf : m.frame? = some f) (hcode : m.code? f.code = some entry)
    (hi : entry.block.instructions[f.pc.toNat]? = some ⟨.catchInto dst, position⟩)
    (hv : m.pendingException = some v) (hpause : env.pause m [] = false) :
    instruction env m = .ok (some (.ok .next))
      ({ m.setPc (f.pc + 1) with pendingException := none }.setRegister dst v) := by
  have hstep : step f.code (.catchInto dst) env (m.setPc (f.pc + 1)) = .ok .next
      ({ m.setPc (f.pc + 1) with pendingException := none }.setRegister dst v) :=
    bind_eq_of_ok (takeException_eq hv)
  exact (bind_eq_of_ok (checkpoint_eq hpause)).trans ((bind_eq_of_ok (fetch_eq hf hcode hi)).trans
    (bind_eq_of_ok (attempt_eq_of_ok hstep)))

/-! ### In tier code -/

section Tier
variable {code : Lowered} {index : Nat}

/-- **An operation of tier code throws**: the code goes on at the innermost handler of its frame, or the
value leaves the code. -/
theorem runOps_throw (he : env.Orderly) (hm : m.Orderly) (hc : m.Compiled code)
    (hthrow : operation code mark index env m = .ok (some (.error (.throw v))) m') (fuel : Nat) :
    m'.frames.size = m.frames.size ∧ ∃ f, m'.frame? = some f ∧
      ((∃ handler m'', DeliveredTo (m'.frames.size - 1) f handler v m' m'' ∧
        runOps code mark (fuel + 1) index env m =
          runOps code mark fuel (code.entry handler.target) env m'') ∨
      f.handler? m' = none ∧
        runOps code mark (fuel + 1) index env m = .error (.unwound (.throw v)) m') := by
  have hp := Proceeds.operation he hm hc mark index (E := fun _ _ => True)
  rw [hthrow] at hp
  have hm' : m'.Orderly := hp.orderly
  have ha : m.Advances m' := hp.ends.1
  obtain ⟨f, -, hf, -, -⟩ := hc.shifts ha
  have hturn : tierTurn code mark index env m =
      settleOperation code index (.error (.throw v)) env m' := bind_eq_of_ok hthrow
  have henter := enterHandler_eq hf env v
  have hkeeps := (show Proceeds (enterHandler v env m') _ fun _ _ => True from
    Proceeds.enterHandler hm' v).ends
  refine ⟨ha.size, f, hf, ?_⟩
  rw [runOps_succ]
  cases hh : f.handler? m' with
  | some handler =>
    rw [hh] at henter
    rw [henter] at hkeeps
    exact .inl ⟨handler, _, deliveredTo_top hf hh hkeeps.1.keeps,
      bind_eq_of_ok (hturn.trans (bind_eq_of_ok henter))⟩
  | none =>
    rw [hh] at henter
    exact .inr ⟨rfl, bind_eq_of_error (hturn.trans (bind_eq_of_ok henter))⟩

/-- **A value that leaves tier code** pops its frame and goes on to the caller. -/
theorem runCompiled_throw (he : env.Orderly) (hm : m.Orderly) (hc : m.Compiled code)
    (hrun : runOps code m.heap.temporaries.size env.fuel 0 env m = .error (.unwound (.throw v)) m') :
    (∃ m'', m.Popped m'' ∧ runCompiled code env m = .error (.unwound (.throw v)) m'') ∨
    ∃ stop m'', env.Delays stop m'' ∧ runCompiled code env m = .error stop m'' := by
  have hruns := Proceeds.runOps he hm hc m.heap.temporaries.size env.fuel 0
  rw [hrun] at hruns
  have hm' : m'.Orderly := hruns.orderly
  have hstays : m.Stays m' := hruns.ends.1
  have hpopped := Proceeds.runCompiled he hm hc
  have heq : runCompiled code env m =
      (popFramesTo (m.frames.size - 1) >>= fun _ => unwind (.throw v)) env m' :=
    bind_eq_of_ok (attempt_eq_of_unwound hrun)
  cases hr : popFramesTo (m.frames.size - 1) env m' with
  | ok _ m₁ =>
    rw [bind_eq_of_ok hr] at heq
    rw [heq] at hpopped
    exact .inl ⟨m₁, hpopped.ends.1, heq⟩
  | error stop m₁ =>
    rw [bind_eq_of_error hr] at heq
    rcases Prompt.popFramesTo _ m' _ _ hr with ⟨u, rfl⟩ | hdelays
    · have hdepth : m.frames.size - 1 ≤ m'.frames.size := by
        rw [hstays.size]
        exact Nat.sub_le _ _
      have hpop := Proceeds.popFramesTo he hm' hdepth (E := fun _ _ => False)
      rw [hr] at hpop
      exact hpop.ends.elim
    · exact .inr ⟨stop, m₁, hdelays, heq⟩

/-- **A handler in tier code** starts with the operation that stores the value that was delivered. -/
theorem operation_catchInto {entry : CodeEntry} {handler : Handler} {dst : Register}
    {position : Option SourcePosition} (hl : entry.lower = .ok code)
    (hmem : handler ∈ entry.block.handlers)
    (hi : entry.block.instructions[handler.target.toNat]? = some ⟨.catchInto dst, position⟩)
    (hv : m.pendingException = some v) (hpause : env.pause m [] = false) :
    operation code mark (code.entry handler.target) env m = .ok (some (.ok .next))
      ({ m with heap := m.heap.truncateTemporaries mark, pendingException := none }.setRegister
        dst v) := by
  obtain ⟨k, hk, hop⟩ := Block.startsAt_catchInto hl hmem hi
  have hentry : code.entry handler.target = k := by
    rw [Lowered.entry, hk]
    rfl
  have hstep : tierStep (code.opPcs.getD k 0) (.catchInto dst) env
      { m with heap := m.heap.truncateTemporaries mark } = .ok .next
        ({ m with heap := m.heap.truncateTemporaries mark, pendingException := none }.setRegister
          dst v) := bind_eq_of_ok (takeException_eq hv)
  have hrelease : modifyHeap (·.truncateTemporaries mark) env m =
      .ok () { m with heap := m.heap.truncateTemporaries mark } := rfl
  rw [hentry, operation, hop]
  exact (bind_eq_of_ok (checkpoint_eq hpause)).trans ((bind_eq_of_ok hrelease).trans
    (bind_eq_of_ok (attempt_eq_of_ok hstep)))

end Tier

/-! ### All exceptions -/

/-- **Exceptions are delivered to the nearest handler** by what runs in an environment. -/
structure Env.Delivers (env : Env) : Prop where
  /-- In the loop, a thrown value goes to the topmost frame that has a handler, and the loop goes on
  there; or no frame of the loop has one, and the value leaves the loop, which has popped its frames. -/
  nearest : ∀ (m m' : Machine) (v : Value) (entryDepth mark fuel : Nat), m.Orderly →
    entryDepth < m.frames.size → instruction env m = .ok (some (.error (.throw v))) m' →
    (∃ m'', Delivered entryDepth v m' m'' ∧
      runLoop entryDepth mark (fuel + 1) env m = runLoop entryDepth mark fuel env m'') ∨
    (∃ m'', Undelivered entryDepth m' m'' ∧
      runLoop entryDepth mark (fuel + 1) env m = .error (.unwound (.throw v)) m'') ∨
    ∃ stop m'', env.Delays stop m'' ∧ runLoop entryDepth mark (fuel + 1) env m = .error stop m''
  /-- The frame goes back to the scope it had when as many block scopes were open as now, or to the record
  to which its variables have moved since. -/
  scopes : ∀ (s m m' : Machine) (i : Nat) (g f : Frame) (handler : Handler) (v : Value), s.Orderly →
    s.frames[i]? = some g → Leads env i g.scopeDepth.toNat s m → DeliveredTo i f handler v m m' →
    g.scopeDepth.toNat = min f.scopeDepth.toNat handler.scopeDepth.toNat → m'.heap.Roomy →
    (f.resumed m'.heap handler).scope = g.scope ∨ g.scopeDepth.toNat = 0 ∧ g.activation = none ∧
      ∃ a, f.activation = some a ∧ (f.resumed m'.heap handler).scope = some a
  /-- A `Catch` where the frame goes on stores the value. -/
  caught : ∀ (m : Machine) (f : Frame) (entry : CodeEntry) (dst : Register)
    (position : Option SourcePosition) (v : Value), m.frame? = some f → m.code? f.code = some entry →
    entry.block.instructions[f.pc.toNat]? = some ⟨.catchInto dst, position⟩ →
    m.pendingException = some v → env.pause m [] = false →
    instruction env m = .ok (some (.ok .next))
      ({ m.setPc (f.pc + 1) with pendingException := none }.setRegister dst v)
  /-- In tier code, a thrown value goes to the frame of the code if that has a handler, and the code goes
  on at the operation of the target; otherwise the value leaves the code. -/
  tierNearest : ∀ (m m' : Machine) (code : Lowered) (mark index fuel : Nat) (v : Value), m.Orderly →
    m.Compiled code → operation code mark index env m = .ok (some (.error (.throw v))) m' →
    m'.frames.size = m.frames.size ∧ ∃ f, m'.frame? = some f ∧
      ((∃ handler m'', DeliveredTo (m'.frames.size - 1) f handler v m' m'' ∧
        runOps code mark (fuel + 1) index env m =
          runOps code mark fuel (code.entry handler.target) env m'') ∨
      f.handler? m' = none ∧
        runOps code mark (fuel + 1) index env m = .error (.unwound (.throw v)) m')
  /-- The frame of tier code that a value leaves is popped. -/
  tierLeaves : ∀ (m m' : Machine) (code : Lowered) (v : Value), m.Orderly → m.Compiled code →
    runOps code m.heap.temporaries.size env.fuel 0 env m = .error (.unwound (.throw v)) m' →
    (∃ m'', m.Popped m'' ∧ runCompiled code env m = .error (.unwound (.throw v)) m'') ∨
    ∃ stop m'', env.Delays stop m'' ∧ runCompiled code env m = .error stop m''
  /-- A `Catch` where tier code goes on stores the value. -/
  tierCaught : ∀ (m : Machine) (code : Lowered) (mark : Nat) (entry : CodeEntry) (handler : Handler)
    (dst : Register) (position : Option SourcePosition) (v : Value), entry.lower = .ok code →
    handler ∈ entry.block.handlers →
    entry.block.instructions[handler.target.toNat]? = some ⟨.catchInto dst, position⟩ →
    m.pendingException = some v → env.pause m [] = false →
    operation code mark (code.entry handler.target) env m = .ok (some (.ok .next))
      ({ m with heap := m.heap.truncateTemporaries mark, pendingException := none }.setRegister
        dst v)
  /-- All of this happens in orderly machines only. -/
  orderly : ∀ m m' : Machine, m.Orderly → Moves env m m' → m'.Orderly

/-- **Exceptions reach the nearest handler.** The handler of a frame is the innermost one that covers the
instruction before its return address; a frame with no more block scopes than the handler leaves open
keeps them all; and in all machines that can be reached, with any `HostProgram`s as host functions and
listeners, the loop and tier code deliver every value that is thrown. -/
theorem exceptions_reach_nearest_handler :
    (∀ (m : Machine) (f : Frame) (entry : CodeEntry), m.code? f.code = some entry →
      entry.block.Nested →
      (∀ h, f.handler? m = some h ↔ entry.block.Innermost (f.pc - min f.pc 1) h) ∧
      (f.handler? m = none ↔ ∀ h ∈ entry.block.handlers, h.covers (f.pc - min f.pc 1) = false)) ∧
    (∀ (h : Heap) (f : Frame) (handler : Handler), f.scopeDepth ≤ handler.scopeDepth →
      f.resumed h handler = { f with pc := handler.target }) ∧
    (∀ m : Machine, m.Reached → m.Orderly) ∧
    ∀ (pause : Machine → List Value → Bool) (fuel : Nat),
      Env.Delivers { reenter := perform pause fuel, fuel, pause } := by
  refine ⟨fun m f entry hcode hn => ?_, fun h f handler => Frame.resumed_of_le,
    fun m => Machine.Reached.orderly, fun pause fuel => ?_⟩
  · rw [Frame.handler?_eq hcode]
    exact ⟨fun h => Block.handlerFor?_eq_some_iff hn, Block.handlerFor?_eq_none_iff⟩
  · have he := orderly_perform pause fuel
    exact {
      nearest := fun m m' v entryDepth mark fuel hm hd hthrow =>
        runLoop_throw he hm hd hthrow mark fuel
      scopes := fun s m m' i g f handler v hs hg hl hdelivered hopen hr =>
        hdelivered.scope_eq he hs hl hg rfl hopen hr
      caught := fun m f entry dst position v hf hcode hi hv hpause =>
        instruction_catchInto hf hcode hi hv hpause
      tierNearest := fun m m' code mark index fuel v hm hc hthrow =>
        runOps_throw he hm hc hthrow fuel
      tierLeaves := fun m m' code v hm hc hrun => runCompiled_throw he hm hc hrun
      tierCaught := fun m code mark entry handler dst position v hl hmem hi hv hpause =>
        operation_catchInto hl hmem hi hv hpause
      orderly := fun m m' hm hmove => (hmove.turns he hm).1 }

/-- The function of a program throws null, which is delivered to the handler of its caller, and the program
returns what it caught. -/
theorem exceptions_reach_nearest_handler_calling :
    let env : Env := { reenter := perform (fun _ _ => false) 0, fuel := 0, pause := fun _ _ => false }
    let m := (calling (.throw 0)).turned.turned
    ∃ m' m'', m.Orderly ∧ instruction env m = .ok (some (.error (.throw .null))) m' ∧
      Delivered 0 .null m' m'' ∧ runLoop 0 0 3 env m = runLoop 0 0 2 env m'' := by
  intro env m
  have he : env.Orderly := orderly_perform _ _
  have hm : m.Orderly :=
    (Proceeds.turn he (Proceeds.turn he (orderly_calling _) (by decide) 0).orderly
      (by decide +kernel) 0).orderly
  have hthrow : instruction env m = .ok (some (.error (.throw .null))) (leaves (instruction env m)) :=
    by rfl
  have hrun : (match runLoop 0 0 3 env m with
    | .ok value _ => decide (value = .null)
    | .error _ _ => false) = true := by decide +kernel
  have hdelivers := (exceptions_reach_nearest_handler.2.2.2 (fun _ _ => false) 0).nearest m _ .null
    0 0 2 hm (by decide +kernel) hthrow
  clear_value m
  rcases hdelivers with ⟨m'', hdelivered, hrest⟩ | ⟨m'', -, hleft⟩ | ⟨stop, m'', -, hleft⟩
  · exact ⟨_, m'', hm, hthrow, hdelivered, hrest⟩
  · rw [hleft] at hrun
    cases hrun
  · rw [hleft] at hrun
    cases hrun

end ScriptMachine
