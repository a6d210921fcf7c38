import ScriptMachine.Machine.Interpreter
import ScriptMachine.Proofs.Stack.Compiled

/-! # Unwinding and instructions

A thrown value looks for a handler from the running frame down to the frame that the loop began with.
It is delivered to the first frame that has one, and the frames above are popped (`Machine.Delivered`);
if there is none, all frames of the loop are popped (`Machine.Undelivered`). The listeners are told of
every frame that is popped. They leave the other frames alone, so that the search sees the frames that
there were when the value was thrown (`Proceeds.handleUnwind`). -/

namespace ScriptMachine

open Machine

section

variable {m m' m'' : Machine} {f : Frame} {v : Value} {entryDepth : Nat}

/-- A handler is looked for in code that never changes. -/
theorem Frame.handler?_congr (he : m.Endures m') (f : Frame) : f.handler? m' = f.handler? m := by
  unfold Frame.handler?
  cases hcode : m.code? f.code with
  | some entry =>
    obtain ⟨entry', hcode', hsame⟩ := he.code? hcode
    have hblock : entry'.block = entry.block := (congrArg CodeEntry.block hsame :)
    rw [hcode']
    dsimp only
    rw [hblock]
  | none =>
    have hsize := congrArg Array.size he.codes
    simp only [Array.size_map] at hsize
    have hnone : m'.code? f.code = none := by
      unfold code? at hcode ⊢
      rw [Array.getElem?_eq_none_iff] at hcode ⊢
      rwa [hsize]
    rw [hnone]

namespace Machine

/-- None of the frames from `depth` on has a handler. -/
def Unhandled (m : Machine) (depth : Nat) : Prop :=
  ∀ i f, depth ≤ i → m.frames[i]? = some f → f.handler? m = none

/-- **A thrown value was delivered** to a handler of frame `i`. -/
structure DeliveredTo (i : Nat) (f : Frame) (handler : Handler) (v : Value) (m m' : Machine) :
    Prop where
  /-- The frame has the handler, -/
  frame : m.frames[i]? = some f
  found : f.handler? m = some handler
  /-- and is the topmost one that has any. -/
  above : m.Unhandled (i + 1)
  /-- The frames above it are popped, -/
  keeps : Keeps i m m'
  size : m'.frames.size = i + 1
  /-- and it continues at the handler, -/
  resumed : m'.frames[i]? = some (f.resumed m'.heap handler)
  /-- with its window -/
  registers : ∀ j < floor m.frames.toList (i + 1),
    m'.registers.registers[j]? = m.registers.registers[j]?
  /-- and its scope chain left alone. -/
  scopes : m'.heap.Roomy → ∀ n ≤ f.scopeDepth.toNat,
    m'.heap.enclosing^[n] f.scope = m.heap.enclosing^[n] f.scope
  /-- The value waits for the handler. -/
  pending : m'.pendingException = some v

/-- **A thrown value was delivered** to the topmost frame of the loop that has a handler. -/
def Delivered (entryDepth : Nat) (v : Value) (m m' : Machine) : Prop :=
  ∃ i f handler, entryDepth ≤ i ∧ DeliveredTo i f handler v m m'

/-- **A thrown value left the loop**: no frame of the loop has a handler, and all of them are popped. -/
structure Undelivered (entryDepth : Nat) (m m' : Machine) : Prop extends Cut entryDepth m m' where
  unhandled : m.Unhandled entryDepth

/-- The running frame is the topmost one. -/
theorem getElem?_top (hf : m.frame? = some f) : m.frames[m.frames.size - 1]? = some f := by
  rw [← hf, frame?, Array.back?_eq_getElem?]

theorem unhandled_size (m : Machine) : m.Unhandled m.frames.size := by
  intro i f hi hf
  exact absurd (Array.getElem?_eq_some_iff.mp hf).1 (Nat.not_lt.mpr hi)

/-- One more frame without a handler. -/
theorem Unhandled.pred (hu : m.Unhandled m.frames.size) (hf : m.frame? = some f)
    (hh : f.handler? m = none) : m.Unhandled (m.frames.size - 1) := by
  intro i g hi hg
  rcases Nat.lt_or_ge i m.frames.size with hlt | hge
  · obtain rfl : i = m.frames.size - 1 := by omega
    obtain rfl := Option.some.inj ((getElem?_top hf).symm.trans hg)
    exact hh
  · exact hu i g hge hg

/-- The frames without a handler are the same before and after others were popped. -/
theorem Unhandled.lower {depth size : Nat} (hu : m'.Unhandled depth) (hk : Keeps size m m')
    (htop : m.Unhandled size) : m.Unhandled depth := by
  intro i f hd hf
  rcases Nat.lt_or_ge i size with hi | hi
  · rw [← Frame.handler?_congr hk.toEndures]
    exact hu i f hd (by rw [hk.getElem? hi, hf])
  · exact htop i f hi hf

/-- A handler of the running frame takes the value at once. -/
theorem deliveredTo_top (hf : m.frame? = some f) {handler : Handler}
    (hh : f.handler? m = some handler) (hk : Keeps (m.frames.size - 1) m
      { m.modifyFrame (·.resumed m.heap handler) with pendingException := some v }) :
    DeliveredTo (m.frames.size - 1) f handler v m
      { m.modifyFrame (·.resumed m.heap handler) with pendingException := some v } := by
  obtain ⟨below, hframes⟩ := frame?_eq_some.mp hf
  have hcount : m.frames.size = below.size + 1 := by simp [hframes]
  have hresumed := frames_modifyFrame (g := (·.resumed m.heap handler)) hframes
  refine ⟨getElem?_top hf, hh, ?_, hk, ?_, ?_, fun _ _ => rfl, fun _ _ _ => rfl, rfl⟩
  · rw [hcount, Nat.add_sub_cancel, ← hcount]
    exact m.unhandled_size
  · dsimp only
    rw [hresumed, hcount]
    simp
  · dsimp only
    rw [hresumed, hcount]
    simp only [Nat.add_sub_cancel, Array.getElem?_push_size]
    rfl

/-- A frame that is delivered to after the frames above it were popped. -/
theorem DeliveredTo.lower {i size : Nat} {handler : Handler} (hd : DeliveredTo i f handler v m' m'')
    (hi : i < size) (hk : Keeps size m m') (htop : m.Unhandled size) :
    DeliveredTo i f handler v m m'' := by
  have hframe : m.frames[i]? = some f := by rw [← hk.getElem? hi, hd.frame]
  refine ⟨hframe, ?_, hd.above.lower hk htop, (hk.mono (Nat.le_of_lt hi)).trans hd.keeps, hd.size,
    hd.resumed, fun j hj => ?_, fun hr n hn => ?_, hd.pending⟩
  · rw [← Frame.handler?_congr hk.toEndures, hd.found]
  · rw [hd.registers j (by rwa [floor_congr (hk.mono hi).frames]),
      hk.registers j (Nat.lt_of_lt_of_le hj (floor_mono _ hi))]
  · rw [hd.scopes hr n hn]
    refine hk.scopes (hd.keeps.roomy hr) f ?_ n hn
    exact List.mem_of_getElem? (i := i) (by simpa [List.getElem?_take, hi] using hframe)

end Machine

namespace Proceeds

variable {env : Env}

/-- **Looking for a handler**, frame by frame. -/
theorem unwindFrames (he : env.Orderly) (hm : m.Orderly) (hd : entryDepth < m.frames.size) (v : Value)
    {count : Nat} (hc : m.frames.size ≤ count) :
    Proceeds (unwindFrames entryDepth v count env m)
      (fun _ m' => Delivered entryDepth v m m' ∧ m.Balanced m')
      fun u m' => (u = .throw v ∧ Undelivered entryDepth m m') ∧ m.Balanced m' := by
  induction count generalizing m with
  | zero => exact absurd hc (by omega)
  | succ count ih =>
    obtain ⟨f, hf⟩ : ∃ f, m.frame? = some f := by
      cases hf : m.frame? with
      | none => simp [frame?_eq_none.mp hf] at hd
      | some f => exact ⟨f, rfl⟩
    refine bind (enterHandler hm v) ?_
    rintro r m₁ hm₁ ⟨hc₁, hb₁, hr⟩
    rw [hf, Option.bind_some] at hr
    cases hh : f.handler? m with
    | some handler =>
      rw [hh] at hr
      obtain ⟨rfl, rfl⟩ := hr
      exact ret hm₁ ⟨⟨_, f, handler, by omega, deliveredTo_top hf hh hc₁.keeps⟩, hb₁⟩
    | none =>
      rw [hh] at hr
      obtain ⟨rfl, hsame⟩ := hr
      obtain rfl : m = m₁ := hsame.symm
      have hunhandled := m.unhandled_size.pred hf hh
      refine look (bind (Q := fun _ m' => m.Popped m' ∧ m.Balanced m')
        (bind (popFrame he hm) fun _ m' hm' h => ret hm' h.1) ?_)
      rintro _ m₂ hm₂ ⟨hp, hb₂⟩
      refine ite (fun hle => ?_) fun hgt => ?_
      · obtain rfl : m.frames.size - 1 = entryDepth := by omega
        exact unwind hm₂ ⟨⟨rfl, hp, hunhandled⟩, hb₂⟩
      · have hsize := hp.size
        refine (ih hm₂ (by omega) (by omega)).mono ?_ ?_
        · rintro _ m₃ - ⟨⟨i, g, handler, hi, hto⟩, hb₃⟩
          have hlt := (Array.getElem?_eq_some_iff.mp hto.frame).1
          rw [hsize] at hlt
          exact ⟨⟨i, g, handler, hi, hto.lower hlt hp.keeps hunhandled⟩, hb₂.trans hb₃⟩
        · rintro u m₃ - ⟨⟨rfl, hun⟩, hb₃⟩
          exact ⟨⟨rfl, hun.toCut.after (hp.keeps.mono (by omega)),
            hun.unhandled.lower hp.keeps hunhandled⟩, hb₂.trans hb₃⟩

/-- **Unwinding** delivers a thrown value to the nearest handler of the loop, or leaves the loop; a
failure leaves the loop. -/
theorem handleUnwind (he : env.Orderly) (hm : m.Orderly) (hd : entryDepth < m.frames.size)
    (u : Unwind) : Proceeds (handleUnwind entryDepth u env m)
      (fun _ m' => (∃ v, u = .throw v ∧ Delivered entryDepth v m m') ∧ m.Balanced m')
      fun u' m' => (u' = u ∧ Cut entryDepth m m' ∧ ∀ v, u = .throw v → m.Unhandled entryDepth) ∧
        m.Balanced m' := by
  cases u with
  | fatal failure =>
    refine bind (popFramesTo he hm (Nat.le_of_lt hd)) ?_
    rintro _ m₁ hm₁ ⟨hc, hb⟩
    exact unwind hm₁ ⟨⟨rfl, hc, fun _ h => by cases h⟩, hb⟩
  | throw v =>
    refine look ((unwindFrames he hm hd v (Nat.le_succ _)).mono ?_ ?_)
    · rintro _ m₁ - ⟨hto, hb⟩
      exact ⟨⟨v, rfl, hto⟩, hb⟩
    · rintro _ m₁ - ⟨⟨rfl, hun⟩, hb⟩
      exact ⟨⟨rfl, hun.toCut, fun _ _ => hun.unhandled⟩, hb⟩

end Proceeds

end

/-! ## Instructions

An instruction of an interpreted frame advances the frame, unless it calls a script function: then the
frame of the callee is pushed, and the loop goes on there (`Proceeds.opcode`). A call that is over
before the loop goes on has only stored its result (`Machine.Invoked`). -/

variable {m m' m'' : Machine} {f : Frame}

/-- The register that gets the result of a call instruction. -/
def Opcode.callResult? : Opcode → Option Register
  | .call dst .. | .callMethod dst .. | .construct dst .. => some dst
  | _ => none

namespace Machine

/-- A call from a frame: it is over and its result is stored, or the frame of the callee runs and will
give its result to the register. -/
def Invoked (dst : Register) (m m' : Machine) : Prop :=
  (∃ mid v, mid.Orderly ∧ m.Still mid ∧ m' = mid.setRegister dst v) ∨
    m.Pushed m' ∧ ∃ f, m'.frames = m.frames.push f ∧ f.returnRegister = some dst

/-- The instruction went on to the frame of a callee. -/
def Enters (m m' : Machine) : Prop := ∃ m₁, m.Works m₁ ∧ m₁.Pushed m'

/-- **What an instruction did to the stacks**: it advanced the running frame, or it went on to the frame
of a callee, and then it has no result and raised no exception. -/
def Outcome (m m' : Machine) (flow : Except Unwind Flow) : Prop :=
  m.Advances m' ∨ m.Enters m' ∧ (flow = .ok .next ∨ ∃ failure, flow = .error (.fatal failure))

theorem Invoked.outcome {dst : Register} (hc : Invoked dst m m') : m.Outcome m' (.ok .next) := by
  rcases hc with ⟨mid, v, hmid, hs, rfl⟩ | ⟨hp, -⟩
  · exact .inl (hs.works.trans (hmid.setRegister dst v).2.1).advances
  · exact .inr ⟨⟨m, .refl m, hp⟩, .inl rfl⟩

/-- A call after an operation that leaves the stacks alone. -/
theorem Invoked.after {dst : Register} (hs : m.Still m') (hc : Invoked dst m' m'') :
    Invoked dst m m'' := by
  rcases hc with ⟨mid, v, hmid, hs', rfl⟩ | ⟨hp, f, hframes, hf⟩
  · exact .inl ⟨mid, v, hmid, hs.trans hs', rfl⟩
  · have hkeeps := hp.keeps
    have hsize := hp.size
    rw [hs.frames] at hframes hkeeps hsize
    exact .inr ⟨⟨(hs.keeps _).trans hkeeps, hsize⟩, f, hframes, hf⟩

theorem Outcome.after {flow : Except Unwind Flow} (hw : m.Works m') (ho : m'.Outcome m'' flow) :
    m.Outcome m'' flow := by
  rcases ho with ha | ⟨⟨m₁, hw₁, hp⟩, hf⟩
  · exact .inl (hw.trans_advances ha)
  · exact .inr ⟨⟨m₁, hw.trans hw₁, hp⟩, hf⟩

end Machine

namespace Keeping

theorem identifierAtom (code : CodeId) (index : UInt32) : Restful (identifierAtom code index) := by
  refine bind look fun m => ?_
  dsimp only
  split
  · exact ret _
  · exact fatal _

theorem stepStore (dst : Register) (v : Value) : Keeping Works (step.store dst v) :=
  bind (setRegister dst v) fun _ => ret _

theorem stepGoto (target : UInt32) : Keeping Works (step.goto target) :=
  bind (setPc target) fun _ => ret _

end Keeping

namespace Proceeds

variable {env : Env} {callee this : Value} {args : Array Value} {isConstruct : Bool} {site : Site}

/-- **A call from a frame.** -/
theorem callFromFrame (he : env.Orderly) (hm : m.Orderly) (dst : Register) :
    Proceeds (callFromFrame dst callee this args isConstruct site env m)
      (fun _ m' => Invoked dst m m' ∧ m.Balanced m')
      fun u m' => (m.Still m' ∨ (∃ failure, u = .fatal failure) ∧ m.Pushed m') ∧ m.Balanced m' := by
  refine bind ((Keeping.resolveCallee env m he hm).mono (fun _ _ _ h => h) fun _ _ _ h =>
    ⟨.inl h.1, h.2⟩) ?_
  rintro ⟨function, target⟩ m₁ hm₁ ⟨hs₁, hb₁⟩
  refine bind ((Keeping.receiver function env m₁ he hm₁).mono (fun _ _ _ h => h) fun _ _ _ h =>
    ⟨.inl (hs₁.trans h.1), hb₁.trans h.2⟩) ?_
  rintro this m₂ hm₂ ⟨hs₂, hb₂⟩
  have hs := hs₁.trans hs₂
  have hb := hb₁.trans hb₂
  -- the result of a call that is over
  have hstore {m₃ : Machine} (hm₃ : m₃.Orderly) (hs₃ : m.Still m₃) (hb₃ : m.Balanced m₃) (v : Value)
      {E : Unwind → Machine → Prop} :
      Proceeds ((modify (·.setRegister dst v) : MachineM Unit) env m₃)
        (fun _ m' => Invoked dst m m' ∧ m.Balanced m') E := by
    obtain ⟨hm₄, -, hb₄⟩ := hm₃.setRegister dst v
    exact change hm₄ ⟨.inl ⟨m₃, v, hm₃, hs₃, rfl⟩, hb₃.trans hb₄⟩
  refine pass hm₂ ?_
  cases target with
  | host host =>
    refine bind ((Keeping.invokeHost host env m₂ he hm₂).mono (fun _ _ _ h => h) fun _ _ _ h =>
      ⟨.inl (hs.trans h.1), hb.trans h.2⟩) ?_
    rintro v m₃ hm₃ ⟨hs₃, hb₃⟩
    exact hstore hm₃ (hs.trans hs₃) (hb.trans hb₃) v
  | script code =>
    refine bind ((pushFrame he hm₂ _ _ _ _ _ _ _).mono (fun _ _ _ h => h) fun _ _ _ h =>
      ⟨.inl (hs.trans h.1), hb.trans h.2⟩) ?_
    rintro _ m₃ hm₃ ⟨⟨hp₃, hb₃⟩, f, hframes, hreturn⟩
    have hpushed {m₄ : Machine} (hs₄ : m₃.Still m₄) : m.Pushed m₄ := by
      have hkeeps := hp₃.keeps
      have hsize := hp₃.size
      rw [hs.frames] at hkeeps hsize
      exact ⟨((hs.keeps _).trans hkeeps).trans (hs₄.keeps _), by rw [hs₄.frames, hsize]⟩
    refine bind ((functionEntry he hm₃).mono (fun _ _ _ h => h) fun _ _ _ h =>
      ⟨.inr ⟨h.2, hpushed h.1.1⟩, (hb.trans hb₃).trans h.1.2⟩) ?_
    rintro compiled m₄ hm₄ ⟨⟨hs₄, hb₄⟩, hcompiled⟩
    have hb' := (hb.trans hb₃).trans hb₄
    cases compiled with
    | none =>
      refine ret hm₄ ⟨.inr ⟨hpushed hs₄, f, ?_, hreturn⟩, hb'⟩
      rw [hs₄.frames, hframes, hs.frames]
    | some lowered =>
      refine bind ((runCompiled he hm₄ (hcompiled lowered rfl)).mono (fun _ _ _ h => h)
        fun _ _ hm₅ h => ⟨.inl ((hpushed hs₄).popped h.1 hm.stacked hm₅.stacked), hb'.trans h.2⟩) ?_
      rintro v m₅ hm₅ ⟨hp₅, hb₅⟩
      exact hstore hm₅ ((hpushed hs₄).popped hp₅ hm.stacked hm₅.stacked) (hb'.trans hb₅) v

/-- A call instruction. -/
theorem calling (he : env.Orderly) (hm : m.Orderly) (dst : Register) :
    Proceeds ((do
        ScriptMachine.callFromFrame dst callee this args isConstruct site
        return .next : MachineM Flow) env m)
      (fun flow m' => (flow = .next ∧ Invoked dst m m') ∧ m.Balanced m')
      fun u m' => m.Outcome m' (.error u) ∧ m.Balanced m' := by
  refine bind ((callFromFrame he hm dst).mono (fun _ _ _ h => h) fun u _ _ h => ⟨?_, h.2⟩) ?_
  · rcases h.1 with hs | ⟨⟨failure, rfl⟩, hp⟩
    · exact .inl hs.works.advances
    · exact .inr ⟨⟨m, .refl m, hp⟩, .inr ⟨failure, rfl⟩⟩
  · rintro _ m' hm' ⟨hc, hb⟩
    exact ret hm' ⟨⟨rfl, hc⟩, hb⟩

/-- **An instruction that calls.** -/
theorem callOpcode (he : env.Orderly) (hm : m.Orderly) (code : CodeId) {opcode : Opcode}
    {dst : Register} (hd : opcode.callResult? = some dst) :
    Proceeds (ScriptMachine.step code opcode env m)
      (fun flow m' => (flow = .next ∧ Invoked dst m m') ∧ m.Balanced m')
      fun u m' => m.Outcome m' (.error u) ∧ m.Balanced m' := by
  cases opcode with
  | call dst' _ _ _ _ _ | construct dst' _ _ _ _ =>
    obtain rfl := Option.some.inj hd
    exact look (calling he hm _)
  | callMethod dst' base name firstArg argc propertyCache cache =>
    obtain rfl := Option.some.inj hd
    let receiver := m.register base
    change Proceeds ((ScriptMachine.identifierAtom code name >>= fun atom => do
      let method ← ScriptMachine.getById receiver atom (some (code, propertyCache))
      ScriptMachine.callFromFrame dst' method receiver ((← get).registerRange firstArg argc) false
        (some (code, cache))
      return Flow.next) env m) _ _
    refine bind ((Keeping.identifierAtom code name env m he hm).mono (fun _ _ _ h => h)
      fun _ _ _ h => ⟨.inl h.1.works.advances, h.2⟩) ?_
    rintro atom m₁ hm₁ ⟨hs₁, hb₁⟩
    refine bind ((Keeping.getById _ atom _ env m₁ he hm₁).mono (fun _ _ _ h => h)
      fun _ _ _ h => ⟨.inl (hs₁.trans h.1).works.advances, hb₁.trans h.2⟩) ?_
    rintro method m₂ hm₂ ⟨hs₂, hb₂⟩
    have hs := hs₁.trans hs₂
    refine look ((calling he hm₂ _).mono ?_ ?_)
    · rintro flow m₃ - ⟨⟨rfl, hc⟩, hb₃⟩
      exact ⟨⟨rfl, hc.after hs⟩, (hb₁.trans hb₂).trans hb₃⟩
    · rintro u m₃ - ⟨ho, hb₃⟩
      exact ⟨ho.after hs.works, (hb₁.trans hb₂).trans hb₃⟩
  | _ => cases hd

/-- **One instruction**, of code that is registered. -/
theorem opcode (he : env.Orderly) (hm : m.Orderly) (code : CodeId) (opcode : Opcode)
    (hcode : ∀ f, m.frame? = some f → (m.code? f.code).isSome) :
    Proceeds (ScriptMachine.step code opcode env m)
      (fun flow m' => m.Outcome m' (.ok flow) ∧ m.Balanced m')
      fun u m' => m.Outcome m' (.error u) ∧ m.Balanced m' := by
  have works {x : MachineM Flow} (hx : Keeping Works x) :
      Proceeds (x env m) (fun flow m' => m.Outcome m' (.ok flow) ∧ m.Balanced m')
        fun u m' => m.Outcome m' (.error u) ∧ m.Balanced m' :=
    (hx env m he hm).mono (fun _ _ _ h => ⟨.inl h.1.advances, h.2⟩)
      fun _ _ _ h => ⟨.inl h.1.advances, h.2⟩
  have stored {x : MachineM Value} (dst : Register) (hx : Keeping Works x) :
      Keeping Works (x >>= ScriptMachine.step.store dst) := Keeping.bind hx fun v => Keeping.stepStore dst v
  have tested {x : MachineM Bool} (dst : Register) (hx : Restful x) :
      Keeping Works (x >>= fun b => ScriptMachine.step.store dst (.boolean b)) :=
    Keeping.bind (.works hx) fun _ => Keeping.stepStore dst _
  have done {x : MachineM Unit} (hx : Keeping Works x) :
      Keeping Works (do x; return Flow.next) := Keeping.bind hx fun _ => Keeping.ret _
  have look {α : Type} {g : Machine → MachineM α} (hg : ∀ m, Keeping Works (g m)) :
      Keeping Works (get >>= g) := Keeping.bind Keeping.look hg
  have named {g : Atom → MachineM Flow} (name : UInt32) (hg : ∀ a, Keeping Works (g a)) :
      Keeping Works (ScriptMachine.identifierAtom code name >>= g) :=
    Keeping.bind (.works (Keeping.identifierAtom code name)) hg
  cases opcode with
  | loadConst dst index => exact works (look fun _ => Keeping.stepStore dst _)
  | loadUndefined dst | loadNull dst | loadBool dst _ => exact works (Keeping.stepStore dst _)
  | loadThis dst =>
    exact works (Keeping.bind (.works Keeping.currentFrame) fun _ => Keeping.stepStore dst _)
  | move dst src => exact works (look fun _ => Keeping.stepStore dst _)
  | binary op dst lhs rhs =>
    exact works (look fun _ => look fun _ => stored dst (.works (Keeping.applyBinary op _ _)))
  | unary op dst src => exact works (look fun _ => stored dst (.works (Keeping.applyUnary op _)))
  | jump target => exact works (Keeping.stepGoto target)
  | jumpIf sense cond target =>
    exact works (look fun _ => Keeping.ite (fun _ => Keeping.stepGoto target) fun _ => Keeping.ret _)
  | loop target =>
    exact works (Keeping.bind (.works Keeping.checkInterrupt) fun _ => Keeping.stepGoto target)
  | newObject dst => exact works (stored dst (.works Keeping.newObject))
  | newArray dst first count => exact works (look fun _ => stored dst (.works (Keeping.newArray _)))
  | getById dst base name cache =>
    exact works (look fun _ => named name fun a => stored dst (.works (Keeping.getById _ a _)))
  | putById base name value cache =>
    exact works (look fun _ => look fun _ => named name fun a =>
      done (.works (Keeping.putById _ a _ _)))
  | getByVal dst base key =>
    exact works (look fun _ => look fun _ => stored dst (.works (Keeping.getByVal _ _)))
  | putByVal base key value =>
    exact works (look fun _ => look fun _ => look fun _ => done (.works (Keeping.putByVal _ _ _)))
  | deleteById dst base name =>
    exact works (look fun _ => named name fun a => tested dst (Keeping.deleteById _ a))
  | hasProperty dst key base =>
    exact works (look fun _ => look fun _ => tested dst (Keeping.hasKey _ _))
  | instanceOf dst value constructor =>
    exact works (look fun _ => look fun _ => tested dst (Keeping.instanceOf _ _))
  | getGlobal dst name cache =>
    exact works (named name fun a => stored dst (.works (Keeping.getGlobalById a _)))
  | putGlobal name value cache =>
    exact works (named name fun a => look fun _ => done (.works (Keeping.putGlobalById a _ _)))
  | pushScope layout =>
    refine bind ((pushScope he hm layout hcode).mono (fun _ _ _ h => h)
      fun _ _ _ h => ⟨.inl h.1, h.2⟩) ?_
    rintro _ m' hm' ⟨ha, hb⟩
    exact ret hm' ⟨.inl ha, hb⟩
  | popScope =>
    obtain ⟨hm', ha, hb⟩ := hm.popScope
    refine bind (Q := fun _ m' => m.Advances m' ∧ m.Balanced m') (change hm' ⟨ha, hb⟩) ?_
    rintro _ m' hm' ⟨ha, hb⟩
    exact ret hm' ⟨.inl ha, hb⟩
  | getScopedVar dst depth index => exact works (look fun _ => Keeping.stepStore dst _)
  | putScopedVar depth index value =>
    exact works (look fun _ => done (.works (Keeping.setScopedVar depth index _)))
  | resolveName dst name =>
    exact works (named name fun a => stored dst (.works (Keeping.resolveName a)))
  | argumentsObject dst => exact works (stored dst (.works Keeping.argumentsObject))
  | newFunction dst function => exact works (stored dst (Keeping.newClosure function))
  | call dst _ _ _ _ _ | callMethod dst _ _ _ _ _ _ | construct dst _ _ _ _ =>
    refine (callOpcode he hm code (show Opcode.callResult? _ = some dst from rfl)).mono ?_ fun _ _ _ h => h
    rintro flow m' - ⟨⟨rfl, hc⟩, hb⟩
    exact ⟨hc.outcome, hb⟩
  | ret src => exact works (look fun _ => Keeping.ret _)
  | throw src => exact works (look fun _ => .works (Keeping.raise _))
  | catchInto dst => exact works (stored dst (.works Keeping.takeException))
  | debug line => exact works (done (.works (Keeping.notifyAt _ _ _)))

end Proceeds

end ScriptMachine
