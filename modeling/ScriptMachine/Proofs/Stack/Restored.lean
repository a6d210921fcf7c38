import ScriptMachine.Proofs.Stack.Requests

/-! # Calls leave the stacks as they found them

Whatever a call does, and however it ends, the frames and the registers are those that were there
before, and so are the stub frames and the nesting of calls from the host. A call that an interpreted
frame makes runs in the loop of its caller: when the callee returns, its frame is gone, and of the frame
and the window of the caller nothing has changed but the register of the result
(`Machine.Returns.stores`). Both are true in all machines that can be reached, in the middle of a run as
well, because all of them are orderly (`calls_restore_stacks`). -/

namespace ScriptMachine

open Machine

variable {m m' m'' : Machine} {f : Frame} {env : Env} {entryDepth mark depth : Nat} {dst : Register}

namespace Machine

/-- Nothing is left on the stacks, and nothing is missing. -/
structure Restored (m m' : Machine) : Prop where
  /-- The frames are the same, -/
  frames : m'.frames = m.frames
  /-- and so are the registers, which have their old values, -/
  registers : m'.registers = m.registers
  /-- the stub frames, -/
  stubFrames : m'.stubFrames = m.stubFrames
  /-- and the nesting of calls from the host. -/
  reentryDepth : m'.reentryDepth = m.reentryDepth

/-- **A run restores the stacks** if it ends, with a result or unwinding. -/
def Restores {α : Type} (m : Machine) : EStateM.Result Stop Machine α → Prop :=
  Concludes (fun _ m' => m.Restored m') fun _ m' => m.Restored m'

/-! ### Calls in the loop -/

/-- The next instruction of the running frame is a call whose result goes to a register. -/
def Calls (m : Machine) (f : Frame) (dst : Register) : Prop :=
  m.frame? = some f ∧ ∃ entry instruction, m.code? f.code = some entry ∧
    entry.block.instructions[f.pc.toNat]? = some instruction ∧
    instruction.opcode.callResult? = some dst

/-- Turns of the loop during which there are more than `depth` frames. -/
inductive Inside (env : Env) (entryDepth mark depth : Nat) : Machine → Machine → Prop
  /-- No turn. -/
  | refl (m : Machine) : Inside env entryDepth mark depth m m
  /-- One more turn. -/
  | turn {m m' m'' : Machine} : Inside env entryDepth mark depth m m' →
      turn entryDepth mark env m' = .ok none m'' → depth < m''.frames.size →
      Inside env entryDepth mark depth m m''

/-- **The callee of a call instruction returns normally.** -/
inductive Returns (env : Env) (entryDepth mark : Nat) (m : Machine) : Machine → Prop
  /-- The call is over with the instruction: a host function or tier code ran. -/
  | atOnce {m' : Machine} : instruction env m = .ok (some (.ok .next)) m' →
      m'.frames.size = m.frames.size → Returns env entryDepth mark m m'
  /-- The instruction pushes a frame, the loop goes on above the caller, and in the end the frame
  returns. -/
  | back {m₁ m₂ m₃ m' : Machine} {value : Value} : turn entryDepth mark env m = .ok none m₁ →
      m.frames.size < m₁.frames.size → Inside env entryDepth mark m.frames.size m₁ m₂ →
      m₂.frames.size = m.frames.size + 1 →
      instruction env m₂ = .ok (some (.ok (.ret value))) m₃ →
      settle entryDepth mark (.ok (.ret value)) env m₃ = .ok none m' →
      Returns env entryDepth mark m m'

/-- **Only a result is stored** in the window of the running frame, which moves on. -/
structure Stores (dst : Register) (f : Frame) (m m' : Machine) : Prop extends m.Balanced m' where
  frames : m'.frames = (m.setPc (f.pc + 1)).frames
  size : m'.registers.registers.size = m.registers.registers.size
  registers : ∀ i, i ≠ f.base + dst.toNat →
    m'.registers.registers[i]? = m.registers.registers[i]?

theorem frames_setRegister (m : Machine) (r : Register) (v : Value) :
    (m.setRegister r v).frames = m.frames := by
  unfold setRegister
  cases m.frame? with
  | none => rfl
  | some f =>
    dsimp only
    split <;> rfl

/-- Writing a register reaches no other one. -/
theorem registers_setRegister (hf : m.frame? = some f) (r : Register) (v : Value) :
    (m.setRegister r v).registers.registers.size = m.registers.registers.size ∧
      ∀ i, i ≠ f.base + r.toNat →
        (m.setRegister r v).registers.registers[i]? = m.registers.registers[i]? := by
  unfold setRegister
  rw [hf]
  dsimp only
  split
  · exact ⟨rfl, fun _ _ => rfl⟩
  · refine ⟨by simp [RegisterFile.set], fun i hi => ?_⟩
    exact Array.getElem?_setIfInBounds_ne (Ne.symm hi)

/-- The machine with a result that a call has left in it. -/
theorem Stores.of_still {mid : Machine} {v : Value} (hf : m.frame? = some f)
    (hs : (m.setPc (f.pc + 1)).Still mid) (hs' : (mid.setRegister dst v).Still m')
    (hb : m.Balanced m') : Stores dst f m m' := by
  have hmid : mid.frame? = some { f with pc := f.pc + 1 } := by
    rw [← frame?_modifyFrame (g := fun f' => { f' with pc := f.pc + 1 }) hf]
    unfold Machine.frame?
    rw [hs.frames]
    rfl
  obtain ⟨hsize, hsame⟩ := registers_setRegister hmid dst v
  refine ⟨hb, ?_, ?_, fun i hi => ?_⟩
  · rw [hs'.frames, frames_setRegister, hs.frames]
  · rw [hs'.registers, hsize, hs.registers]
    rfl
  · rw [hs'.registers, hsame i hi, hs.registers]
    rfl

end Machine

/-! ### The instruction that calls -/

namespace Proceeds

/-- **The instruction that calls**: the call is over or its frame runs, or it unwinds. -/
theorem callInstruction (he : env.Orderly) (hm : m.Orderly) (hc : m.Calls f dst)
    {E : Unwind → Machine → Prop} :
    Proceeds (ScriptMachine.instruction env m) (fun r m' => m.Balanced m' ∧ ∃ flow, r = some flow ∧
      m.Outcome m' flow ∧
      ((flow = .ok .next ∧ Invoked dst (m.setPc (f.pc + 1)) m') ∨ ∃ u, flow = .error u)) E := by
  obtain ⟨hf, entry, instruction, hcode, hi, hd⟩ := hc
  obtain ⟨hm₁, hw₁, hb₁⟩ := hm.setPc (f.pc + 1)
  refine pass hm (bind (Q := fun r m' => r = some (f.code, some instruction.opcode) ∧
    m' = m.setPc (f.pc + 1)) ?_ ?_)
  · rw [fetch_eq hf hcode hi]
    exact ⟨hm₁, rfl, rfl⟩
  · rintro _ _ - ⟨rfl, rfl⟩
    refine bind (callOpcode he hm₁ f.code hd).attempt ?_
    rintro flow m₂ hm₂ h
    cases flow with
    | ok flow =>
      obtain ⟨⟨rfl, hcalled⟩, hb₂⟩ := h
      exact ret hm₂ ⟨hb₁.trans hb₂, _, rfl, hcalled.outcome.after hw₁, .inl ⟨rfl, hcalled⟩⟩
    | error u =>
      obtain ⟨ho, hb₂⟩ := h
      exact ret hm₂ ⟨hb₁.trans hb₂, _, rfl, ho.after hw₁, .inr ⟨u, rfl⟩⟩

/-- A turn that pushes a frame for a call. -/
theorem callTurn (he : env.Orderly) (hm : m.Orderly) (hd : entryDepth < m.frames.size)
    (hc : m.Calls f dst) (mark : Nat) :
    Proceeds (ScriptMachine.turn entryDepth mark env m) (fun _ m' => m.Balanced m' ∧
      (m.frames.size < m'.frames.size → Keeps m.frames.size (m.setPc (f.pc + 1)) m' ∧
        ∃ g, m'.frames = (m.setPc (f.pc + 1)).frames.push g ∧ g.returnRegister = some dst))
      fun _ _ => True := by
  refine bind (callInstruction he hm hc) ?_
  rintro r m₁ hm₁ ⟨hb₁, flow, rfl, ho, ⟨rfl, hcalled⟩ | ⟨u, rfl⟩⟩
  · refine bind (truncate hm₁ mark) ?_
    rintro _ m₂ hm₂ ⟨hs₂, hb₂⟩
    refine ret hm₂ ⟨hb₁.trans hb₂, fun hgrown => ?_⟩
    have hcount : (m.setPc (f.pc + 1)).frames.size = m.frames.size := by
      simp [setPc, Machine.modifyFrame]
    rw [hs₂.frames] at hgrown ⊢
    rcases hcalled with ⟨mid, v, -, hs, rfl⟩ | ⟨hp, g, hframes, hg⟩
    · rw [frames_setRegister, hs.frames, hcount] at hgrown
      exact absurd hgrown (Nat.lt_irrefl _)
    · have hkeeps := hp.keeps
      rw [hcount] at hkeeps
      exact ⟨hkeeps.trans (hs₂.keeps _), g, hframes, hg⟩
  · -- an exception reaches a handler of the caller at the nearest
    obtain ⟨-, hsize⟩ := ho.keeps
    refine bind (handleUnwind he hm₁ (Nat.lt_of_lt_of_le hd hsize) u).attempt ?_
    intro r m₂ hm₂ hr
    cases r with
    | error u' =>
      refine bind (Q := fun _ _ => True) ((Keeping.modifyHeap (fun h => ?_) env m₂ he hm₂).mono
        (fun _ _ _ _ => trivial) fun _ _ _ _ => trivial) fun _ m₃ hm₃ _ => unwind hm₃ trivial
      cases u' with
      | throw value =>
        exact (Heap.retains_truncateTemporaries h mark).trans (Heap.retains_pushTemporary _ value)
      | fatal _ => exact Heap.retains_truncateTemporaries h mark
    | ok _ =>
      obtain ⟨⟨v, rfl, i, g, handler, -, hto⟩, hb₂⟩ := hr
      have hi := (Array.getElem?_eq_some_iff.mp hto.frame).1
      rw [(ho.advances (by simp) (by simp)).size] at hi
      refine bind (truncate hm₂ mark) ?_
      rintro _ m₃ hm₃ ⟨hs₃, hb₃⟩
      refine ret hm₃ ⟨(hb₁.trans hb₂).trans hb₃, fun hgrown => ?_⟩
      rw [hs₃.frames, hto.size] at hgrown
      omega

end Proceeds

namespace Machine

/-- What the frames above the caller leave of it, and of their own frame. -/
theorem Inside.keeps (he : env.Orderly) (hm : m.Orderly) (hd : entryDepth ≤ depth)
    (hdepth : depth < m.frames.size) (hi : Inside env entryDepth mark depth m m') :
    m'.Orderly ∧ depth < m'.frames.size ∧ Keeps depth m m' ∧ m.Balanced m' ∧
      (m'.frames[depth]?).map Frame.call = (m.frames[depth]?).map Frame.call := by
  induction hi with
  | refl => exact ⟨hm, hdepth, .refl _ _, .refl _, rfl⟩
  | turn _ hturn hsize ih =>
    obtain ⟨hm', hd', hk, hb, hcall⟩ := ih
    have hp := Proceeds.turn he hm' (show entryDepth < _ by omega) mark
    rw [hturn] at hp
    obtain ⟨hm'', ⟨ht, -⟩, hb'⟩ := hp
    refine ⟨hm'', hsize, hk.trans (ht.keeps.mono (by omega)), hb.trans hb', ?_⟩
    obtain ⟨g', hg', hcall', -⟩ := ht.getElem? (Array.getElem?_eq_getElem hd') hsize
    rw [← hcall, hg', Array.getElem?_eq_getElem hd', Option.map_some, Option.map_some, hcall']

/-- **A call instruction whose callee returns normally** changes nothing in the frame and the window of
the caller but the register of its result. -/
theorem Returns.stores (he : env.Orderly) (hm : m.Orderly) (hd : entryDepth < m.frames.size)
    (hc : m.Calls f dst) (hr : Returns env entryDepth mark m m') : Stores dst f m m' := by
  obtain ⟨hm₀, -, hb₀⟩ := hm.setPc (f.pc + 1)
  have hcount : (m.setPc (f.pc + 1)).frames.size = m.frames.size := by
    simp [setPc, Machine.modifyFrame]
  cases hr with
  | atOnce hinstruction hsize =>
    have hp := Proceeds.callInstruction (E := fun _ _ => True) he hm hc
    rw [hinstruction] at hp
    obtain ⟨hm', hb, flow, hflow, -, hcalled⟩ := hp
    obtain rfl := Option.some.inj hflow
    rcases hcalled with ⟨-, ⟨mid, v, -, hs, rfl⟩ | ⟨hpushed, -⟩⟩ | ⟨u, hu⟩
    · exact .of_still hc.1 hs (.refl _) hb
    · have := hpushed.size
      omega
    · cases hu
  | @back m₁ m₂ m₃ _ value hturn hgrown hinside htop hinstruction hsettle =>
    -- the frame of the callee is pushed
    have hp₁ := Proceeds.callTurn he hm hd hc mark
    rw [hturn] at hp₁
    have hm₁ : m₁.Orderly := hp₁.orderly
    obtain ⟨hb₁, hpushed⟩ := hp₁.ends
    obtain ⟨hk₁, g, hframes, hg⟩ := hpushed hgrown
    -- the frames above the caller run, and that of the callee is left
    obtain ⟨hm₂, -, hk₂, hb₂, hcall₂⟩ := hinside.keeps he hm₁ (Nat.le_of_lt hd) hgrown
    rw [show m₁.frames[m.frames.size]? = some g by
      rw [hframes, ← hcount, Array.getElem?_push_size]] at hcall₂
    -- it returns, and its result goes to the register of the call
    have hp₃ := Proceeds.instruction (E := fun _ _ => True) he hm₂
    rw [hinstruction] at hp₃
    have hm₃ : m₃.Orderly := hp₃.orderly
    obtain ⟨hb₃, ho⟩ := hp₃.ends
    have ha := Outcome.advances ho (by simp) (by simp)
    have hdst : m₃.frame?.bind (·.returnRegister) = some dst := by
      have hcall₃ := ha.frame?
      rw [frame?, frame?, Array.back?_eq_getElem?, Array.back?_eq_getElem?, htop,
        Nat.add_sub_cancel, hcall₂] at hcall₃
      obtain ⟨g₃, hg₃, hcall⟩ := Option.map_eq_some_iff.mp hcall₃
      rw [frame?, Array.back?_eq_getElem?, hg₃, ← hg]
      change g₃.call.returnRegister = g.call.returnRegister
      rw [hcall]
    have hp' : Proceeds (settle entryDepth mark (.ok (.ret value)) env m₃) _ _ :=
      Proceeds.settleReturn he hm₃ mark value (E := fun _ _ => True)
    rw [hsettle] at hp'
    obtain ⟨hb', mid, hmid, hpop, -, result, hs'⟩ := hp'.ends
    rw [hdst] at hs'
    have hsize₃ : m₃.frames.size - 1 = m.frames.size := by
      rw [ha.size]
      omega
    have hkeeps : Keeps m.frames.size (m.setPc (f.pc + 1)) mid := by
      have ha := ha.keeps.mono (d := m.frames.size) (by omega)
      have hpop : Cut (m₃.frames.size - 1) m₃ mid := hpop
      exact ((hk₁.trans hk₂).trans ha).trans (hpop.keeps.mono (Nat.le_of_eq hsize₃.symm))
    have hstill : (m.setPc (f.pc + 1)).Still mid := by
      rw [← hcount] at hkeeps
      refine hkeeps.still ?_ hm₀.stacked hmid.stacked
      rw [hcount, ← hsize₃]
      exact hpop.size
    exact .of_still hc.1 hstill hs' (((hb₁.trans hb₂).trans hb₃).trans hb')

end Machine

/-! ### All calls -/

/-- Runs of restful actions restore the stacks. -/
theorem Keeping.restores {α : Type} {x : MachineM α} (hx : Keeping Rests x) (hm : m.Orderly)
    (pause : Machine → List Value → Bool) (fuel : Nat) :
    m.Restores (m.evalPausing pause fuel x) := by
  have hends := (hx _ m (orderly_perform pause fuel) hm).ends
  unfold Restores evalPausing
  generalize x _ m = r at hends ⊢
  cases r with
  | ok value m' => exact ⟨hends.1.frames, hends.1.registers, hends.2.stubFrames, hends.2.reentryDepth⟩
  | error stop m' =>
    cases stop with
    | unwound u => exact ⟨hends.1.frames, hends.1.registers, hends.2.stubFrames, hends.2.reentryDepth⟩
    | exhausted => trivial
    | paused held => trivial

/-- **Calls leave the stacks as they found them.** In every machine that can be reached, also in the
middle of a request, the windows of the frames tile the register file and nothing is past its bound.
From there, whatever a call, a construction, a program or a call stub does, and however it ends, it
restores the stacks; and a call instruction whose callee returns normally stores its result and changes
nothing else for its caller. Host functions and listeners are any `HostProgram`s. -/
theorem calls_restore_stacks :
    (∀ m : Machine, m.Reached → m.Stacked ∧ m.Orderly) ∧
    ∀ m : Machine, m.Orderly → ∀ (pause : Machine → List Value → Bool) (fuel : Nat),
      (∀ function this args, m.Restores (m.evalPausing pause fuel (call function this args))) ∧
      (∀ function args, m.Restores (m.evalPausing pause fuel (construct function args))) ∧
      (∀ block, m.Restores (m.evalPausing pause fuel (runProgram block))) ∧
      (∀ words, m.Restores (m.evalPausing pause fuel (callStub .call words))) ∧
      (∀ words, m.Restores (m.evalPausing pause fuel (callStub .construct words))) ∧
      ∀ entryDepth mark f dst m', entryDepth < m.frames.size → m.Calls f dst →
        Returns { reenter := perform pause fuel, fuel, pause } entryDepth mark m m' →
        Stores dst f m m' := by
  refine ⟨fun m hm => ⟨hm.orderly.stacked, hm.orderly⟩, fun m hm pause fuel =>
    ⟨fun _ _ _ => ?_, fun _ _ => ?_, fun _ => ?_, fun _ => ?_, fun _ => ?_, ?_⟩⟩
  · exact (Keeping.rests (Keeping.call _ _ _)).restores hm pause fuel
  · exact (Keeping.rests (Keeping.construct _ _)).restores hm pause fuel
  · exact (Keeping.runProgram _).restores hm pause fuel
  · exact (Keeping.rests (Keeping.callStub _ fun f => Keeping.runRoutine f rfl)).restores hm pause fuel
  · exact (Keeping.rests (Keeping.callStub _ fun f => Keeping.runRoutine f rfl)).restores hm pause fuel
  · exact fun _ _ _ _ _ hd hc hr => hr.stores (orderly_perform pause fuel) hm hd hc

/-- A program that is about to call a function, which loads null and ends with an instruction. The program
returns what the function returns or throws. -/
def calling (last : Opcode) : Machine where
  config := {}
  heap := ((Heap.new {}).allocate ⟨0⟩
    (.function { target := .script ⟨1⟩, scope := none, name := none, arity := 0 })).2
  codes :=
    let entry (block : Block) : CodeEntry :=
      { block, atoms := #[], constants := #[], functions := #[], variableNames := #[]
        scopeLayouts := #[], caches := .new 0 1 }
    #[entry { instructions := #[⟨.call 1 0 0 0 0 0, none⟩, ⟨.ret 1, none⟩, ⟨.catchInto 1, none⟩,
                ⟨.ret 1, none⟩]
              handlers := [⟨0, 1, 2, 0⟩], registerCount := 2 },
      entry { instructions := #[⟨.loadNull 0, none⟩, ⟨last, none⟩], registerCount := 1 }]
  registers := { registers := #[.cell ⟨0, 0⟩, .undefined], capacity := 10 }
  frames := #[{ code := ⟨0⟩, pc := 0, base := 0, registerCount := 2, varCount := 0
                returnRegister := none, argc := 0, extraArgs := #[], callee := .undefined
                this := .undefined, scope := none, activation := none, scopeDepth := 0
                isConstruct := false, entryBoundary := true }]
  intrinsics := default
  names := default
  watchdog := .new none 1

theorem orderly_calling (last : Opcode) : (calling last).Orderly := by
  have hheap : (calling last).heap.Regular :=
    (Heap.Built.allocate _ _ (.new {}) fun _ => by decide).regular
  have htop {f : Frame} (hf : f ∈ (calling last).frames) : f.scopeDepth = 0 := by
    obtain rfl := List.mem_singleton.mp (Array.mem_def.mp hf)
    rfl
  refine ⟨⟨fun i f hf => ?_, rfl, by change 1 ≤ 1000; decide, by change 2 ≤ 10; decide,
      by change 0 ≤ 128; decide⟩,
    ⟨fun entry hmem l hl => ?_, fun f hf hd => absurd (htop hf) hd⟩,
    ⟨hheap.white, fun _ => hheap.listed, fun _ f hf => ⟨[], .nil, ?_, trivial⟩⟩,
    ⟨fun entry hmem => ?_, fun listener hmem => ?_⟩⟩
  · obtain ⟨hi, hget⟩ := Array.getElem?_eq_some_iff.mp hf
    obtain rfl : i = 0 := Nat.lt_one_iff.mp hi
    rw [← hget]
    rfl
  · have : ∀ entry ∈ (calling last).codes.toList, entry.compiled = none := by
      simp [calling]
    rw [this entry (Array.mem_def.mp hmem)] at hl
    cases hl
  · rw [htop hf]
    rfl
  · cases Array.mem_def.mp hmem
  · cases Array.mem_def.mp hmem

/-- A machine after a turn. -/
def Machine.turned (m : Machine) : Machine :=
  leaves (turn 0 0 { reenter := perform (fun _ _ => false) 0, fuel := 0 } m)

/-- The function returns null: the call stores it in register 1, and nothing else changes for the
program. -/
theorem calls_restore_stacks_calling : ∃ m f m', m.Orderly ∧ m.Calls f 1 ∧ Stores 1 f m m' ∧
    m'.register 1 = .null := by
  let env : Env := { reenter := perform (fun _ _ => false) 0, fuel := 0, pause := fun _ _ => false }
  have hcalls : (calling (.ret 0)).Calls (calling (.ret 0)).frames[0] 1 :=
    ⟨rfl, (calling (.ret 0)).codes[0], _, rfl, rfl, rfl⟩
  have hinside : Inside env 0 0 1 (calling (.ret 0)).turned (calling (.ret 0)).turned.turned :=
    .turn (.refl _) rfl (by decide +kernel)
  have hreturns : Returns env 0 0 (calling (.ret 0))
      (leaves (settle 0 0 (.ok (.ret .null)) env
        (leaves (instruction env (calling (.ret 0)).turned.turned)))) :=
    .back (show turn 0 0 env (calling (.ret 0)) = .ok none (calling (.ret 0)).turned from rfl)
      (by decide +kernel) hinside rfl rfl rfl
  obtain ⟨-, -, -, -, -, hstores⟩ :=
    calls_restore_stacks.2 (calling (.ret 0)) (orderly_calling _) (fun _ _ => false) 0
  exact ⟨_, _, _, orderly_calling _, hcalls, hstores 0 0 _ 1 _ (by decide) hcalls hreturns,
    by decide +kernel⟩

end ScriptMachine
