import ScriptMachine.Proofs.Progress.Interpreter
import ScriptMachine.Proofs.Stack.Loop

/-! # The loop of intact machines

Between two turns of the loop, every frame of the loop is at an instruction of its code
(`Machine.Poised`): frames that wait for a callee were set to the next instruction when they called, and
a call is no terminator. While an exception looks for a handler, the last frame alone may be past the end
(`Machine.Aloft`), and a handler has a target. So every turn finds its instruction
(`Machine.Poised.fetch`), and the loop leaves the frames below its own where they are
(`Goes.runLoop`). -/

namespace ScriptMachine

open Machine

variable {m m' m'' : Machine} {f s top : Frame} {entry : CodeEntry} {base below spots : List Frame}

namespace Machine

/-! ### Frames at instructions -/

/-- **The frame is at an instruction** of its code. -/
def Ready (m : Machine) (s : Frame) : Prop :=
  ∃ entry, m.code? s.code = some entry ∧ s.pc.toNat < entry.block.instructions.size

/-- Above the others, there are frames at their instructions, and a last one that may be past the end. -/
def Aloft (base : List Frame) (m m' : Machine) : Prop :=
  ∃ below top, m.Stands (base ++ (below ++ [top])) m' ∧ ∀ s ∈ below, m.Ready s

/-- **The loop goes on**: above the others, there are frames that are all at their instructions. -/
def Poised (base : List Frame) (m m' : Machine) : Prop :=
  ∃ below top, m.Stands (base ++ (below ++ [top])) m' ∧ (∀ s ∈ below, m.Ready s) ∧ m.Ready top

theorem Stands.ready (h : m.Stands spots m') (hs : m.Ready s) : m'.Ready s := by
  obtain ⟨entry, hcode, hlt⟩ := hs
  obtain ⟨entry', hcode', hfixed⟩ := h.code? hcode
  have hblock : entry'.block = entry.block := (congrArg CodeEntry.block hfixed :)
  exact ⟨entry', hcode', by rwa [hblock]⟩

/-- Code that is the same was the same. -/
theorem Stands.back (h : m.Stands spots m') : m'.Stands m.spots m := ⟨rfl, h.hosts.symm, h.codes.symm⟩

theorem Stands.aloft (h : m.Stands spots m') (ha : m'.Aloft base m'') : m.Aloft base m'' := by
  obtain ⟨below, top, h', hbelow⟩ := ha
  exact ⟨below, top, h.trans h', fun s hs => h.back.ready (hbelow s hs)⟩

theorem Stands.poised (h : m.Stands spots m') (hp : m'.Poised base m'') : m.Poised base m'' := by
  obtain ⟨below, top, h', hbelow, htop⟩ := hp
  exact ⟨below, top, h.trans h', fun s hs => h.back.ready (hbelow s hs), h.back.ready htop⟩

theorem Poised.calm (hp : m.Poised base m') (hc : m'.Calm m'') : m.Poised base m'' := by
  obtain ⟨below, top, h, hready⟩ := hp
  exact ⟨below, top, h.calm hc, hready⟩

/-- What is poised is poised by itself. -/
theorem Poised.here (hp : m.Poised base m') : m'.Poised base m' := by
  obtain ⟨below, top, h, -⟩ := id hp
  exact h.back.poised hp

theorem Stands.moved (h : m.Stands (spots ++ [s]) m') (pc : UInt32) :
    m.Stands (spots ++ [{ s with pc }]) (m'.setPc pc) := by
  obtain ⟨f, hf, rfl⟩ := h.running
  obtain ⟨below, hframes⟩ := frame?_eq_some.mp hf
  have hspots := h.spots
  simp only [Machine.spots, hframes, Array.toList_push, List.map_append, List.map_cons, List.map_nil,
    List.append_cancel_right_eq] at hspots
  refine ⟨?_, h.hosts, h.codes⟩
  simp [Machine.spots, Machine.setPc, frames_modifyFrame hframes, hspots, Frame.spot]

/-- **The first instruction** of code that is registered. -/
theorem Intact.ready_start (hm : m.Intact) (hf : m.frame? = some f) (hpc : f.pc = 0) :
    m.Ready f.spot := by
  obtain ⟨entry, hcode, hcomplete⟩ := hm.frameCode hf
  obtain ⟨_, _, hconsistent⟩ := hcomplete.consistent
  obtain ⟨last, hlast, -⟩ := hconsistent.terminated
  refine ⟨entry, hcode, ?_⟩
  change f.pc.toNat < _
  rw [hpc]
  obtain ⟨xs, hxs⟩ := Array.back?_eq_some_iff.mp hlast
  change entry.block.instructions = _ at hxs
  simp [hxs]

/-- **A frame that has just been pushed** is poised. -/
theorem Intact.poised_entered (hm : m.Intact) (he : m.Entered) (hspots : m.spots = spots) :
    m.Poised spots.dropLast m := by
  obtain ⟨f, hf, hpc⟩ := he
  obtain ⟨below, hframes⟩ := frame?_eq_some.mp hf
  have hbelow : m.spots = below.toList.map Frame.spot ++ [f.spot] := by simp [Machine.spots, hframes]
  refine ⟨[], f.spot, ⟨?_, rfl, rfl⟩, by simp, hm.ready_start hf hpc⟩
  rw [← hspots, hbelow, List.dropLast_concat]
  rfl

/-- There is an instruction after one that is no terminator. -/
theorem Complete.next_lt (hc : m.Complete entry) {pc : UInt32} {instruction : Instruction}
    (hi : entry.block.instructions[pc.toNat]? = some instruction)
    (ht : instruction.opcode.isTerminator = false) :
    (pc + 1).toNat < entry.block.instructions.size := by
  obtain ⟨_, _, hconsistent⟩ := hc.consistent
  obtain ⟨last, hlast, hterminator⟩ := hconsistent.terminated
  change entry.block.instructions.back? = some last at hlast
  have hlt := (Array.getElem?_eq_some_iff.mp hi).1
  have hne : pc.toNat ≠ entry.block.instructions.size - 1 := by
    intro heq
    rw [Array.back?_eq_getElem?, ← heq, hi] at hlast
    obtain rfl := Option.some.inj hlast
    rw [ht] at hterminator
    cases hterminator
  have hle : (pc + 1).toNat ≤ pc.toNat + 1 := by
    rw [UInt32.toNat_add]
    exact Nat.mod_le _ _
  omega

/-- **A turn finds its instruction**, and the operands are found as well. -/
theorem Poised.fetch (hm : m.Intact) (hp : m.Poised base m) :
    ∃ f entry instruction, m.frame? = some f ∧ m.code? f.code = some entry ∧
      entry.block.instructions[f.pc.toNat]? = some instruction ∧
      ∀ operand ∈ instruction.opcode.operands, operand.Found entry := by
  obtain ⟨below, top, h, -, entry, hcode, hlt⟩ := hp
  rw [← List.append_assoc] at h
  obtain ⟨f, hf, rfl⟩ := h.running
  exact ⟨f, entry, _, hf, hcode, Array.getElem?_eq_getElem hlt,
    (hm.code? hcode).operands (Array.getElem_mem hlt)⟩

/-- **Where an instruction goes** from a frame of the loop, there are instructions. -/
theorem Follows.poised (hm' : m'.Intact) {instruction : Instruction} (hc : m.Complete entry)
    (hcode : m.code? top.code = some entry)
    (hi : entry.block.instructions[top.pc.toNat]? = some instruction)
    (h : m.Stands (base ++ (below ++ [{ top with pc := top.pc + 1 }])) m)
    (hbelow : ∀ s ∈ below, m.Ready s) (hf : m.Follows instruction.opcode m') : m.Poised base m' := by
  cases hf with
  | next ht hcalm =>
    exact ⟨below, _, h.calm hcalm, hbelow, entry, hcode, hc.next_lt hi ht⟩
  | @jump target ht hcalm =>
    have hfound := hc.operands (Array.mem_of_getElem? hi) _ (Block.target_mem_operands ht)
    rw [← List.append_assoc] at h
    have := (h.moved target).calm hcalm
    rw [List.append_assoc] at this
    exact ⟨below, _, this, hbelow, entry, hcode, hfound⟩
  | @call s ht hs hpushed =>
    obtain ⟨g, hg, rfl⟩ := hpushed.running
    have hready : m.Ready g.spot := hpushed.back.ready (hm'.ready_start hg hs)
    refine ⟨below ++ [{ top with pc := top.pc + 1 }], g.spot, ?_, ?_, hready⟩
    · rw [h.spots] at hpushed
      rwa [← List.append_assoc]
    · intro s hs
      rcases List.mem_append.mp hs with hs | hs
      · exact hbelow s hs
      · obtain rfl := List.mem_singleton.mp hs
        exact ⟨entry, hcode, hc.next_lt hi ht⟩

end Machine

namespace Goes

variable {env : Env} {E : Unwind → Machine → Prop}

/-! ### Unwinding -/

/-- **An exception looks for a handler** among the frames of the loop: the loop goes on there, or its
frames are gone. -/
theorem unwindFrames (he : env.Faithful) (hm : m.Intact) (value : Value) {count : Nat}
    (h : m.Stands (base ++ (below ++ [top])) m) (hbelow : ∀ s ∈ below, m.Ready s)
    (hcount : below.length < count) :
    Goes m (unwindFrames base.length value count env m) (fun _ m' => m.Poised base m')
      fun u m' => m.Stands base m' ∧ u = .throw value := by
  induction count generalizing m below top with
  | zero => exact absurd hcount (Nat.not_lt_zero _)
  | succ count ih =>
    refine bind (enterHandler hm value) ?_
    intro target m₁ hm₁ h₁
    cases target with
    | some target =>
      obtain ⟨hc, f, entry, handler, hf, hcode, hmem, rfl⟩ := h₁
      refine ret hm₁ ?_
      rw [← List.append_assoc] at h
      obtain ⟨f', hf', rfl⟩ := h.running
      obtain rfl := Option.some.inj (hf.symm.trans hf')
      obtain ⟨_, _, hconsistent⟩ := (hm.code? hcode).consistent
      have := (h.moved handler.target).calm hc
      rw [List.append_assoc] at this
      exact ⟨below, _, this, hbelow, entry, hcode, (hconsistent.handlers handler hmem).2.2⟩
    | none =>
      obtain rfl := h₁
      refine look ?_
      have hpop : Goes m₁ ((ScriptMachine.popFrame >>= fun _ => pure ()) env m₁)
          (fun _ m' => m₁.Stands (base ++ below) m')
          fun u m' => m₁.Stands base m' ∧ u = .throw value := by
        refine bind (popFrame he hm₁) fun _ m' hm' h' => ret hm' ?_
        rwa [h.spots, ← List.append_assoc, List.dropLast_concat] at h'
      refine bind hpop ?_
      intro _ m₂ hm₂ h₂
      have hsize : m₁.frames.size - 1 = base.length + below.length := by
        rw [← length_spots, h.spots]
        simp
      rw [hsize]
      rcases List.eq_nil_or_concat' below with rfl | ⟨below', top', rfl⟩
      · refine ite (fun _ => ?_) fun hlt => absurd (by simp) hlt
        rw [List.append_nil] at h₂
        exact unwind hm₂ ⟨h₂, rfl⟩
      · refine ite (fun hle => absurd hle (by simp)) fun _ => ?_
        have hbelow' : ∀ s ∈ below', m₂.Ready s := fun s hs =>
          h₂.ready (hbelow s (by simp [hs]))
        rw [List.length_append, List.length_singleton, Nat.add_lt_add_iff_right] at hcount
        refine (ih hm₂ (h₂.back.trans h₂) hbelow' hcount).mono ?_ ?_
        · exact fun _ m₃ _ hp => h₂.poised hp
        · exact fun _ m₃ _ h₃ => ⟨h₂.trans h₃.1, h₃.2⟩

/-- **What unwinds**: the loop goes on at a handler, or its frames are gone. -/
theorem handleUnwind (he : env.Faithful) (hm : m.Intact) (ha : m.Aloft base m) (u : Unwind) :
    Goes m (handleUnwind base.length u env m) (fun _ m' => m.Poised base m')
      fun u' m' => m.Stands base m' ∧ u' = u := by
  obtain ⟨below, top, h, hbelow⟩ := ha
  have hsize : m.frames.size = base.length + (below.length + 1) := by
    rw [← length_spots, h.spots]
    simp
  cases u with
  | fatal failure =>
    refine bind (popFramesTo he hm (by omega)) fun _ m₁ hm₁ h₁ => unwind hm₁ ⟨?_, rfl⟩
    rwa [h.spots, List.take_left] at h₁
  | throw value =>
    exact look (unwindFrames he hm value h hbelow (by omega))

/-! ### Turns -/

/-- Releasing temporaries. -/
theorem truncate (hm : m.Intact) (mark : Nat) :
    Goes m (ScriptMachine.modifyHeap (·.truncateTemporaries mark) env m) (fun _ m' => m.Calm m') E :=
  (modifyHeap hm (Heap.retains_truncateTemporaries m.heap mark)).mono (fun _ _ _ h => h.calm)
    fun _ _ _ h => h

/-- **The instruction of the running frame**, and what is left after it. -/
theorem instruction (he : env.Faithful) (hm : m.Intact) (hp : m.Poised base m) :
    Goes m (instruction env m) (fun r m' => ∃ flow, r = some flow ∧ match flow with
      | .ok .next => m.Poised base m'
      | .ok (.ret _) => m.Aloft base m'
      | .error u => m.Aloft base m' ∧ (m.Candid → u.Innocent)) E := by
  obtain ⟨f, entry, instruction, hf, hcode, hi, hfound⟩ := hp.fetch hm
  obtain ⟨below, top, h, hbelow, -⟩ := hp
  rw [← List.append_assoc] at h
  obtain ⟨f', hf', rfl⟩ := h.running
  obtain rfl := Option.some.inj (hf.symm.trans hf')
  let m₁ := m.setPc (f.pc + 1)
  have hm₁ : m₁.Intact := (hm.arrives_setPc _).intact hm
  have h₁ := h.moved (f.pc + 1)
  rw [List.append_assoc] at h₁
  refine pass hm ?_
  have hfetch : fetch env m = .ok (some (f.code, some instruction.opcode)) m₁ := fetch_eq hf hcode hi
  refine bind (Q := fun r m' => r = some (f.code, some instruction.opcode) ∧ m' = m₁) ?_ ?_
  · rw [hfetch]
    exact ⟨hm.arrives_setPc _, hm₁, rfl, rfl⟩
  · rintro _ _ - ⟨rfl, rfl⟩
    -- frames that wait stay at their instructions, whatever the instruction did
    have hbelow₁ : ∀ s ∈ below, m₁.Ready s := fun s hs => h₁.ready (hbelow s hs)
    have hself : m₁.Stands (base ++ (below ++ [{ f.spot with pc := f.pc + 1 }])) m₁ := h₁.back.trans h₁
    have hposed {m₂ : Machine} (hm₂ : m₂.Intact) (hfo : m₁.Follows instruction.opcode m₂) :
        m₁.Poised base m₂ := by
      have hcode₁ : m₁.code? f.spot.code = some entry := hcode
      have hi₁ : entry.block.instructions[f.spot.pc.toNat]? = some instruction := hi
      exact hfo.poised hm₂ (hm₁.code? hcode) hcode₁ hi₁ hself hbelow₁
    have hcalm {m₂ : Machine} (hc : m₁.Calm m₂) : m.Aloft base m₂ := ⟨below, _, h₁.calm hc, hbelow⟩
    refine bind (opcode he hm₁ (frame?_setPc hf _) hcode hfound).attempt ?_
    intro flow m₂ hm₂ hflow
    refine ret hm₂ ⟨flow, rfl, ?_⟩
    match flow with
    | .ok .next => exact h₁.poised (hposed hm₂ hflow)
    | .ok (.ret _) => exact hcalm hflow
    | .error u =>
      obtain ⟨hc | hfo, hu⟩ := hflow
      · exact ⟨hcalm hc, fun hc => hu (h₁.candid hc)⟩
      · obtain ⟨below₂, top₂, h₂, hb₂, -⟩ := h₁.poised (hposed hm₂ hfo)
        exact ⟨⟨below₂, top₂, h₂, hb₂⟩, fun hc => hu (h₁.candid hc)⟩

/-- **The running frame returns** to a frame of the loop, or the loop is done. -/
theorem settleReturn (he : env.Faithful) (hm : m.Intact) (ha : m.Aloft base m) (mark : Nat)
    (value : Value) : Goes m (settleReturn base.length mark value env m)
      (fun r m' => match r with
        | none => m.Poised base m'
        | some _ => m.Stands base m') E := by
  obtain ⟨below, top, h, hbelow⟩ := ha
  have hsize : m.frames.size - 1 = base.length + below.length := by
    rw [← length_spots, h.spots]
    simp
  refine look (bind (finishReturn he hm value) ?_)
  rintro ⟨result, register⟩ m₁ hm₁ h₁
  rw [h.spots, ← List.append_assoc, List.dropLast_concat] at h₁
  rw [hsize]
  rcases List.eq_nil_or_concat' below with rfl | ⟨below', top', rfl⟩
  · refine ite (fun _ => ?_) fun hlt => absurd (by simp) hlt
    rw [List.append_nil] at h₁
    refine bind (modifyHeap hm₁ ((Heap.retains_truncateTemporaries m₁.heap mark).trans
      (Heap.retains_pushTemporary _ result))) ?_
    exact fun _ m₂ hm₂ hq => ret hm₂ (h₁.calm hq.calm)
  · refine ite (fun hle => absurd hle (by simp)) fun _ => ?_
    have hstored : m₁.Arrives (register.elim m₁ (m₁.setRegister · result)) ∧
        m₁.Calm (register.elim m₁ (m₁.setRegister · result)) := by
      cases register with
      | none => exact ⟨.refl m₁, .refl m₁⟩
      | some r => exact arrives_setRegister m₁ r result
    obtain ⟨ha₂, hc₂⟩ := hstored
    obtain ⟨ha₃, hq₃⟩ := arrives_heap (m := register.elim m₁ (m₁.setRegister · result))
      (Heap.retains_truncateTemporaries _ mark)
    refine bind (Q := fun _ m' => m₁.Calm m') ?_ fun _ m₂ hm₂ hc => ret hm₂ ?_
    · cases register <;> exact change hm₁ (ha₂.trans ha₃) (hc₂.calm hq₃.calm)
    · refine ⟨below', top', h₁.calm hc, fun s hs => hbelow s (by simp [hs]), hbelow top' (by simp)⟩

/-- **One turn of the loop.** -/
theorem turn (he : env.Faithful) (hm : m.Intact) (hp : m.Poised base m) (mark : Nat) :
    Goes m (turn base.length mark env m)
      (fun r m' => match r with
        | none => m.Poised base m'
        | some _ => m.Stands base m')
      fun u m' => m.Stands base m' ∧ (m.Candid → u.Innocent) := by
  refine bind (instruction he hm hp) ?_
  rintro _ m₁ hm₁ ⟨flow, rfl, hflow⟩
  match flow with
  | .ok .next =>
    refine bind (truncate hm₁ mark) fun _ m₂ hm₂ hc => ret hm₂ (Poised.calm hflow hc)
  | .ok (.ret value) =>
    obtain ⟨below, top, h, hbelow⟩ := hflow
    refine (settleReturn he hm₁ (h.back.aloft ⟨below, top, h, hbelow⟩) mark value).mono
      (fun r m₂ _ hr => ?_) fun _ _ _ h => h
    cases r with
    | none => exact h.poised hr
    | some _ => exact h.trans hr
  | .error u =>
    obtain ⟨⟨below, top, h, hbelow⟩, hu⟩ := hflow
    refine bind (handleUnwind he hm₁ (h.back.aloft ⟨below, top, h, hbelow⟩) u).attempt ?_
    intro r m₂ hm₂ hr
    cases r with
    | ok _ =>
      refine bind (truncate hm₂ mark) fun _ m₃ hm₃ hc => ret hm₃ ?_
      exact (h.poised hr).calm hc
    | error u' =>
      obtain ⟨h₂, rfl⟩ := hr
      refine bind (modifyHeap hm₂ ?_) fun _ m₃ hm₃ hq => unwind hm₃ ⟨(h.trans h₂).calm hq.calm, hu⟩
      cases u' with
      | throw value =>
        exact (Heap.retains_truncateTemporaries m₂.heap mark).trans (Heap.retains_pushTemporary _ value)
      | fatal _ => exact Heap.retains_truncateTemporaries m₂.heap mark

/-- **The loop** leaves its frames, however it ends. -/
theorem runLoop (he : env.Faithful) (hm : m.Intact) (hp : m.Poised base m) (mark fuel : Nat) :
    Goes m (runLoop base.length mark fuel env m) (fun _ m' => m.Stands base m')
      fun u m' => m.Stands base m' ∧ (m.Candid → u.Innocent) := by
  induction fuel generalizing m with
  | zero => exact exhausted hm
  | succ fuel ih =>
    rw [runLoop_succ]
    refine bind (turn he hm hp mark) ?_
    intro r m₁ hm₁ hr
    cases r with
    | some value => exact ret hm₁ hr
    | none =>
      obtain ⟨below, top, h, hready⟩ := id hr
      refine (ih hm₁ hr.here).mono (fun _ _ _ h' => h.trans h') fun _ _ _ h' => ?_
      exact ⟨h.trans h'.1, fun hc => h'.2 (h.candid hc)⟩

/-- **A frame that has just been pushed runs** to its end, by tier code or by the interpreter, and is
popped. -/
theorem runFrame (he : env.Faithful) (hm : m.Intact) (hentered : m.Entered) :
    Goes m (runFrame env m) (fun _ m' => m.Stands m.spots.dropLast m')
      fun u m' => m.Stands m.spots.dropLast m' ∧ (m.Candid → u.Innocent) := by
  obtain ⟨f, hf, hpc⟩ := id hentered
  have hlength : m.frames.size - 1 = m.spots.dropLast.length := by
    rw [List.length_dropLast, length_spots]
  refine look (bind (functionEntry he hm).attempt ?_)
  intro r m₁ hm₁ hr
  rw [hlength]
  cases r with
  | ok compiled =>
    obtain ⟨hc, hcompiled⟩ := hr
    cases compiled with
    | none =>
      refine look (ask ((runLoop he hm₁ (hm₁.poised_entered (hentered.calm hc) hc.spots) _ _).mono ?_ ?_))
      · exact fun _ _ _ h => hc.trans h
      · exact fun _ _ _ h => ⟨hc.trans h.1, fun hcandid => h.2 (hc.candid hcandid)⟩
    | some lowered =>
      have hrun := runCompiled he hm₁ (hcompiled lowered rfl)
      rw [hc.spots] at hrun
      refine hrun.mono (fun _ _ _ h => hc.trans h) fun _ _ _ h => ?_
      exact ⟨hc.trans h.1, fun hcandid => h.2 (hc.candid hcandid)⟩
  | error u =>
    have hle : m.spots.dropLast.length ≤ m₁.frames.size := by
      rw [← length_spots, hr.1.spots, List.length_dropLast]
      exact Nat.sub_le _ _
    refine bind (popFramesTo he hm₁ hle) fun _ m₂ hm₂ h₂ => unwind hm₂ ⟨?_, hr.2⟩
    rw [hr.1.spots, List.length_dropLast, ← List.dropLast_eq_take] at h₂
    exact hr.1.trans h₂

end Goes

end ScriptMachine
