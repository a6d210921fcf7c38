import ScriptMachine.Proofs.Machine.Turn
import ScriptMachine.Proofs.Stack.Interpreter

/-! # The loop of the interpreter

A turn of the loop leaves all frames alone but the topmost one that is there before and
after it, and that one is still the same call (`Machine.Turns`). When the loop ends, its frames are
gone and the others are as they were (`Proceeds.runLoop`). -/

namespace ScriptMachine

open Machine

section

variable {m m' m'' : Machine} {f : Frame} {entryDepth : Nat} {env : Env}

/-- Fetching an instruction. -/
theorem fetch_eq {entry : CodeEntry} {instruction : Instruction} (hf : m.frame? = some f)
    (hcode : m.code? f.code = some entry)
    (hi : entry.block.instructions[f.pc.toNat]? = some instruction) :
    fetch env m = .ok (some (f.code, some instruction.opcode)) (m.setPc (f.pc + 1)) := by
  change EStateM.Result.ok _ _ = _
  rw [hf]
  simp only [hcode, hi]

/-! ### What a turn does to the stacks -/

namespace Machine

/-- **A turn of the loop**: the frames below the topmost one that is there before and after are left
alone, and that one is still the same call. -/
structure Turns (m m' : Machine) : Prop where
  keeps : Keeps (min m.frames.size m'.frames.size - 1) m m'
  frame : ∀ i f, i + 1 = min m.frames.size m'.frames.size → m.frames[i]? = some f →
    ∃ f', m'.frames[i]? = some f' ∧ f'.call = f.call ∧ Heads m.heap f m'.heap f'

/-- The heads of a frame that is left alone. -/
theorem Keeps.heads {depth i : Nat} (hk : Keeps depth m m') (hi : i < depth)
    (hf : m.frames[i]? = some f) : Heads m.heap f m'.heap f := by
  refine .of_scope rfl rfl rfl fun hr => hk.scopes hr f ?_
  exact List.mem_of_getElem? (i := i) (by simpa [List.getElem?_take, hi] using hf)

/-- What becomes of any frame that is there before and after a turn. -/
theorem Turns.getElem? (ht : m.Turns m') {i : Nat} (hf : m.frames[i]? = some f)
    (hi : i < m'.frames.size) :
    ∃ f', m'.frames[i]? = some f' ∧ f'.call = f.call ∧ Heads m.heap f m'.heap f' := by
  have hlt := (Array.getElem?_eq_some_iff.mp hf).1
  rcases Nat.lt_or_ge i (min m.frames.size m'.frames.size - 1) with hbelow | htop
  · exact ⟨f, by rw [ht.keeps.getElem? hbelow, hf], rfl, ht.keeps.heads hbelow hf⟩
  · exact ht.frame i f (by omega) hf

/-- The running frame advances after the frames above it are gone. -/
theorem Cut.turns {depth : Nat} (hc : Cut depth m m') (hd : depth ≤ m.frames.size)
    (ha : m'.Advances m'') : m.Turns m'' := by
  have hsize : m''.frames.size = depth := ha.size.trans hc.size
  have hmin : min m.frames.size m''.frames.size = depth := by omega
  have hkeeps := ha.keeps
  rw [hc.size] at hkeeps
  refine ⟨?_, fun i f hi hf => ?_⟩
  · rw [hmin]
    exact (hc.keeps.mono (Nat.sub_le _ _)).trans hkeeps
  · rw [hmin] at hi
    have hf' : m'.frames[i]? = some f := by rw [hc.keeps.getElem? (by omega), hf]
    have htop : m'.frame? = some f := by
      rw [frame?, Array.back?_eq_getElem?, hc.size, ← hi]
      exact hf'
    obtain ⟨f'', hf'', hcall, hheads⟩ := ha.top f htop
    refine ⟨f'', ?_, hcall, (hc.keeps.heads (by omega) hf).trans hheads hkeeps.roomy fun _ h _ => h⟩
    rw [frame?, Array.back?_eq_getElem?, hsize, ← hi] at hf''
    exact hf''

theorem Shifts.turns (ha : m.Advances m') : m.Turns m' :=
  Cut.turns ⟨.refl _ m, rfl⟩ (Nat.le_refl _) ha

theorem Enters.turns (he : m.Enters m') : m.Turns m' := by
  obtain ⟨m₁, hw, hp⟩ := he
  have hmin : min m.frames.size m'.frames.size = m.frames.size := by
    rw [hp.size, hw.size]
    omega
  have hkeeps := hp.keeps
  rw [hw.size] at hkeeps
  refine ⟨?_, fun i f hi hf => ?_⟩
  · rw [hmin]
    exact hw.keeps.trans (hkeeps.mono (Nat.sub_le _ _))
  · rw [hmin] at hi
    have htop : m.frame? = some f := by
      rw [frame?, Array.back?_eq_getElem?, ← hi]
      exact hf
    obtain ⟨f₁, hf₁, hcall, -, hheads⟩ := hw.top f htop
    rw [frame?, Array.back?_eq_getElem?, hw.size, ← hi] at hf₁
    have hlt : i < m.frames.size := by omega
    refine ⟨f₁, by rw [hkeeps.getElem? hlt]; exact hf₁, hcall,
      hheads.trans (hkeeps.heads hlt hf₁) hkeeps.roomy fun d hd hd' => hd'⟩

/-- What a handler leaves of the scopes of its frame. -/
theorem DeliveredTo.heads {i : Nat} {handler : Handler} {v : Value}
    (hd : DeliveredTo i f handler v m m') :
    Heads m.heap f m'.heap (f.resumed m'.heap handler) := by
  refine ⟨fun _ ha => ha, fun hr d _ hd' => .inl ?_⟩
  rw [Frame.headAt_resumed hd']
  exact hd.scopes hr _ (Nat.sub_le _ _)

/-- An instruction throws a value, and the value is delivered. -/
theorem Shifts.delivered {i : Nat} {handler : Handler} {v : Value} (ha : m.Advances m')
    (hd : DeliveredTo i f handler v m' m'') : m.Turns m'' := by
  have hi := (Array.getElem?_eq_some_iff.mp hd.frame).1
  rw [ha.size] at hi
  have hmin : min m.frames.size m''.frames.size = i + 1 := by
    rw [hd.size]
    omega
  refine ⟨?_, fun j g hj hg => ?_⟩
  · rw [hmin]
    exact (ha.keeps.mono (by omega)).trans hd.keeps
  · obtain rfl : j = i := by omega
    refine ⟨_, hd.resumed, ?_⟩
    -- the frame of the handler was there before, as it is or as the running frame
    obtain ⟨f', hf', hcall, hheads⟩ := ha.turns.getElem? hg (by rw [ha.size]; exact hi)
    obtain rfl := Option.some.inj (hd.frame.symm.trans hf')
    refine ⟨hcall, hheads.trans hd.heads hd.keeps.roomy fun d _ hd' => ?_⟩
    rw [Frame.scopeDepth_resumed] at hd'
    omega

end Machine

namespace Machine

/-- The frames below the running one are left alone, whatever the instruction did. -/
theorem Outcome.keeps {flow : Except Unwind Flow} (ho : m.Outcome m' flow) :
    Keeps (m.frames.size - 1) m m' ∧ m.frames.size ≤ m'.frames.size := by
  rcases ho with ha | ⟨⟨m₁, hw, hp⟩, -⟩
  · exact ⟨ha.keeps, Nat.le_of_eq ha.size.symm⟩
  · refine ⟨hw.keeps.trans (hp.keeps.mono ?_), ?_⟩
    · rw [hw.size]
      exact Nat.sub_le _ _
    · rw [hp.size, hw.size]
      exact Nat.le_succ _

theorem Outcome.turns {flow : Except Unwind Flow} (ho : m.Outcome m' flow) : m.Turns m' := by
  rcases ho with ha | ⟨he, -⟩
  · exact ha.turns
  · exact he.turns

/-- An instruction that has a result or threw a value entered no frame. -/
theorem Outcome.advances {flow : Except Unwind Flow} (ho : m.Outcome m' flow)
    (hflow : flow ≠ .ok .next) (hfatal : ∀ failure, flow ≠ .error (.fatal failure)) :
    m.Advances m' := by
  rcases ho with ha | ⟨-, hnext | ⟨failure, hf⟩⟩
  · exact ha
  · exact absurd hnext hflow
  · exact absurd hf (hfatal failure)

theorem Turns.still (ht : m.Turns m') (hs : m'.Still m'') : m.Turns m'' := by
  have hsize : m''.frames.size = m'.frames.size := by rw [hs.frames]
  refine ⟨?_, fun i f hi hf => ?_⟩
  · rw [hsize]
    exact ht.keeps.trans (hs.keeps _)
  · rw [hsize] at hi
    obtain ⟨f', hf', hcall, hheads⟩ := ht.frame i f hi hf
    refine ⟨f', by rw [hs.frames, hf'], hcall, hheads.trans ((hs.keeps (i + 1)).heads
      (Nat.lt_succ_self i) hf') hs.roomy fun _ _ h => h⟩

end Machine

namespace Proceeds

/-- Fetching moves the running frame on. -/
theorem fetch (hm : m.Orderly) {E : Unwind → Machine → Prop} :
    Proceeds (fetch env m) (fun r m' => (m.Works m' ∧ m.Balanced m') ∧
      (r = none → m.frame? = none) ∧
      ∀ code opcode, r = some (code, some opcode) →
        ∀ f, m'.frame? = some f → (m'.code? f.code).isSome) E := by
  cases hf : m.frame? with
  | none =>
    exact stepTo (by rw [hf]) hm ⟨⟨.refl m, .refl m⟩, fun _ => rfl, fun _ _ h => by cases h⟩
  | some f =>
    cases hentry : m.code? f.code with
    | none =>
      exact stepTo (by rw [hf]; simp only [hentry]; rfl) hm
        ⟨⟨.refl m, .refl m⟩, (fun h => by cases h), fun _ _ h => by cases h⟩
    | some entry =>
      cases hi : entry.block.instructions[f.pc.toNat]? with
      | none =>
        exact stepTo (by rw [hf]; simp only [hentry, hi]; rfl) hm
          ⟨⟨.refl m, .refl m⟩, (fun h => by cases h), fun _ _ h => by cases h⟩
      | some instruction =>
        obtain ⟨hm', hw, hb⟩ := hm.setPc (f.pc + 1)
        refine stepTo (by rw [hf]; simp only [hentry, hi]; rfl) hm'
          ⟨⟨hw, hb⟩, (fun h => by cases h), fun _ _ _ g hg => ?_⟩
        have hg' := frame?_modifyFrame (g := fun f' => { f' with pc := f.pc + 1 }) hf
        obtain rfl := Option.some.inj (hg'.symm.trans hg)
        exact Option.isSome_of_eq_some hentry

/-- **The instruction of the running frame**, and how it ends. -/
theorem instruction (he : env.Orderly) (hm : m.Orderly) {E : Unwind → Machine → Prop} :
    Proceeds (instruction env m) (fun r m' => m.Balanced m' ∧ match r with
      | none => m.frame? = none
      | some flow => m.Outcome m' flow) E := by
  refine pass hm (bind (fetch hm) ?_)
  rintro fetched m₁ hm₁ ⟨⟨hw₁, hb₁⟩, hnone, hcode⟩
  match fetched with
  | none => exact ret hm₁ ⟨hb₁, hnone rfl⟩
  | some (code, none) => exact ret hm₁ ⟨hb₁, .inl hw₁.advances⟩
  | some (code, some op) =>
    refine bind (opcode he hm₁ code op (hcode code op rfl)).attempt ?_
    rintro flow m₂ hm₂ h
    refine ret hm₂ ⟨?_, ?_⟩
    · cases flow <;> exact hb₁.trans h.2
    · cases flow <;> exact h.1.after hw₁

/-- **The running frame returns**: it is popped, and its result goes to the register it says, if the
caller is in the loop. -/
theorem settleReturn (he : env.Orderly) (hm : m.Orderly) (mark : Nat) (value : Value)
    {E : Unwind → Machine → Prop} :
    Proceeds (settleReturn entryDepth mark value env m) (fun r m' => m.Balanced m' ∧
      ∃ mid, mid.Orderly ∧ m.Popped mid ∧ match r with
        | some _ => m.frames.size - 1 ≤ entryDepth ∧ mid.Still m'
        | none => entryDepth < m.frames.size - 1 ∧ ∃ result,
          ((m.frame?.bind (·.returnRegister)).elim mid (mid.setRegister · result)).Still m') E := by
  refine look (bind (finishReturn he hm value) ?_)
  rintro ⟨result, register⟩ mid hmid ⟨⟨hp, hb⟩, hregister⟩
  refine ite (fun hle => ?_) fun hgt => ?_
  · obtain ⟨hm₁, hs₁, hb₁⟩ := hmid.retains ((Heap.retains_truncateTemporaries mid.heap mark).trans
      (Heap.retains_pushTemporary _ result))
    refine bind (Q := fun _ m' => mid.Still m' ∧ mid.Balanced m') (change hm₁ ⟨hs₁, hb₁⟩) ?_
    rintro _ m₁ hm₁ ⟨hs₁, hb₁⟩
    exact ret hm₁ ⟨hb.trans hb₁, mid, hmid, hp, hle, hs₁⟩
  · have hregister : register = m.frame?.bind (·.returnRegister) := hregister
    rw [← hregister]
    obtain ⟨m₁, hm₁, hb₁, heq⟩ : ∃ m₁ : Machine, m₁.Orderly ∧ mid.Balanced m₁ ∧
        m₁ = register.elim mid (mid.setRegister · result) := by
      cases register with
      | none => exact ⟨mid, hmid, .refl mid, rfl⟩
      | some r =>
        obtain ⟨hm₁, -, hb₁⟩ := hmid.setRegister r result
        exact ⟨_, hm₁, hb₁, rfl⟩
    obtain ⟨hm₂, hs₂, hb₂⟩ := hm₁.retains (Heap.retains_truncateTemporaries m₁.heap mark)
    refine bind (Q := fun _ m' => m₁.Still m' ∧ m₁.Balanced m') ?_ ?_
    · subst heq
      cases register <;> exact change hm₂ ⟨hs₂, hb₂⟩
    · rintro _ m₂ hm₂ ⟨hs₂, hb₂⟩
      refine ret hm₂ ⟨(hb.trans hb₁).trans hb₂, mid, hmid, hp, Nat.lt_of_not_le hgt, result, ?_⟩
      rwa [← heq]

/-- What is left of the machine when the loop goes on, or is done. -/
theorem settle (he : env.Orderly) {flow : Except Unwind Flow} (hm' : m'.Orderly)
    (hd : entryDepth < m.frames.size) (ho : m.Outcome m' flow) (mark : Nat) :
    Proceeds (settle entryDepth mark flow env m')
      (fun r m'' => (match r with
        | none => m.Turns m'' ∧ entryDepth < m''.frames.size
        | some _ => Cut entryDepth m m'') ∧ m'.Balanced m'')
      fun _ m'' => Cut entryDepth m m'' ∧ m'.Balanced m'' := by
  obtain ⟨hk, hsize⟩ := ho.keeps
  cases flow with
  | ok flow =>
    cases flow with
    | next =>
      refine bind (truncate hm' mark) ?_
      rintro _ m₂ hm₂ ⟨hs₂, hb₂⟩
      exact ret hm₂ ⟨⟨ho.turns.still hs₂, by rw [hs₂.frames]; omega⟩, hb₂⟩
    | ret value =>
      have ha := ho.advances (by simp) (by simp)
      refine (settleReturn he hm' mark value).mono ?_ fun _ _ _ h => h
      rintro r m₂ - ⟨hb₂, mid, hmid, hp, hr⟩
      have hp : Cut (m'.frames.size - 1) m' mid := hp
      rw [ha.size] at hp hr
      have hcut : Cut (m.frames.size - 1) m mid := hp.after ha.keeps
      cases r with
      | some _ =>
        obtain ⟨hle, hs⟩ := hr
        obtain rfl : m.frames.size - 1 = entryDepth := by omega
        exact ⟨⟨hcut.keeps.trans (hs.keeps _), by rw [hs.frames, hcut.size]⟩, hb₂⟩
      | none =>
        obtain ⟨hlt, result, hs⟩ := hr
        have hw : mid.Works m₂ := by
          cases hregister : m'.frame?.bind (·.returnRegister) with
          | none =>
            rw [hregister] at hs
            exact hs.works
          | some r =>
            rw [hregister] at hs
            exact (hmid.setRegister r result).2.1.trans hs.works
        refine ⟨⟨hcut.turns (Nat.sub_le _ _) hw.advances, ?_⟩, hb₂⟩
        rw [hw.size, hcut.size]
        exact hlt
  | error u =>
    refine bind (handleUnwind he hm' (Nat.lt_of_lt_of_le hd hsize) u).attempt ?_
    intro r m₂ hm₂ hr
    cases r with
    | ok _ =>
      obtain ⟨⟨v, rfl, i, f, handler, hi, hto⟩, hb₂⟩ := hr
      refine bind (truncate hm₂ mark) ?_
      rintro _ m₃ hm₃ ⟨hs₃, hb₃⟩
      have ha := ho.advances (by simp) (by simp)
      refine ret hm₃ ⟨⟨(ha.delivered hto).still hs₃, ?_⟩, hb₂.trans hb₃⟩
      rw [hs₃.frames, hto.size]
      omega
    | error u' =>
      obtain ⟨⟨rfl, hc, -⟩, hb₂⟩ := hr
      have hcut : Cut entryDepth m m₂ := hc.after (hk.mono (by omega))
      have hleft {m₃ : Machine} (h : m₂.Still m₃ ∧ m₂.Balanced m₃) :
          Cut entryDepth m m₃ ∧ m'.Balanced m₃ :=
        ⟨⟨hcut.keeps.trans (h.1.keeps _), by rw [h.1.frames, hcut.size]⟩, hb₂.trans h.2⟩
      refine bind ((Keeping.modifyHeap (fun h => ?_) env m₂ he hm₂).mono (fun _ _ _ h => h)
        fun _ _ _ h => hleft h) ?_
      · cases u' with
        | throw value =>
          exact (Heap.retains_truncateTemporaries h mark).trans (Heap.retains_pushTemporary _ value)
        | fatal _ => exact Heap.retains_truncateTemporaries h mark
      · rintro _ m₃ hm₃ h
        exact unwind hm₃ (hleft h)

/-- **One turn of the loop.** -/
theorem turn (he : env.Orderly) (hm : m.Orderly) (hd : entryDepth < m.frames.size) (mark : Nat) :
    Proceeds (turn entryDepth mark env m)
      (fun r m' => (match r with
        | none => m.Turns m' ∧ entryDepth < m'.frames.size
        | some _ => Cut entryDepth m m') ∧ m.Balanced m')
      fun _ m' => Cut entryDepth m m' ∧ m.Balanced m' := by
  refine bind (instruction he hm) ?_
  rintro flow m₁ hm₁ ⟨hb₁, ho⟩
  cases flow with
  | none =>
    rw [frame?_eq_none.mp ho] at hd
    exact absurd hd (by simp)
  | some flow =>
    refine (settle he hm₁ hd ho mark).mono ?_ ?_
    all_goals exact fun _ _ _ h => ⟨h.1, hb₁.trans h.2⟩

/-- **The loop** leaves its frames, however it ends. -/
theorem runLoop (he : env.Orderly) (hm : m.Orderly) (hd : entryDepth < m.frames.size)
    (mark fuel : Nat) :
    Proceeds (runLoop entryDepth mark fuel env m)
      (fun _ m' => Cut entryDepth m m' ∧ m.Balanced m')
      fun _ m' => Cut entryDepth m m' ∧ m.Balanced m' := by
  induction fuel generalizing m with
  | zero => exact exhausted hm
  | succ fuel ih =>
    rw [runLoop_succ]
    refine bind (turn he hm hd mark) ?_
    rintro r m₁ hm₁ ⟨hr, hb₁⟩
    cases r with
    | some value => exact ret hm₁ ⟨hr, hb₁⟩
    | none =>
      obtain ⟨ht, hd₁⟩ := hr
      have hk : Keeps entryDepth m m₁ := ht.keeps.mono (by omega)
      refine (ih hm₁ hd₁).mono ?_ ?_
      all_goals exact fun _ _ _ h => ⟨h.1.after hk, hb₁.trans h.2⟩

/-- **The top frame runs** to its end, by tier code or by the interpreter, and is popped. -/
theorem runFrame (he : env.Orderly) (hm : m.Orderly) (hf : m.frames ≠ #[]) :
    Proceeds (runFrame env m) (fun _ m' => m.Popped m' ∧ m.Balanced m')
      fun _ m' => m.Popped m' ∧ m.Balanced m' := by
  have hpos : 0 < m.frames.size := Nat.pos_of_ne_zero fun h => hf (Array.size_eq_zero_iff.mp h)
  refine look (bind (functionEntry he hm).attempt ?_)
  intro r m₁ hm₁ hr
  cases r with
  | ok compiled =>
    obtain ⟨⟨hs, hb⟩, hcompiled⟩ := hr
    cases compiled with
    | none =>
      have hd : m.frames.size - 1 < m₁.frames.size := by rw [hs.frames]; omega
      refine look (ask ((runLoop he hm₁ hd _ _).mono ?_ ?_))
      all_goals exact fun _ _ _ h => ⟨h.1.after (hs.keeps _), hb.trans h.2⟩
    | some lowered =>
      refine (runCompiled he hm₁ (hcompiled lowered rfl)).mono ?_ ?_
      all_goals
        rintro _ m₂ - ⟨hp, hb₂⟩
        exact ⟨hs.works.advances.stays.popped hp, hb.trans hb₂⟩
  | error u =>
    obtain ⟨⟨hs, hb⟩, -⟩ := hr
    refine bind (popFramesTo he hm₁ (by rw [hs.frames]; exact Nat.sub_le _ _)) ?_
    rintro _ m₂ hm₂ ⟨hc, hb₂⟩
    exact unwind hm₂ ⟨hc.after (hs.keeps _), hb.trans hb₂⟩

end Proceeds

end

/-! ## The scopes a frame had

A frame of the loop, or of tier code, goes through moves (`Moves`): turns, its own and those of the frames
above it, and instructions that throw. As long as it has at least `d` block scopes open (`Leads`), its
head with `d` of them open is the record that it was, unless its variables have moved to the heap, which
happens while no block scope is open (`Leads.sameHead`). A handler that leaves `d` block scopes open goes
back to that record (`DeliveredTo.scope_eq`). -/

variable {env : Env} {m m' m'' : Machine} {f g : Frame} {i d : Nat}

namespace Machine

/-- **A move**: a turn of the loop or of tier code, or only its instruction if that throws. -/
inductive Moves (env : Env) : Machine → Machine → Prop
  /-- A turn of the loop. -/
  | turn {entryDepth mark : Nat} {m m' : Machine} : entryDepth < m.frames.size →
      turn entryDepth mark env m = .ok none m' → Moves env m m'
  /-- An instruction that throws. -/
  | raise {m m' : Machine} {v : Value} : instruction env m = .ok (some (.error (.throw v))) m' →
      Moves env m m'
  /-- A turn of tier code. -/
  | tierTurn {code : Lowered} {mark index next : Nat} {m m' : Machine} : m.Compiled code →
      tierTurn code mark index env m = .ok (.inl next) m' → Moves env m m'
  /-- An operation of tier code that throws. -/
  | tierRaise {code : Lowered} {mark index : Nat} {m m' : Machine} {v : Value} : m.Compiled code →
      operation code mark index env m = .ok (some (.error (.throw v))) m' → Moves env m m'

/-- Moves during which frame `i` has at least `d` block scopes open. -/
inductive Leads (env : Env) (i d : Nat) : Machine → Machine → Prop
  /-- No move. -/
  | refl (m : Machine) : Leads env i d m m
  /-- One more move. -/
  | move {m m' m'' : Machine} : Leads env i d m m' → Moves env m' m'' →
      (∃ f, m''.frames[i]? = some f ∧ d ≤ f.scopeDepth.toNat) → Leads env i d m m''

/-- What a move does to the stacks. -/
theorem Moves.turns (he : env.Orderly) (hm : m.Orderly) (hmove : Moves env m m') :
    m'.Orderly ∧ m.Turns m' := by
  cases hmove with
  | @turn entryDepth mark _ _ hd hturn =>
    have hp := Proceeds.turn he hm hd mark
    rw [hturn] at hp
    exact ⟨hp.orderly, hp.ends.1.1⟩
  | raise hraise =>
    have hp := Proceeds.instruction he hm (E := fun _ _ => True)
    rw [hraise] at hp
    have hends : m.Balanced m' ∧ m.Outcome m' _ := hp.ends
    exact ⟨hp.orderly, hends.2.turns⟩
  | @tierTurn code mark index next _ _ hc hturn =>
    have hp := Proceeds.tierTurn he hm hc mark index
    rw [hturn] at hp
    have hends : m.Advances m' ∧ m.Balanced m' := hp.ends
    exact ⟨hp.orderly, hends.1.turns⟩
  | @tierRaise code mark index _ _ v hc hraise =>
    have hp := Proceeds.operation he hm hc mark index (E := fun _ _ => True)
    rw [hraise] at hp
    have hends : m.Advances m' ∧ m.Balanced m' := hp.ends
    exact ⟨hp.orderly, hends.1.turns⟩

/-- **The head with `d` block scopes open** is the same as long as they are open. -/
theorem Leads.sameHead (he : env.Orderly) (hm : m.Orderly) (hl : Leads env i d m m')
    (hf : m.frames[i]? = some f) (hd : d ≤ f.scopeDepth.toNat) :
    m'.Orderly ∧ ∃ f', m'.frames[i]? = some f' ∧ d ≤ f'.scopeDepth.toNat ∧
      (∀ a, f.activation = some a → f'.activation = some a) ∧
      (m'.heap.Roomy → m.heap.Roomy ∧ SameHead d m.heap f m'.heap f') := by
  induction hl with
  | refl => exact ⟨hm, f, hf, hd, fun _ ha => ha, fun hr => ⟨hr, .inl rfl⟩⟩
  | move _ hmove hopen ih =>
    obtain ⟨hm', f', hf', hd', ha', hhead⟩ := ih
    obtain ⟨hm'', ht⟩ := hmove.turns he hm'
    obtain ⟨f'', hf'', hd''⟩ := hopen
    obtain ⟨g, hg, -, hheads⟩ := ht.getElem? hf' (Array.getElem?_eq_some_iff.mp hf'').1
    obtain rfl := Option.some.inj (hf''.symm.trans hg)
    refine ⟨hm'', _, hf'', hd'', fun a ha => hheads.activation a (ha' a ha), fun hr'' => ?_⟩
    obtain ⟨hr, hsame⟩ := hhead (ht.keeps.roomy hr'')
    exact ⟨hr, hsame.trans (hheads.heads hr'' d hd' hd'') ha' hheads.activation⟩

/-- **A handler goes back to the record** that was the head of the scope chain when as many block scopes
were open as it leaves open. -/
theorem DeliveredTo.scope_eq {handler : Handler} {v : Value} (he : env.Orderly) (hm : m.Orderly)
    (hdelivered : DeliveredTo i f handler v m' m'') (hl : Leads env i d m m')
    (hg : m.frames[i]? = some g) (hd : g.scopeDepth.toNat = d)
    (hopen : d = min f.scopeDepth.toNat handler.scopeDepth.toNat) (hr : m''.heap.Roomy) :
    (f.resumed m''.heap handler).scope = g.scope ∨ d = 0 ∧ g.activation = none ∧
      ∃ a, f.activation = some a ∧ (f.resumed m''.heap handler).scope = some a := by
  obtain ⟨-, f', hf', -, -, hhead⟩ := hl.sameHead he hm hg (Nat.le_of_eq hd.symm)
  obtain rfl := Option.some.inj (hdelivered.frame.symm.trans hf')
  have hsame := (hhead (hdelivered.keeps.roomy hr)).2
  have hbefore : g.headAt m.heap d = g.scope := by
    rw [Frame.headAt, hd, Nat.sub_self, Function.iterate_zero_apply]
  have hafter : (f.resumed m''.heap handler).scope = f.headAt m'.heap d := by
    change m''.heap.enclosing^[_] f.scope = m'.heap.enclosing^[_] f.scope
    rw [hdelivered.scopes hr _ (Nat.sub_le _ _),
      show f.scopeDepth.toNat - handler.scopeDepth.toNat = f.scopeDepth.toNat - d by omega]
  rw [hafter, ← hbefore]
  exact hsame

end Machine

end ScriptMachine
