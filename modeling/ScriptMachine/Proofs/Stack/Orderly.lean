import ScriptMachine.Machine.Perform
import ScriptMachine.Proofs.Heap.Retention
import Mathlib.Order.Defs.Unbundled

/-! # Orderly machines

What is true of the stacks of a machine in every state (`Machine.Orderly`): the windows of the frames
tile the register file, nothing grows past its bound, tier code is the lowering of its block, and the
scope of a frame is below as many records as it has block scopes open.

Actions are described by what they leave alone. `Still` is what an operation without frames of its own
does to the stacks: nothing. `Works` is what an instruction may do to the running frame, whose
variables may move to the heap but whose block scopes stay open; `Advances` also lets it open and close
block scopes. `Keeps depth` speaks of the first `depth` frames only.

Host programs are given to the machine as data, and the questions they ask are restricted: a host must
not open or close scopes of the running frame through stubs (`HostProgram.Plain`). -/

namespace ScriptMachine

/-! ### Hosts -/

/-- The routine opens or closes a scope of the running frame, or moves its variables. -/
def Routine.movesScope : Routine → Bool
  | .newFunction | .tearOffActivation | .pushScope | .popScope => true
  | _ => false

/-- The question leaves the running frame alone. -/
def HostQuery.Plain : HostQuery → Prop
  | .stub routine _ => routine.movesScope = false
  | _ => True

/-- **A host program that leaves the running frame alone**, as do the listeners it registers. -/
inductive HostProgram.Plain : HostProgram → Prop
  /-- It is done. -/
  | done (result : Except Failure Value) : Plain (.done result)
  /-- Its question and what follows are plain. -/
  | ask {query : HostQuery} {next : query.Reply → HostProgram} :
      query.Plain → (∀ reply, Plain (next reply)) → Plain (.ask query next)
  /-- Its listener and what follows are plain. -/
  | listen {listener : DebugEvent → HostProgram} {next : HostProgram} :
      (∀ event, Plain (listener event)) → Plain next → Plain (.listen listener next)

/-! ### Frames -/

/-- What a call fixes of its frame. -/
def Frame.call (f : Frame) : Frame :=
  { f with pc := 0, scope := none, activation := none, scopeDepth := 0 }

/-- What never changes of registered code. -/
def CodeEntry.fixed (entry : CodeEntry) : CodeEntry :=
  { entry with caches := .new 0 0, callCount := 0, compiled := none, tierAttempted := false }

/-- Every slot has a handle, and one handle is left over. -/
def Heap.Roomy (h : Heap) : Prop := h.slots.size < 2 ^ 32

/-- The head that the scope chain of a frame had when it had `depth` block scopes open. -/
def Frame.headAt (h : Heap) (f : Frame) (depth : Nat) : Option Handle :=
  h.enclosing^[f.scopeDepth.toNat - depth] f.scope

/-- The register where the window of frame `i` begins: the windows of the frames before it end
there. -/
def floor (frames : List Frame) (i : Nat) : Nat :=
  ((frames.take i).map (·.registerCount.toNat)).sum

namespace Machine

/-! ### The invariant -/

/-- **The windows of the frames tile the register file**, and nothing is past its bound. -/
structure Stacked (m : Machine) : Prop where
  /-- Each window begins where the one before ends. -/
  tile : ∀ i f, m.frames[i]? = some f → f.base = floor m.frames.toList i
  /-- The last one ends where the registers end. -/
  size : m.registers.registers.size = floor m.frames.toList m.frames.size
  /-- The number of frames. -/
  depth : m.frames.size ≤ m.config.maxCallDepth
  /-- The number of registers. -/
  room : m.registers.registers.size ≤ m.registers.capacity
  /-- The nesting of calls from the host. -/
  nesting : m.reentryDepth ≤ m.config.maxReentryDepth

/-- Code and frames agree. -/
structure Settled (m : Machine) : Prop where
  /-- Tier code is the lowering of its block. -/
  lowered : ∀ entry ∈ m.codes, ∀ l, entry.compiled = some l → entry.lower = .ok l
  /-- A frame with open block scopes has moved its variables to the heap, if its code ever does. -/
  moved : ∀ f ∈ m.frames, f.scopeDepth ≠ 0 → ∃ entry, m.code? f.code = some entry ∧
    (f.activation = none → entry.block.needsActivation = false)

/-- The scope chains of the frames are sound. -/
structure Chained (m : Machine) : Prop where
  /-- No slot is colored. -/
  white : m.heap.AllWhite
  /-- The free list is in order. -/
  listed : m.heap.Roomy → m.heap.FreeListed
  /-- A frame has a record for each open block scope. -/
  scopes : m.heap.Roomy → ∀ f ∈ m.frames, m.heap.Scoped f.scopeDepth.toNat f.scope

/-- The host functions and listeners leave the running frame alone. -/
structure Hosted (m : Machine) : Prop where
  /-- The host functions. -/
  hosts : ∀ entry ∈ m.hosts, ∀ call, (entry.run call).Plain
  /-- The listeners. -/
  listeners : ∀ listener ∈ m.listeners, ∀ event, (listener event).Plain

/-- **An orderly machine.** -/
structure Orderly (m : Machine) : Prop where
  stacked : m.Stacked
  settled : m.Settled
  chained : m.Chained
  hosted : m.Hosted

/-! ### What is left alone -/

/-- What nothing changes while code runs, and what only grows. -/
structure Endures (m m' : Machine) : Prop where
  config : m'.config = m.config
  capacity : m'.registers.capacity = m.registers.capacity
  codes : m'.codes.map CodeEntry.fixed = m.codes.map CodeEntry.fixed
  slots : m.heap.slots.size ≤ m'.heap.slots.size

/-- **The first `depth` frames are left alone**, with their windows and their scope chains. -/
structure Keeps (depth : Nat) (m m' : Machine) : Prop extends m.Endures m' where
  frames : m'.frames.toList.take depth = m.frames.toList.take depth
  registers : ∀ i < floor m.frames.toList depth,
    m'.registers.registers[i]? = m.registers.registers[i]?
  scopes : m'.heap.Roomy → ∀ f ∈ m.frames.toList.take depth, ∀ n ≤ f.scopeDepth.toNat,
    m'.heap.enclosing^[n] f.scope = m.heap.enclosing^[n] f.scope

/-- **The stacks stay as they are.** -/
structure Still (m m' : Machine) : Prop extends m.Endures m' where
  frames : m'.frames = m.frames
  registers : m'.registers = m.registers
  scopes : m'.heap.Roomy → ∀ f ∈ m.frames, ∀ n ≤ f.scopeDepth.toNat,
    m'.heap.enclosing^[n] f.scope = m.heap.enclosing^[n] f.scope

/-- The head of a frame with `d` block scopes open is the record it was. When its variables have moved
to the heap, their record has taken the place of the outermost head. -/
def SameHead (d : Nat) (h : Heap) (f : Frame) (h' : Heap) (f' : Frame) : Prop :=
  f'.headAt h' d = f.headAt h d ∨
    d = 0 ∧ f.activation = none ∧ ∃ a, f'.activation = some a ∧ f'.headAt h' d = some a

/-- What becomes of the variables and the scope heads of a running frame. -/
structure Heads (h : Heap) (f : Frame) (h' : Heap) (f' : Frame) : Prop where
  /-- Variables that were moved stay where they are. -/
  activation : ∀ a, f.activation = some a → f'.activation = some a
  /-- The heads of the block scopes that are open throughout. -/
  heads : h'.Roomy → ∀ d ≤ f.scopeDepth.toNat, d ≤ f'.scopeDepth.toNat → SameHead d h f h' f'

/-- The running frame is still the same call, and the frames below it are left alone. -/
structure Shifts (rel : Heap → Frame → Heap → Frame → Prop) (m m' : Machine) : Prop where
  keeps : Keeps (m.frames.size - 1) m m'
  size : m'.frames.size = m.frames.size
  top : ∀ f, m.frame? = some f → ∃ f', m'.frame? = some f' ∧ f'.call = f.call ∧
    rel m.heap f m'.heap f'

/-- **What an instruction may do to the running frame**, other than open or close a block scope. -/
abbrev Works : Machine → Machine → Prop :=
  Shifts fun h f h' f' => f'.scopeDepth = f.scopeDepth ∧ Heads h f h' f'

/-- What a handler may do to the running frame: it opens no block scope. -/
abbrev Closes : Machine → Machine → Prop :=
  Shifts fun h f h' f' => f'.scopeDepth.toNat ≤ f.scopeDepth.toNat ∧ Heads h f h' f'

/-- **What an instruction may do to the running frame.** -/
abbrev Advances : Machine → Machine → Prop := Shifts Heads

/-- The running frame is still the same call, whatever became of its scopes. -/
abbrev Stays : Machine → Machine → Prop := Shifts fun _ _ _ _ => True

/-- One more frame runs on top of the others. -/
structure Pushed (m m' : Machine) : Prop where
  keeps : Keeps m.frames.size m m'
  size : m'.frames.size = m.frames.size + 1

/-- The frames from `depth` on are gone, and the others are left alone. -/
structure Cut (depth : Nat) (m m' : Machine) : Prop where
  keeps : Keeps depth m m'
  size : m'.frames.size = depth

/-- The running frame is gone, and the others are left alone. -/
abbrev Popped (m m' : Machine) : Prop := Cut (m.frames.size - 1) m m'

/-- The stub frames and the nesting of calls from the host are as before. -/
structure Balanced (m m' : Machine) : Prop where
  stubFrames : m'.stubFrames = m.stubFrames
  reentryDepth : m'.reentryDepth = m.reentryDepth

end Machine

open Machine

variable {m m' m'' : Machine} {depth : Nat} {f : Frame} {h h' h'' : Heap} {f' f'' : Frame}

/-! ### Windows -/

theorem floor_congr {frames frames' : List Frame} (h : frames'.take depth = frames.take depth) :
    floor frames' depth = floor frames depth := by
  unfold floor
  rw [h]

theorem floor_mono (frames : List Frame) {i j : Nat} (hij : i ≤ j) : floor frames i ≤ floor frames j := by
  obtain ⟨k, rfl⟩ := Nat.exists_eq_add_of_le hij
  unfold floor
  rw [List.take_add, List.map_append, List.sum_append]
  exact Nat.le_add_right _ _

theorem floor_append (frames rest : List Frame) {i : Nat} (hi : i ≤ frames.length) :
    floor (frames ++ rest) i = floor frames i := by
  unfold floor
  rw [List.take_append_of_le_length hi]

/-- The window of a frame ends where the next one begins. -/
theorem floor_succ (frames : List Frame) {i : Nat} (hf : frames[i]? = some f) :
    floor frames (i + 1) = floor frames i + f.registerCount.toNat := by
  unfold floor
  rw [List.take_add_one, hf]
  simp

/-- The running frame is the last one. -/
theorem frame?_eq_some : m.frame? = some f ↔ ∃ below : Array Frame, m.frames = below.push f :=
  Array.back?_eq_some_iff

theorem frame?_eq_none : m.frame? = none ↔ m.frames = #[] := Array.back?_eq_none_iff

/-! ### Rules of composition -/

namespace Machine

theorem Endures.refl (m : Machine) : m.Endures m := ⟨rfl, rfl, rfl, Nat.le_refl _⟩

theorem Endures.trans (h₁ : m.Endures m') (h₂ : m'.Endures m'') : m.Endures m'' :=
  ⟨h₂.config.trans h₁.config, h₂.capacity.trans h₁.capacity, h₂.codes.trans h₁.codes,
    Nat.le_trans h₁.slots h₂.slots⟩

theorem Endures.roomy (he : m.Endures m') (hr : m'.heap.Roomy) : m.heap.Roomy :=
  Nat.lt_of_le_of_lt he.slots hr

theorem Keeps.refl (depth : Nat) (m : Machine) : Keeps depth m m :=
  ⟨.refl m, rfl, fun _ _ => rfl, fun _ _ _ _ _ => rfl⟩

theorem Keeps.trans (h₁ : Keeps depth m m') (h₂ : Keeps depth m' m'') : Keeps depth m m'' where
  toEndures := h₁.toEndures.trans h₂.toEndures
  frames := h₂.frames.trans h₁.frames
  registers i hi := by
    rw [h₂.registers i (by rwa [floor_congr h₁.frames]), h₁.registers i hi]
  scopes hr f hf n hn := by
    rw [h₂.scopes hr f (by rwa [h₁.frames]) n hn, h₁.scopes (h₂.roomy hr) f hf n hn]

theorem Keeps.mono (hk : Keeps depth m m') {d : Nat} (hd : d ≤ depth) : Keeps d m m' where
  toEndures := hk.toEndures
  frames := by
    have := congrArg (List.take d) hk.frames
    rwa [List.take_take, List.take_take, Nat.min_eq_left hd] at this
  registers i hi := hk.registers i (Nat.lt_of_lt_of_le hi (floor_mono _ hd))
  scopes hr f hf := hk.scopes hr f ((List.take_prefix_take_left hd).subset hf)

theorem Keeps.getElem? (hk : Keeps depth m m') {i : Nat} (hi : i < depth) :
    m'.frames[i]? = m.frames[i]? := by
  have := congrArg (·[i]?) hk.frames
  simpa [List.getElem?_take, hi] using this

theorem Still.refl (m : Machine) : m.Still m :=
  ⟨.refl m, rfl, rfl, fun _ _ _ _ _ => rfl⟩

theorem Still.trans (h₁ : m.Still m') (h₂ : m'.Still m'') : m.Still m'' where
  toEndures := h₁.toEndures.trans h₂.toEndures
  frames := h₂.frames.trans h₁.frames
  registers := h₂.registers.trans h₁.registers
  scopes hr f hf n hn := by
    rw [h₂.scopes hr f (by rwa [h₁.frames]) n hn, h₁.scopes (h₂.roomy hr) f hf n hn]

theorem Still.keeps (hs : m.Still m') (depth : Nat) : Keeps depth m m' where
  toEndures := hs.toEndures
  frames := by rw [hs.frames]
  registers i _ := by rw [hs.registers]
  scopes hr f hf := hs.scopes hr f (Array.mem_toList_iff.mp (List.mem_of_mem_take hf))

/-- Stacks that keep all frames and gain none stay as they are. -/
theorem Keeps.still (hk : Keeps m.frames.size m m') (hs : m'.frames.size = m.frames.size)
    (ho : m.Stacked) (ho' : m'.Stacked) : m.Still m' := by
  have hframes : m'.frames = m.frames := by
    have := hk.frames
    rw [List.take_of_length_le (by simp [hs]), List.take_of_length_le (by simp)] at this
    exact Array.toList_inj.mp this
  have hregisters : m'.registers.registers = m.registers.registers := by
    refine Array.ext_getElem? fun i => ?_
    by_cases hi : i < floor m.frames.toList m.frames.size
    · exact hk.registers i hi
    · have hsize : m'.registers.registers.size = m.registers.registers.size := by
        rw [ho'.size, ho.size, hframes]
      rw [Array.getElem?_eq_none (by rw [hsize, ho.size]; omega),
        Array.getElem?_eq_none (by rw [ho.size]; omega)]
  refine ⟨hk.toEndures, hframes, ?_, fun hr f hf => hk.scopes hr f ?_⟩
  · have hcapacity := hk.capacity
    cases hm : m'.registers
    cases hm' : m.registers
    simp_all
  · rw [List.take_of_length_le (by simp)]
    exact Array.mem_toList_iff.mpr hf

/-- A frame that was pushed and popped leaves nothing behind. -/
theorem Pushed.popped (hp : m.Pushed m') (hp' : m'.Popped m'') (ho : m.Stacked)
    (ho' : m''.Stacked) : m.Still m'' := by
  have hk := hp'.keeps
  have hs := hp'.size
  rw [hp.size, Nat.add_sub_cancel] at hk hs
  exact (hp.keeps.trans hk).still hs ho ho'

/-- A head that stays the same twice. -/
theorem SameHead.trans {d : Nat} (h₁ : SameHead d h f h' f') (h₂ : SameHead d h' f' h'' f'')
    (ha₁ : ∀ a, f.activation = some a → f'.activation = some a)
    (ha₂ : ∀ a, f'.activation = some a → f''.activation = some a) : SameHead d h f h'' f'' := by
  rcases h₁ with hsame | ⟨rfl, hnone, a, ha, hhead⟩
  · rcases h₂ with hsame' | ⟨rfl, hnone, moved⟩
    · exact .inl (hsame'.trans hsame)
    · refine .inr ⟨rfl, ?_, moved⟩
      cases hact : f.activation with
      | none => rfl
      | some a =>
        rw [ha₁ a hact] at hnone
        cases hnone
  · rcases h₂ with hsame' | ⟨-, hnone', -⟩
    · exact .inr ⟨rfl, hnone, a, ha₂ a ha, hsame'.trans hhead⟩
    · rw [ha] at hnone'
      cases hnone'

theorem Heads.refl (h : Heap) (f : Frame) : Heads h f h f := ⟨fun _ h => h, fun _ _ _ _ => .inl rfl⟩

theorem Heads.trans (h₁ : Heads h f h' f') (h₂ : Heads h' f' h'' f'')
    (hr : h''.Roomy → h'.Roomy)
    (hd : ∀ d ≤ f.scopeDepth.toNat, d ≤ f''.scopeDepth.toNat → d ≤ f'.scopeDepth.toNat) :
    Heads h f h'' f'' where
  activation a ha := h₂.activation a (h₁.activation a ha)
  heads hroom d hle hle'' :=
    have hle' := hd d hle hle''
    (h₁.heads (hr hroom) d hle hle').trans (h₂.heads hroom d hle' hle'') h₁.activation h₂.activation

/-- The heads of a frame that is left alone. -/
theorem Heads.of_scope (hs : f'.scope = f.scope) (hd : f'.scopeDepth = f.scopeDepth)
    (ha : f'.activation = f.activation)
    (hc : h'.Roomy → ∀ n ≤ f.scopeDepth.toNat, h'.enclosing^[n] f.scope = h.enclosing^[n] f.scope) :
    Heads h f h' f' where
  activation a h := by rw [ha, h]
  heads hr d _ _ := by
    left
    unfold Frame.headAt
    rw [hs, hd, hc hr _ (Nat.sub_le _ _)]

section Shifts
variable {rel rel' : Heap → Frame → Heap → Frame → Prop}

theorem Shifts.mono (hrel : ∀ h f h' f', rel h f h' f' → rel' h f h' f') (hs : Shifts rel m m') :
    Shifts rel' m m' := by
  refine ⟨hs.keeps, hs.size, fun f hf => ?_⟩
  obtain ⟨f', hf', hcall, hr⟩ := hs.top f hf
  exact ⟨f', hf', hcall, hrel _ _ _ _ hr⟩

/-- The running frame is the same call. -/
theorem Shifts.frame? (hs : Shifts rel m m') : m'.frame?.map Frame.call = m.frame?.map Frame.call := by
  cases hf : m.frame? with
  | none =>
    have hsize := hs.size
    rw [frame?_eq_none.mp hf] at hsize
    rw [frame?_eq_none.mpr (Array.size_eq_zero_iff.mp hsize)]
  | some f =>
    obtain ⟨f', hf', hcall, -⟩ := hs.top f hf
    rw [hf', Option.map_some, Option.map_some, hcall]

/-- One shift after the other. -/
theorem Shifts.comp {rel'' : Heap → Frame → Heap → Frame → Prop} (h₁ : Shifts rel m m')
    (h₂ : Shifts rel' m' m'') (hrel : ∀ f f' f'', (m''.heap.Roomy → m'.heap.Roomy) →
      rel m.heap f m'.heap f' → rel' m'.heap f' m''.heap f'' → rel'' m.heap f m''.heap f'') :
    Shifts rel'' m m'' := by
  have hk₂ := h₂.keeps
  rw [h₁.size] at hk₂
  refine ⟨h₁.keeps.trans hk₂, h₂.size.trans h₁.size, fun f hf => ?_⟩
  obtain ⟨f', hf', hcall', hr'⟩ := h₁.top f hf
  obtain ⟨f'', hf'', hcall'', hr''⟩ := h₂.top f' hf'
  exact ⟨f'', hf'', hcall''.trans hcall', hrel f f' f'' hk₂.roomy hr' hr''⟩

end Shifts

theorem Still.works (hs : m.Still m') : m.Works m' := by
  refine ⟨hs.keeps _, by rw [hs.frames], fun f hf => ⟨f, ?_, rfl, rfl, ?_⟩⟩
  · unfold Machine.frame? at hf ⊢
    rwa [hs.frames]
  · exact .of_scope rfl rfl rfl fun hr => hs.scopes hr f (Array.mem_of_back? hf)

theorem Works.refl (m : Machine) : m.Works m := (Still.refl m).works

theorem Works.trans (h₁ : m.Works m') (h₂ : m'.Works m'') : m.Works m'' := by
  refine Shifts.comp h₁ h₂ fun f f' f'' hr hr₁ hr₂ => ⟨hr₂.1.trans hr₁.1, hr₁.2.trans hr₂.2 hr ?_⟩
  intro d hd _
  rwa [hr₁.1]

theorem Works.advances (hw : m.Works m') : m.Advances m' := Shifts.mono (fun _ _ _ _ h => h.2) hw

theorem Works.trans_advances (h₁ : m.Works m') (h₂ : m'.Advances m'') : m.Advances m'' := by
  refine Shifts.comp h₁ h₂ fun f f' f'' hr hr₁ hr₂ => hr₁.2.trans hr₂ hr ?_
  intro d hd _
  rwa [hr₁.1]

theorem Advances.trans_works (h₁ : m.Advances m') (h₂ : m'.Works m'') : m.Advances m'' := by
  refine Shifts.comp h₁ h₂ fun f f' f'' hr hr₁ hr₂ => hr₁.trans hr₂.2 hr ?_
  intro d _ hd
  rwa [← hr₂.1]

theorem Works.closes (hw : m.Works m') : m.Closes m' :=
  Shifts.mono (fun _ _ _ _ h => ⟨Nat.le_of_eq (congrArg UInt32.toNat h.1), h.2⟩) hw

theorem Closes.trans (h₁ : m.Closes m') (h₂ : m'.Closes m'') : m.Closes m'' := by
  refine Shifts.comp h₁ h₂ fun f f' f'' hr hr₁ hr₂ =>
    ⟨Nat.le_trans hr₂.1 hr₁.1, hr₁.2.trans hr₂.2 hr ?_⟩
  intro d _ hd
  exact Nat.le_trans hd hr₂.1

theorem Advances.trans_closes (h₁ : m.Advances m') (h₂ : m'.Closes m'') : m.Advances m'' := by
  refine Shifts.comp h₁ h₂ fun f f' f'' hr hr₁ hr₂ => hr₁.trans hr₂.2 hr ?_
  intro d _ hd
  exact Nat.le_trans hd hr₂.1

theorem Advances.stays (ha : m.Advances m') : m.Stays m' := Shifts.mono (fun _ _ _ _ _ => trivial) ha

theorem Stays.trans (h₁ : m.Stays m') (h₂ : m'.Stays m'') : m.Stays m'' :=
  Shifts.comp h₁ h₂ fun _ _ _ _ _ _ => trivial

/-- A frame that is popped after it has run. -/
theorem Stays.popped (hs : m.Stays m') (hp : m'.Popped m'') : m.Popped m'' := by
  have hk := hp.keeps
  have hsize := hp.size
  rw [hs.size] at hk hsize
  exact ⟨hs.keeps.trans hk, hsize⟩

theorem Cut.after (hk : Keeps depth m m') (hc : Cut depth m' m'') : Cut depth m m'' :=
  ⟨hk.trans hc.keeps, hc.size⟩

theorem Balanced.refl (m : Machine) : m.Balanced m := ⟨rfl, rfl⟩

theorem Balanced.trans (h₁ : m.Balanced m') (h₂ : m'.Balanced m'') : m.Balanced m'' :=
  ⟨h₂.stubFrames.trans h₁.stubFrames, h₂.reentryDepth.trans h₁.reentryDepth⟩

instance : IsPreorder Machine Still where
  refl := .refl
  trans _ _ _ := .trans

instance : IsPreorder Machine Works where
  refl := .refl
  trans _ _ _ := .trans

end Machine

/-! ### Orderly runs -/

/-- How a run ends, if it does: with a result, or unwinding. -/
def Concludes {α : Type} (Q : α → Machine → Prop) (E : Unwind → Machine → Prop) :
    EStateM.Result Stop Machine α → Prop
  | .ok a m => Q a m
  | .error (.unwound u) m => E u m
  | .error _ _ => True

/-- **A run that leaves an orderly machine**, and how it ends if it does. -/
structure Proceeds {α : Type} (r : EStateM.Result Stop Machine α) (Q : α → Machine → Prop)
    (E : Unwind → Machine → Prop) : Prop where
  orderly : (leaves r).Orderly
  ends : Concludes Q E r

/-- **What an action relies on**: nested activities leave the stacks as they are, and a frame that runs
to its end is popped; telling the listeners of an event never unwinds. -/
structure Env.Orderly (env : Env) : Prop where
  notify : ∀ event (m : Machine), m.Orderly → Proceeds (env.reenter (.notify event) m)
    (fun _ m' => m.Still m' ∧ m.Balanced m') fun _ _ => False
  host : ∀ function call (m : Machine), m.Orderly → Proceeds (env.reenter (.host function call) m)
    (fun _ m' => m.Still m' ∧ m.Balanced m') fun _ m' => m.Still m' ∧ m.Balanced m'
  frame : ∀ m : Machine, m.Orderly → m.frames ≠ #[] → Proceeds (env.reenter .frame m)
    (fun _ m' => m.Popped m' ∧ m.Balanced m') fun _ m' => m.Popped m' ∧ m.Balanced m'

/-- **An action that leaves a machine in a relation to what it was**, unless it does not end. -/
def Keeping {α : Type} (R : Machine → Machine → Prop) (x : MachineM α) : Prop :=
  ∀ (env : Env) (m : Machine), env.Orderly → m.Orderly →
    Proceeds (x env m) (fun _ m' => R m m' ∧ m.Balanced m') fun _ m' => R m m' ∧ m.Balanced m'

/-- An action that leaves the stacks as they are. -/
abbrev Restful {α : Type} (x : MachineM α) : Prop := Keeping Still x

section Rules

variable {α β : Type} {env : Env} {x : MachineM α} {g : α → MachineM β} {R R' : Machine → Machine → Prop}
  {Q Q' : α → Machine → Prop} {E E' : Unwind → Machine → Prop} {P : β → Machine → Prop}

/-- An action that has a result is followed by the next one. -/
theorem bind_eq_of_ok {a : α} (hx : x env m = .ok a m') : (x >>= g) env m = g a env m' := by
  simp only [Bind.bind, ReaderT.bind, EStateM.bind, hx]

/-- An action that stops is the end. -/
theorem bind_eq_of_error {stop : Stop} (hx : x env m = .error stop m') :
    (x >>= g) env m = .error stop m' := by
  simp only [Bind.bind, ReaderT.bind, EStateM.bind, hx]

theorem attempt_eq_of_ok {a : α} (hx : x env m = .ok a m') : attempt x env m = .ok (.ok a) m' := by
  rw [attempt, hx]

theorem attempt_eq_of_unwound {u : Unwind} (hx : x env m = .error (.unwound u) m') :
    attempt x env m = .ok (.error u) m' := by
  rw [attempt, hx]

/-- An attempt catches nothing but unwinding. -/
theorem attempt_eq_of_stopped {stop : Stop} (hx : x env m = .error stop m')
    (hs : ∀ u, stop ≠ .unwound u) : attempt x env m = .error stop m' := by
  rw [attempt, hx]
  cases stop with
  | unwound u => exact absurd rfl (hs u)
  | exhausted | paused _ => rfl

namespace Proceeds

variable {r : EStateM.Result Stop Machine α}

theorem mono (hr : Proceeds r Q E) (hQ : ∀ a m, m.Orderly → Q a m → Q' a m)
    (hE : ∀ u m, m.Orderly → E u m → E' u m) : Proceeds r Q' E' := by
  have hends := hr.ends
  have horderly := hr.orderly
  refine ⟨hr.orderly, ?_⟩
  cases r with
  | ok a m => exact hQ a m horderly hends
  | error stop m =>
    cases stop with
    | unwound u => exact hE u m horderly hends
    | exhausted => trivial
    | paused _ => trivial

theorem ret (hm : m.Orderly) {a : α} (hQ : Q a m) : Proceeds ((pure a : MachineM α) env m) Q E :=
  ⟨hm, hQ⟩

theorem unwind (hm : m.Orderly) {u : Unwind} (hE : E u m) :
    Proceeds ((unwind u : MachineM α) env m) Q E := ⟨hm, hE⟩

theorem exhausted (hm : m.Orderly) : Proceeds ((throw .exhausted : MachineM α) env m) Q E :=
  ⟨hm, trivial⟩

/-- What is searched for is found, or the search never ends. -/
theorem settled (hm : m.Orderly) {found : Option α} (hQ : ∀ a, found = some a → Q a m) :
    Proceeds (settled found env m) Q E := by
  cases found with
  | some a => exact ret hm (hQ a rfl)
  | none => exact exhausted hm

/-- **One action after the other.** -/
theorem bind (hx : Proceeds (x env m) Q E)
    (hg : ∀ a m', m'.Orderly → Q a m' → Proceeds (g a env m') P E) :
    Proceeds ((x >>= g) env m) P E := by
  have horderly := hx.orderly
  have hends := hx.ends
  cases hr : x env m with
  | ok a m' =>
    rw [hr] at horderly hends
    rw [bind_eq_of_ok hr]
    exact hg a m' horderly hends
  | error stop m' =>
    rw [hr] at horderly hends
    rw [bind_eq_of_error hr]
    exact ⟨horderly, by cases stop <;> exact hends⟩

theorem attempt (hx : Proceeds (x env m) Q E) : Proceeds (attempt x env m)
    (fun r m' => match r with
      | .ok a => Q a m'
      | .error u => E u m') E' := by
  have horderly := hx.orderly
  have hends := hx.ends
  cases hr : x env m with
  | ok a m' =>
    rw [hr] at horderly hends
    rw [attempt_eq_of_ok hr]
    exact ⟨horderly, hends⟩
  | error stop m' =>
    rw [hr] at horderly hends
    cases stop with
    | unwound u =>
      rw [attempt_eq_of_unwound hr]
      exact ⟨horderly, hends⟩
    | exhausted | paused _ =>
      rw [attempt_eq_of_stopped hr fun _ h => by cases h]
      exact ⟨horderly, trivial⟩

/-- What is true however the action ends is true when it is caught. -/
theorem caught {S : Machine → Prop} (hx : Proceeds (x env m) (fun _ m' => S m') fun _ m' => S m') :
    Proceeds (ScriptMachine.attempt x env m) (fun _ m' => S m') E' :=
  hx.attempt.mono (fun r _ _ h => by cases r <;> exact h) fun _ _ _ h => h

theorem pass (hm : m.Orderly) {held : List Value} {g : Unit → MachineM β}
    (hg : Proceeds (g () env m) P E) : Proceeds ((checkpoint held >>= g) env m) P E := by
  by_cases hp : env.pause m held
  · have heq : (checkpoint held >>= g) env m = .error (.paused held) m := by
      simp only [checkpoint, Bind.bind, ReaderT.bind, EStateM.bind, if_pos hp]
    rw [heq]
    exact ⟨hm, trivial⟩
  · have heq : (checkpoint held >>= g) env m = g () env m := by
      simp only [checkpoint, Bind.bind, ReaderT.bind, EStateM.bind, if_neg hp]
    rw [heq]
    exact hg

theorem look {g : Machine → MachineM β} (hg : Proceeds (g m env m) P E) :
    Proceeds ((get >>= g) env m) P E := hg

theorem ask {g : Env → MachineM β} (hg : Proceeds (g env env m) P E) :
    Proceeds ((read >>= g) env m) P E := hg

theorem step {c : Machine → α × Machine} (hm : (c m).2.Orderly) (hQ : Q (c m).1 (c m).2) :
    Proceeds ((modifyGet c : MachineM α) env m) Q E := ⟨hm, hQ⟩

theorem stepTo {c : Machine → α × Machine} {a : α} (h : c m = (a, m')) (hm : m'.Orderly)
    (hQ : Q a m') : Proceeds ((modifyGet c : MachineM α) env m) Q E :=
  step (by rwa [h]) (by rwa [h])

theorem change {c : Machine → Machine} {Q : PUnit → Machine → Prop} (hm : (c m).Orderly)
    (hQ : Q ⟨⟩ (c m)) : Proceeds ((modify c : MachineM PUnit) env m) Q E := ⟨hm, hQ⟩

theorem ite {c : Prop} [Decidable c] {y : MachineM α} (ht : c → Proceeds (x env m) Q E)
    (hf : ¬c → Proceeds (y env m) Q E) : Proceeds ((if c then x else y) env m) Q E := by
  split
  case isTrue h => exact ht h
  case isFalse h => exact hf h

end Proceeds

namespace Keeping

theorem mono (hR : ∀ m m', R m m' → R' m m') (hx : Keeping R x) : Keeping R' x :=
  fun env m he hm => (hx env m he hm).mono (fun _ _ _ h => ⟨hR _ _ h.1, h.2⟩)
    fun _ _ _ h => ⟨hR _ _ h.1, h.2⟩

theorem works (hx : Restful x) : Keeping Works x := hx.mono fun _ _ => Still.works

theorem ite {c : Prop} [Decidable c] {y : MachineM α} (hx : c → Keeping R x) (hy : ¬c → Keeping R y) :
    Keeping R (if c then x else y) := by
  split
  case isTrue h => exact hx h
  case isFalse h => exact hy h

theorem attempt (hx : Keeping R x) : Keeping R (attempt x) := fun env m he hm =>
  (hx env m he hm).caught

/-- A step of the machine. -/
theorem step {c : Machine → α × Machine}
    (hc : ∀ m : Machine, m.Orderly → (c m).2.Orderly ∧ R m (c m).2 ∧ m.Balanced (c m).2) :
    Keeping R (modifyGet c) :=
  fun _ m _ hm => .step (hc m hm).1 (hc m hm).2

theorem change {c : Machine → Machine}
    (hc : ∀ m : Machine, m.Orderly → (c m).Orderly ∧ R m (c m) ∧ m.Balanced (c m)) :
    Keeping R (modify c) :=
  fun _ m _ hm => .change (hc m hm).1 (hc m hm).2

variable [IsPreorder Machine R]

theorem ret (a : α) : Keeping R (pure a : MachineM α) :=
  fun _ m _ hm => .ret hm ⟨refl_of R m, .refl m⟩

theorem unwind (u : Unwind) : Keeping R (unwind u : MachineM α) :=
  fun _ m _ hm => .unwind hm ⟨refl_of R m, .refl m⟩

theorem fatal (failure : Failure) : Keeping R (fatal failure : MachineM α) := unwind _

theorem settled (found : Option α) : Keeping R (settled found) := fun _ m _ hm =>
  .settled hm fun _ _ => ⟨refl_of R m, .refl m⟩

theorem look : Keeping R (get : MachineM Machine) :=
  fun _ m _ hm => ⟨hm, refl_of R m, .refl m⟩

/-- **One action after the other.** -/
theorem bind (hx : Keeping R x) (hg : ∀ a, Keeping R (g a)) : Keeping R (x >>= g) := by
  intro env m he hm
  refine Proceeds.bind (hx env m he hm) fun a m' hm' h => ?_
  refine (hg a env m' he hm').mono (fun _ _ _ h' => ?_) fun _ _ _ h' => ?_
  all_goals exact ⟨trans_of R h.1 h'.1, h.2.trans h'.2⟩

theorem checkpoint (held : List Value) : Keeping R (checkpoint held) := by
  intro env m _ hm
  have : ScriptMachine.checkpoint held = (ScriptMachine.checkpoint held >>= fun u => pure u) :=
    (bind_pure _).symm
  rw [this]
  exact Proceeds.pass hm (.ret hm ⟨refl_of R m, .refl m⟩)

end Keeping

end Rules

end ScriptMachine
