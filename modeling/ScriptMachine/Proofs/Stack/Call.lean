import ScriptMachine.Proofs.Stack.Scope

/-! # Pushing and popping frames

A frame is pushed with its window on top of the register file, and popped with it, after the listeners
have been told (`Proceeds.pushFrame`, `Proceeds.popFrame`). A call that runs its frame in a loop of its
own therefore leaves the stacks as they are, however it ends (`Keeping.callValue`). A handler is
entered by changing the running frame only: it continues at the target, with the block scopes the
handler expects (`findHandler_eq`). -/

namespace ScriptMachine

open Machine

variable {m m' : Machine} {f : Frame} {below : Array Frame} {depth : Nat}

/-! ### Windows -/

namespace RegisterFile

theorem fill_spec (file : RegisterFile) (base : Nat) (values : Array Value) :
    (file.fill base values).registers.size = file.registers.size ∧
      (file.fill base values).capacity = file.capacity ∧
      ∀ i < base, (file.fill base values).registers[i]? = file.registers[i]? := by
  obtain ⟨values⟩ := values
  induction values generalizing file base with
  | nil => exact ⟨rfl, rfl, fun _ _ => rfl⟩
  | cons value values ih =>
    have hfill : file.fill base ⟨value :: values⟩ = (file.set base value).fill (base + 1) ⟨values⟩ := by
      simp [fill]
    obtain ⟨hsize, hcapacity, hsame⟩ := ih (file.set base value) (base + 1)
    rw [hfill]
    refine ⟨hsize.trans (by simp [set]), hcapacity, fun i hi => ?_⟩
    rw [hsame i (Nat.lt_succ_of_lt hi)]
    exact Array.getElem?_setIfInBounds_ne (Nat.ne_of_gt hi)

end RegisterFile

namespace Machine

/-! ### Pushing and popping -/

/-- **A frame on top of the others**, with its window on top of the register file. -/
theorem Orderly.push (hm : m.Orderly) (registers : RegisterFile)
    (hbase : f.base = m.registers.registers.size) (hdepth : f.scopeDepth = 0)
    (hroom : m.frames.size < m.config.maxCallDepth)
    (hsize : registers.registers.size = m.registers.registers.size + f.registerCount.toNat)
    (hcapacity : registers.capacity = m.registers.capacity)
    (hfits : registers.registers.size ≤ registers.capacity)
    (hsame : ∀ i < m.registers.registers.size,
      registers.registers[i]? = m.registers.registers[i]?) :
    let m' := { m with registers, frames := m.frames.push f }
    m'.Orderly ∧ m.Pushed m' ∧ m.Balanced m' := by
  have htake {i : Nat} (hi : i ≤ m.frames.size) :
      floor (m.frames.push f).toList i = floor m.frames.toList i := by
    rw [Array.toList_push, floor_append _ _ (by simpa using hi)]
  have hfloor : floor (m.frames.push f).toList (m.frames.size + 1) =
      floor m.frames.toList m.frames.size + f.registerCount.toNat := by
    rw [floor_succ (f := f) _ (by simp), htake (Nat.le_refl _)]
  refine ⟨⟨⟨fun i k hk => ?_, ?_, ?_, hfits, hm.stacked.nesting⟩,
    ⟨hm.settled.lowered, fun k hk hd => ?_⟩,
    ⟨hm.chained.white, hm.chained.listed, fun hr k hk => ?_⟩,
    ⟨hm.hosted.hosts, hm.hosted.listeners⟩⟩,
    ⟨⟨⟨rfl, hcapacity, rfl, Nat.le_refl _⟩, by simp, fun i hi => hsame i ?_, fun _ _ _ _ _ => rfl⟩,
      by simp⟩, rfl, rfl⟩
  · have hk : (m.frames.push f)[i]? = some k := hk
    rw [Array.getElem?_push] at hk
    split at hk
    case isTrue hi =>
      obtain rfl := Option.some.inj hk
      rw [htake (Nat.le_of_eq hi), hbase, hm.stacked.size, hi]
    case isFalse hi =>
      rw [htake (Nat.le_of_lt (Array.getElem?_eq_some_iff.mp hk).1)]
      exact hm.stacked.tile i k hk
  · rw [hsize, hm.stacked.size, Array.size_push, hfloor]
  · simp only [Array.size_push]
    exact hroom
  · rcases Array.mem_push.mp hk with hk | rfl
    · exact hm.settled.moved k hk hd
    · exact absurd hdepth hd
  · rcases Array.mem_push.mp hk with hk | rfl
    · exact hm.chained.scopes hr k hk
    · rw [hdepth]
      exact .zero
  · rwa [hm.stacked.size]

/-- The machine without its running frame and its window. -/
def unframed (m : Machine) (f : Frame) : Machine :=
  { m with frames := m.frames.pop, registers := m.registers.truncate f.base }

/-- **A frame is popped** with its window. -/
theorem Orderly.unframed (hm : m.Orderly) (hf : m.frame? = some f) :
    (m.unframed f).Orderly ∧ m.Popped (m.unframed f) ∧ m.Balanced (m.unframed f) := by
  obtain ⟨below, hframes⟩ := frame?_eq_some.mp hf
  have hpop : (m.unframed f).frames = below := by simp [Machine.unframed, hframes]
  have hcount : m.frames.size = below.size + 1 := by simp [hframes]
  have hbase : f.base = floor below.toList below.size := by
    rw [hm.stacked.base hf, hcount, hframes, Array.toList_push, floor_append _ _ (by simp)]
    rfl
  have hwindows : floor m.frames.toList (below.size + 1) =
      floor below.toList below.size + f.registerCount.toNat := by
    rw [floor_succ (f := f) _ (by simp [hframes]), hframes, Array.toList_push,
      floor_append _ _ (by simp)]
  have hsize : (m.unframed f).registers.registers.size = floor below.toList below.size := by
    have := hm.stacked.size
    rw [hcount, hwindows] at this
    simp only [Machine.unframed, RegisterFile.truncate, Array.size_shrink, hbase, this]
    omega
  have hmem (k : Frame) (hk : k ∈ (m.unframed f).frames) : k ∈ m.frames := by
    rw [hpop] at hk
    rw [hframes]
    exact Array.mem_push.mpr (.inl hk)
  refine ⟨⟨⟨fun i k hk => ?_, ?_, ?_, ?_, hm.stacked.nesting⟩,
    ⟨hm.settled.lowered, fun k hk => hm.settled.moved k (hmem k hk)⟩,
    ⟨hm.chained.white, hm.chained.listed, fun hr k hk => hm.chained.scopes hr k (hmem k hk)⟩,
    ⟨hm.hosted.hosts, hm.hosted.listeners⟩⟩,
    ⟨⟨⟨rfl, rfl, rfl, Nat.le_refl _⟩, ?_, fun i hi => ?_, fun _ _ _ _ _ => rfl⟩, ?_⟩, rfl, rfl⟩
  · rw [hpop] at hk ⊢
    have hi := (Array.getElem?_eq_some_iff.mp hk).1
    rw [hm.stacked.tile i k (by rw [hframes, Array.getElem?_push_lt hi, ← hk]; simp [hi]), hframes,
      Array.toList_push, floor_append _ _ (by simpa using Nat.le_of_lt hi)]
  · rw [hsize, hpop]
  · have := hm.stacked.depth
    rw [hcount] at this
    rw [hpop]
    exact Nat.le_of_succ_le this
  · refine Nat.le_trans ?_ hm.stacked.room
    simp [Machine.unframed, RegisterFile.truncate]
  · rw [hpop, hcount, hframes]
    simp
  · rw [← hm.stacked.base hf] at hi
    change (m.registers.registers.shrink f.base)[i]? = _
    rw [Array.shrink_eq_take, Array.take, Array.getElem?_extract]
    split
    case isTrue => rw [Nat.zero_add]
    case isFalse h => rw [Array.getElem?_eq_none (by omega)]
  · rw [hpop, hcount, Nat.add_sub_cancel]

theorem Popped.refl_of_empty (hf : m.frames = #[]) : m.Popped m :=
  ⟨.refl _ m, by simp [hf]⟩

end Machine

/-! ### Handlers -/

/-- The handler that takes an exception in a frame: that of the instruction before its position. -/
def Frame.handler? (m : Machine) (f : Frame) : Option Handler :=
  match m.code? f.code with
  | some entry => entry.block.handlerFor? (f.pc - min f.pc 1)
  | none => none

/-- The frame continues at a handler, with the block scopes the handler expects. -/
def Frame.resumed (h : Heap) (f : Frame) (handler : Handler) : Frame :=
  { f with pc := handler.target
           scope := f.headAt h handler.scopeDepth.toNat
           scopeDepth := min f.scopeDepth handler.scopeDepth }

theorem Frame.scopeDepth_resumed (h : Heap) (f : Frame) (handler : Handler) :
    (f.resumed h handler).scopeDepth.toNat = min f.scopeDepth.toNat handler.scopeDepth.toNat :=
  UInt32.toNat_min _ _

/-- The block scopes that stay open have the heads they had. -/
theorem Frame.headAt_resumed {h : Heap} {handler : Handler} {d : Nat}
    (hd : d ≤ (f.resumed h handler).scopeDepth.toNat) :
    (f.resumed h handler).headAt h d = f.headAt h d := by
  rw [scopeDepth_resumed] at hd
  unfold headAt
  rw [scopeDepth_resumed]
  change h.enclosing^[_] (h.enclosing^[_] f.scope) = _
  rw [← Function.iterate_add_apply]
  congr 2
  omega

namespace Machine

theorem toNat_toUInt32 {n : Nat} {d : UInt32} (hn : n ≤ d.toNat) : n.toUInt32.toNat = n :=
  Nat.mod_eq_of_lt (Nat.lt_of_le_of_lt hn d.toNat_lt)

theorem toNat_sub_toUInt32 {n : Nat} {d : UInt32} (hn : n ≤ d.toNat) :
    (d - n.toUInt32).toNat = d.toNat - n := by
  have hle : n.toUInt32 ≤ d := by rwa [UInt32.le_iff_toNat_le, toNat_toUInt32 hn]
  rw [UInt32.toNat_sub_of_le _ _ hle, toNat_toUInt32 hn]

/-- Closing a number of block scopes. -/
theorem foldl_popScope (hf : m.frame? = some f) {count : Nat} (hc : count ≤ f.scopeDepth.toNat) :
    (List.range count).foldl (fun m _ => m.popScope) m = m.modifyFrame fun f =>
      { f with scope := m.heap.enclosing^[count] f.scope
               scopeDepth := f.scopeDepth - count.toUInt32 } := by
  induction count with
  | zero =>
    obtain ⟨below, hframes⟩ := frame?_eq_some.mp hf
    have hzero : f.scopeDepth - (0 : Nat).toUInt32 = f.scopeDepth := UInt32.sub_zero _
    have hsame : m.modifyFrame id = m := by
      have := frames_modifyFrame (g := id) hframes
      rw [id, ← hframes] at this
      exact congrArg (fun frames => { m with frames }) this
    rw [List.range_zero, List.foldl_nil]
    refine hsame.symm.trans (modifyFrame_congr hf ?_)
    simp only [Function.iterate_zero, id_eq, hzero]
  | succ count ih =>
    have hrest := toNat_sub_toUInt32 (Nat.le_of_succ_le hc)
    have hne : f.scopeDepth - count.toUInt32 ≠ 0 := by
      intro h
      rw [h] at hrest
      have : (0 : UInt32).toNat = 0 := rfl
      omega
    have hclosed : f.scopeDepth - count.toUInt32 - 1 = f.scopeDepth - (count + 1).toUInt32 := by
      rw [← UInt32.toNat_inj, toNat_sub_one hne, hrest, toNat_sub_toUInt32 hc]
      omega
    rw [List.range_succ, List.foldl_append, ih (Nat.le_of_succ_le hc), List.foldl_cons,
      List.foldl_nil, popScope_eq (frame?_modifyFrame hf) hne, modifyFrame_modifyFrame]
    refine modifyFrame_congr hf ?_
    simp only [Function.comp_apply, closeScope, Function.iterate_succ_apply', hclosed]
    rfl

/-- **What finding a handler does** to the running frame. -/
theorem findHandler_eq (hf : m.frame? = some f) :
    m.findHandler = match f.handler? m with
      | none => (none, m)
      | some handler => (some handler.target, m.modifyFrame (·.resumed m.heap handler)) := by
  unfold findHandler Frame.handler?
  rw [hf]
  dsimp only
  cases m.code? f.code with
  | none => rfl
  | some entry =>
    dsimp only
    cases entry.block.handlerFor? (f.pc - min f.pc 1) with
    | none => rfl
    | some handler =>
      have hmin : (min f.scopeDepth handler.scopeDepth).toNat =
          min f.scopeDepth.toNat handler.scopeDepth.toNat := UInt32.toNat_min _ _
      have hle : min f.scopeDepth handler.scopeDepth ≤ f.scopeDepth := by
        rw [UInt32.le_iff_toNat_le, hmin]
        exact Nat.min_le_left _ _
      have hopen : (f.scopeDepth - min f.scopeDepth handler.scopeDepth).toNat =
          f.scopeDepth.toNat - handler.scopeDepth.toNat := by
        rw [UInt32.toNat_sub_of_le _ _ hle, hmin]
        omega
      have hcount : f.scopeDepth.toNat - handler.scopeDepth.toNat ≤ f.scopeDepth.toNat :=
        Nat.sub_le _ _
      have hclosed : f.scopeDepth - (f.scopeDepth.toNat - handler.scopeDepth.toNat).toUInt32 =
          min f.scopeDepth handler.scopeDepth := by
        rw [← UInt32.toNat_inj, toNat_sub_toUInt32 hcount, hmin]
        omega
      dsimp only
      rw [hopen, foldl_popScope hf hcount, setPc, modifyFrame_modifyFrame]
      refine congrArg (Prod.mk _) (modifyFrame_congr hf ?_)
      simp only [Function.comp_apply, hclosed]
      rfl

/-- What delivering an exception does. -/
theorem enterHandler_eq (hf : m.frame? = some f) (env : Env) (v : Value) :
    enterHandler v env m = match f.handler? m with
      | none => .ok none m
      | some handler => .ok (some handler.target)
          { m.modifyFrame (·.resumed m.heap handler) with pendingException := some v } := by
  unfold enterHandler
  rw [modifyGet_run, findHandler_eq hf]
  cases f.handler? m <;> rfl

/-- **A frame that continues at a handler** has the block scopes that were open before the others. -/
theorem Orderly.resumed (hm : m.Orderly) (hf : m.frame? = some f) (handler : Handler) :
    (m.modifyFrame (·.resumed m.heap handler)).Orderly ∧
      m.Closes (m.modifyFrame (·.resumed m.heap handler)) ∧
      m.Balanced (m.modifyFrame (·.resumed m.heap handler)) := by
  have hmem := Array.mem_of_back? hf
  have hopen := f.scopeDepth_resumed m.heap handler
  refine hm.modifyFrame hf rfl (fun hd => hm.settled.moved f hmem fun hz => hd ?_) (fun hr => ?_)
    ⟨by rw [hopen]; exact Nat.min_le_left _ _, fun _ ha => ha, fun _ d _ hd =>
      .inl (Frame.headAt_resumed hd)⟩
  · rw [← UInt32.toNat_inj, hopen, hz]
    exact Nat.zero_min _
  · have := (hm.chained.scopes hr f hmem).drop
      (n := f.scopeDepth.toNat - handler.scopeDepth.toNat) (Nat.sub_le _ _)
    rw [hopen]
    rwa [show f.scopeDepth.toNat - (f.scopeDepth.toNat - handler.scopeDepth.toNat) =
      min f.scopeDepth.toNat handler.scopeDepth.toNat by omega] at this

/-! ### Compilation -/

/-- The code of the running frame lowers to tier code. -/
def Compiled (m : Machine) (l : Lowered) : Prop :=
  ∃ f entry, m.frame? = some f ∧ m.code? f.code = some entry ∧ entry.lower = .ok l

theorem Compiled.shifts {rel : Heap → Frame → Heap → Frame → Prop} {l : Lowered}
    (hc : m.Compiled l) (hs : Shifts rel m m') : m'.Compiled l := by
  obtain ⟨f, entry, hf, hcode, hl⟩ := hc
  obtain ⟨f', hf', hcall, -⟩ := hs.top f hf
  obtain ⟨entry', hcode', hsame⟩ := hs.keeps.code? hcode
  have hcode_eq : f'.code = f.code := (congrArg Frame.code hcall :)
  exact ⟨f', entry', hf', by rw [hcode_eq, hcode'], (CodeEntry.lower_congr hsame).trans hl⟩

/-- **Compiling** leaves the stacks alone, and the tier code to run is that of the running frame. -/
theorem Orderly.tierUp (hm : m.Orderly) :
    m.tierUp.2.Orderly ∧ m.Still m.tierUp.2 ∧ m.Balanced m.tierUp.2 ∧
      ∀ l, m.tierUp.1 = some l → m.tierUp.2.Compiled l := by
  have hcount (code : CodeId) (callCount : UInt32) :
      (m.modifyCode code fun e => { e with callCount }).Orderly ∧
      m.Still (m.modifyCode code fun e => { e with callCount }) ∧
      m.Balanced (m.modifyCode code fun e => { e with callCount }) :=
    hm.modifyCode code (fun _ => rfl) fun entry hentry =>
      hm.settled.lowered entry (Array.mem_of_getElem? hentry)
  unfold Machine.tierUp
  cases hf : m.frame? with
  | none => exact ⟨hm, .refl m, .refl m, fun _ h => by cases h⟩
  | some f =>
    dsimp only
    cases hcode : m.code? f.code with
    | none => exact ⟨hm, .refl m, .refl m, fun _ h => by cases h⟩
    | some entry =>
      have hentry := Array.mem_of_getElem? hcode
      dsimp only
      cases hcompiled : entry.compiled with
      | some lowered =>
        refine ⟨hm, .refl m, .refl m, fun l h => ?_⟩
        obtain rfl := Option.some.inj h
        exact ⟨f, entry, hf, hcode, hm.settled.lowered entry hentry _ hcompiled⟩
      | none =>
        dsimp only
        cases m.tier with
        | none =>
          obtain ⟨hm', hs, hb⟩ := hcount f.code (countCall entry.callCount)
          exact ⟨hm', hs, hb, fun _ h => by cases h⟩
        | some stats =>
          dsimp only
          split
          case isTrue =>
            obtain ⟨hm', hs, hb⟩ := hcount f.code (countCall entry.callCount)
            exact ⟨hm', hs, hb, fun _ h => by cases h⟩
          case isFalse =>
            have hlowered (l : Lowered) (h : entry.tierCode? = some l) : entry.lower = .ok l :=
              CodeEntry.lower_of_tierCode? h
            obtain ⟨hm₁, hs₁⟩ := hm.beside (n := { m with tier := some (stats.count entry.lower) })
              rfl rfl rfl rfl rfl rfl rfl rfl
            obtain ⟨hm₂, hs₂, hb₂⟩ := hm₁.modifyCode f.code (c := fun e =>
                { e with callCount := countCall entry.callCount
                         compiled := entry.tierCode?
                         tierAttempted := true }) (fun _ => rfl) fun old hold l hl => by
              obtain rfl := Option.some.inj (hcode.symm.trans hold)
              exact hlowered l hl
            have hs := hs₁.trans hs₂
            have hcompiled (l : Lowered) (hl : entry.lower = .ok l) : m.Compiled l :=
              ⟨f, entry, hf, hcode, hl⟩
            exact ⟨hm₂, hs, ⟨hb₂.stubFrames, hb₂.reentryDepth⟩, fun l hl =>
              (hcompiled l (hlowered l hl)).shifts hs.works⟩

end Machine

/-! ### Pushing and popping in actions -/

/-- The block that a frame of this code runs. -/
def Machine.blockOf (m : Machine) (code : CodeId) : Block :=
  match m.code? code with
  | some entry => entry.block
  | none => {}

/-- The scope around the body of a function. -/
def Machine.scopeAround (m : Machine) (function : Handle) : Option Handle :=
  match m.functionData? (.cell function) with
  | some data => data.scope
  | none => none

namespace Proceeds

variable {env : Env}

/-- **A frame is pushed**, or an error is raised. -/
theorem pushFrame (he : env.Orderly) (hm : m.Orderly) (function : Handle) (code : CodeId)
    (this : Value) (args : Array Value) (returnRegister : Option Register)
    (isConstruct entryBoundary : Bool) :
    Proceeds (pushFrame function code this args returnRegister isConstruct entryBoundary env m)
      (fun _ m' => (m.Pushed m' ∧ m.Balanced m') ∧
        ∃ f, m'.frames = m.frames.push f ∧ f.returnRegister = returnRegister)
      fun _ m' => m.Still m' ∧ m.Balanced m' := by
  refine look (ite (fun _ => ?_) fun hroom => ?_)
  · refine bind (Keeping.newError _ _ env m he hm) ?_
    rintro v m' hm' ⟨hs, hb⟩
    exact (raise he hm' v).mono (fun _ _ _ h => h) fun _ _ _ h => ⟨hs.trans h.1, hb.trans h.2⟩
  · simp only [ge_iff_le, RegisterFile.hasRoom, Bool.or_eq_true, decide_eq_true_eq, Bool.not_eq_true',
      decide_eq_false_iff_not, not_or, Nat.not_le, Nat.not_lt] at hroom
    let block := m.blockOf code
    let scope := m.scopeAround function
    let grown := m.registers.grow block.registerCount.toNat
    have hfits : m.registers.registers.size + block.registerCount.toNat ≤ m.registers.capacity :=
      hroom.2
    have hgrown : grown.registers.size = m.registers.registers.size + block.registerCount.toNat := by
      simp [grown, RegisterFile.grow]
    obtain ⟨hsize, hcapacity, hsame⟩ := grown.fill_spec m.registers.size
      (args.extract 0 block.paramCount.toNat)
    obtain ⟨hm', hp, hb⟩ := hm.push (f :=
        { code, pc := 0, base := m.registers.size, registerCount := block.registerCount
          varCount := block.varCount, returnRegister, argc := args.size
          extraArgs := extraArguments args block.paramCount.toNat, callee := .cell function, this
          scope, activation := none, scopeDepth := 0, isConstruct, entryBoundary })
      (grown.fill m.registers.size (args.extract 0 block.paramCount.toNat)) rfl rfl
      hroom.1 (hsize.trans hgrown) hcapacity (by rw [hsize, hcapacity, hgrown]; exact hfits)
      fun i hi => by
        rw [hsame i hi]
        exact Array.getElem?_append_left hi
    exact change hm' ⟨⟨hp, hb⟩, _, rfl, rfl⟩

/-- **The running frame is popped**, if there is one. -/
theorem popFrame (he : env.Orderly) (hm : m.Orderly) {E : Unwind → Machine → Prop} :
    Proceeds (popFrame env m)
      (fun r m' => (m.Popped m' ∧ m.Balanced m') ∧ r = m.frame?) E := by
  refine look (ite (fun hempty => ?_) fun _ => ?_)
  · have hnone : m.frames = #[] := by simpa using hempty
    exact ret hm ⟨⟨.refl_of_empty hnone, .refl m⟩, (frame?_eq_none.mpr hnone).symm⟩
  · refine bind ((notifyAt he hm _ _ _).mono (fun _ _ _ h => h) fun _ _ _ h => h.elim) ?_
    rintro _ m' hm' ⟨hs, hb⟩
    have hframe : m'.frame? = m.frame? := by
      unfold Machine.frame?
      rw [hs.frames]
    cases hf : m'.frame? with
    | none =>
      have hback : m'.frames.back? = none := hf
      have hnone := frame?_eq_none.mp hf
      rw [hs.frames] at hnone
      refine stepTo (by rw [hback]) hm' ⟨⟨⟨hs.keeps _, ?_⟩, hb⟩, by rw [← hframe, hf]⟩
      rw [hs.frames, hnone]
      rfl
    | some f =>
      have hback : m'.frames.back? = some f := hf
      obtain ⟨hm₂, hp, hb₂⟩ := hm'.unframed hf
      have hkeeps := hp.keeps
      have hsize := hp.size
      rw [hs.frames] at hkeeps hsize
      exact stepTo (by rw [hback]; rfl) hm₂
        ⟨⟨⟨(hs.keeps _).trans hkeeps, hsize⟩, hb.trans hb₂⟩, by rw [← hframe, hf]⟩

/-- Frames are popped one after the other. -/
theorem popFrames (he : env.Orderly) (hm : m.Orderly) (count : Nat) {E : Unwind → Machine → Prop} :
    Proceeds (popFrames count env m)
      (fun _ m' => Cut (m.frames.size - count) m m' ∧ m.Balanced m') E := by
  induction count generalizing m with
  | zero => exact ret hm ⟨⟨.refl _ m, rfl⟩, .refl m⟩
  | succ count ih =>
    refine bind (Q := fun _ m' => m.Popped m' ∧ m.Balanced m')
      (bind (popFrame he hm) fun _ m' hm' h => ret hm' h.1) ?_
    rintro _ m₁ hm₁ ⟨hp, hb⟩
    refine (ih hm₁).mono ?_ fun _ _ _ h => h
    rintro _ m₂ hm₂ ⟨hc, hb₂⟩
    have hcount : m₁.frames.size - count = m.frames.size - (count + 1) := by
      rw [hp.size]
      omega
    rw [hcount] at hc
    exact ⟨hc.after (hp.keeps.mono (by omega)), hb.trans hb₂⟩

/-- **The frames above the first `depth` ones are popped.** -/
theorem popFramesTo (he : env.Orderly) (hm : m.Orderly) (hd : depth ≤ m.frames.size)
    {E : Unwind → Machine → Prop} :
    Proceeds (popFramesTo depth env m) (fun _ m' => Cut depth m m' ∧ m.Balanced m') E := by
  have hcount : m.frames.size - (m.frames.size - depth) = depth := by omega
  have := popFrames (E := E) he hm (m.frames.size - depth)
  rw [hcount] at this
  exact look this

/-- **The frame that returns a value is popped**, and the value goes where the frame says. -/
theorem finishReturn (he : env.Orderly) (hm : m.Orderly) (value : Value)
    {E : Unwind → Machine → Prop} :
    Proceeds (finishReturn value env m) (fun r m' => (m.Popped m' ∧ m.Balanced m') ∧
      r.2 = m.frame?.bind (·.returnRegister)) E := by
  obtain ⟨hm₁, hs₁, hb₁⟩ := hm.retains (Heap.retains_pushTemporary m.heap value)
  refine bind (Q := fun _ m' => m' = { m with heap := m.heap.pushTemporary value })
    (change hm₁ rfl) ?_
  rintro _ _ hm₁ rfl
  refine bind (popFrame he hm₁) ?_
  rintro r m₂ hm₂ ⟨⟨hp, hb⟩, hr⟩
  have hpopped : m.Popped m₂ ∧ m.Balanced m₂ :=
    ⟨⟨(hs₁.keeps _).trans hp.keeps, hp.size⟩, hb₁.trans hb⟩
  have hr : r = m.frame? := hr
  rw [← hr]
  cases r with
  | none => exact ret hm₂ ⟨hpopped, rfl⟩
  | some f => exact look (ret hm₂ ⟨hpopped, rfl⟩)

/-- **An exception is delivered to a handler of the running frame**, or nothing happens. -/
theorem enterHandler (hm : m.Orderly) (value : Value) {E : Unwind → Machine → Prop} :
    Proceeds (enterHandler value env m) (fun r m' => m.Closes m' ∧ m.Balanced m' ∧
      match m.frame?.bind (·.handler? m) with
      | none => r = none ∧ m' = m
      | some handler => r = some handler.target ∧ m' =
          { m.modifyFrame (·.resumed m.heap handler) with pendingException := some value }) E := by
  cases hf : m.frame? with
  | none =>
    have hfind : m.findHandler = (none, m) := by
      unfold findHandler
      rw [hf]
    exact stepTo (by rw [hfind]) hm ⟨(Works.refl m).closes, .refl m, rfl, rfl⟩
  | some f =>
    rw [enterHandler_eq hf, Option.bind_some]
    cases f.handler? m with
    | none => exact ⟨hm, (Works.refl m).closes, .refl m, rfl, rfl⟩
    | some handler =>
      obtain ⟨hm₁, hc, hb⟩ := hm.resumed hf handler
      obtain ⟨hm₂, hs⟩ := hm₁.beside
        (n := { m.modifyFrame (·.resumed m.heap handler) with pendingException := some value })
        rfl rfl rfl rfl rfl rfl rfl rfl
      exact ⟨hm₂, hc.trans hs.works.closes, ⟨hb.stubFrames, hb.reentryDepth⟩, rfl, rfl⟩

end Proceeds

namespace Keeping

variable {α : Type} {callee this : Value} {args : Array Value} {isConstruct : Bool} {site : Site}

theorem takeException : Restful takeException := step fun m hm => by
  obtain ⟨hm', hs⟩ := hm.beside (n := { m with pendingException := none })
    rfl rfl rfl rfl rfl rfl rfl rfl
  exact ⟨hm', hs, rfl, rfl⟩

/-! ### Calls -/

theorem cacheTarget (site : Site) (callee : Handle) (target : CallTarget) :
    Restful (modify (·.cacheTarget site callee target) : MachineM Unit) := by
  refine change fun m hm => ?_
  unfold Machine.cacheTarget
  split
  · exact ⟨hm, .refl m, .refl m⟩
  · cases site with
    | none => exact ⟨hm, .refl m, .refl m⟩
    | some site =>
      exact hm.modifyCode _ (fun _ => rfl) fun entry hentry l hl =>
        hm.settled.lowered entry (Array.mem_of_getElem? hentry) l hl

theorem resolveCallee : Restful (resolveCallee callee site isConstruct) := by
  refine bind look fun m => ?_
  dsimp only
  split
  · exact ret _
  · split
    · exact bind (cacheTarget _ _ _) fun _ => ret _
    · exact raiseError _ _

theorem constructReceiver (function : Handle) : Restful (constructReceiver function) := by
  have hshape (shape : ShapeId) : Restful (do return .cell (← ScriptMachine.allocate shape .plain) :
      MachineM Value) := bind (allocate _ _ _) fun _ => ret _
  refine bind look fun m => bind (settled _) fun prototype => ?_
  dsimp only
  split
  · exact bind (withHeap fun _ => .of_slots rfl rfl) fun _ => hshape _
  · exact bind (ret _) fun _ => hshape _

theorem receiver (function : Handle) : Restful (receiver function this isConstruct) :=
  ite (fun _ => constructReceiver function) fun _ => ret _

theorem invokeHost (function : HostId) :
    Restful (invokeHost function callee this args isConstruct) := by
  have hhost (call : HostCall) : Restful (reenter (.host function call)) :=
    fun _ m he hm => he.host function call m hm
  exact bind (hhost _) fun _ => bind look fun _ => ret _

/-- **A call in a loop of its own** leaves the stacks as they are, however it ends. -/
theorem callValue : Restful (callValue callee this args isConstruct site) := by
  refine bind resolveCallee fun found => ?_
  obtain ⟨function, target⟩ := found
  refine bind (receiver function) fun this => bind (checkpoint _) fun _ => ?_
  cases target with
  | host host => exact invokeHost host
  | script code =>
    intro env m he hm
    refine Proceeds.bind (Proceeds.pushFrame he hm _ _ _ _ _ _ _) ?_
    rintro _ m₁ hm₁ ⟨⟨hp, hb⟩, f, hframes, -⟩
    have hsome : m₁.frames ≠ #[] := by
      rw [hframes]
      simp
    refine (he.frame m₁ hm₁ hsome).mono ?_ ?_
    all_goals
      rintro _ m₂ hm₂ ⟨hp', hb'⟩
      exact ⟨hp.popped hp' hm.stacked hm₂.stacked, hb.trans hb'⟩

end Keeping

namespace Proceeds

variable {env : Env}

/-- What happens when a frame has been pushed leaves the stacks alone, and the tier code to run is that
of the frame. It unwinds for an interruption only. -/
theorem functionEntry (he : env.Orderly) (hm : m.Orderly) :
    Proceeds (functionEntry env m)
      (fun r m' => (m.Still m' ∧ m.Balanced m') ∧ ∀ l, r = some l → m'.Compiled l)
      fun u m' => (m.Still m' ∧ m.Balanced m') ∧ ∃ failure, u = .fatal failure := by
  refine bind ((notifyAt he hm _ _ _).mono (fun _ _ _ h => h) fun _ _ _ h => h.elim) ?_
  rintro _ m₁ hm₁ ⟨hs₁, hb₁⟩
  refine bind ((checkInterrupt hm₁).mono (fun _ _ _ h => h) ?_) ?_
  · exact fun _ _ _ h => ⟨⟨hs₁.trans h.1.1, hb₁.trans h.1.2⟩, h.2⟩
  · rintro _ m₂ hm₂ ⟨hs₂, hb₂⟩
    obtain ⟨hm₃, hs₃, hb₃, hc⟩ := hm₂.tierUp
    exact step hm₃ ⟨⟨(hs₁.trans hs₂).trans hs₃, (hb₁.trans hb₂).trans hb₃⟩, hc⟩

end Proceeds

end ScriptMachine
