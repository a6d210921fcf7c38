import ScriptMachine.Proofs.Program.Handlers
import ScriptMachine.Proofs.Progress.Scope
import ScriptMachine.Proofs.Stack.Call

/-! # Calls, frames and handlers

A frame is pushed for registered code at its first instruction (`Goes.pushFrame`), and popping takes the
last frame off the others (`Goes.popFrame`). An exception that is delivered moves the running frame to
the target of a handler of its code, and nothing else (`Goes.enterHandler`). What a call finds to run is
registered, also when a call site remembers it (`Goes.resolveCallee`), so that a call leaves the frames
where they are and makes no complaint of its own (`Calmly.callValue`). -/

namespace ScriptMachine

open Machine

variable {m m' m'' : Machine} {f : Frame}

namespace Machine

/-! ### Compilation -/

/-- **Compiling** leaves the frames and registers alone, and the tier code to run is that of the running
frame. -/
theorem Intact.arrives_tierUp (hm : m.Intact) : m.Arrives m.tierUp.2 ∧ m.Quiet m.tierUp.2 ∧
    ∀ l, m.tierUp.1 = some l → m.Compiled l := by
  have hcount (code : CodeId) (callCount : UInt32) :=
    hm.arrives_recount code (c := fun e => { e with callCount }) (fun _ => rfl) (fun _ => rfl)
      fun _ => rfl
  have hidle : m.Arrives m ∧ m.Quiet m ∧ ∀ l, (none : Option Lowered) = some l → m.Compiled l :=
    ⟨.refl m, .refl m, fun _ h => by cases h⟩
  unfold tierUp
  cases hf : m.frame? with
  | none => exact hidle
  | some f =>
    dsimp only
    cases hcode : m.code? f.code with
    | none => exact hidle
    | some entry =>
      have hcomplete := hm.code? hcode
      dsimp only
      cases hcompiled : entry.compiled with
      | some lowered =>
        refine ⟨.refl m, .refl m, fun l h => ?_⟩
        obtain rfl := Option.some.inj h
        exact ⟨f, entry, hf, hcode, hcomplete.compiled _ hcompiled⟩
      | none =>
        obtain ⟨ha, hq⟩ := hcount f.code (countCall entry.callCount)
        dsimp only
        cases m.tier with
        | none => exact ⟨ha, hq, fun _ h => by cases h⟩
        | some stats =>
          dsimp only
          split
          case isTrue => exact ⟨ha, hq, fun _ h => by cases h⟩
          case isFalse =>
            have hlowered (l : Lowered) (h : entry.tierCode? = some l) : entry.lower = .ok l :=
              CodeEntry.lower_of_tierCode? h
            obtain ⟨ha₁, hq₁⟩ := arrives_beside (m := m)
              (n := { m with tier := some (stats.count entry.lower) }) rfl rfl rfl rfl rfl
            obtain ⟨ha₂, hq₂⟩ := (ha₁.intact hm).arrives_modifyCode f.code (c := fun e =>
                { e with callCount := countCall entry.callCount
                         compiled := entry.tierCode?
                         tierAttempted := true }) (fun _ => rfl) fun old hold => by
              obtain rfl := Option.some.inj (hcode.symm.trans hold)
              have hold := (ha₁.intact hm).code? hold
              exact hold.congr rfl hlowered hold.calls
            exact ⟨ha₁.trans ha₂, hq₁.trans hq₂, fun l hl => ⟨f, entry, hf, hcode, hlowered l hl⟩⟩

/-- Tier code belongs to the code of the running frame. -/
theorem Compiled.calm {l : Lowered} (hc : m.Compiled l) (h : m.Calm m') : m'.Compiled l := by
  obtain ⟨f, entry, hf, hcode, hl⟩ := hc
  obtain ⟨f', hf', hspot⟩ := h.frame? hf
  obtain ⟨entry', hcode', hsame⟩ := h.code? hcode
  have hcode_eq : f'.code = f.code := (congrArg Frame.code hspot :)
  exact ⟨f', entry', hf', by rw [hcode_eq, hcode'], (CodeEntry.lower_congr hsame).trans hl⟩

/-! ### Frames at the top -/

theorem spots_push (registers : RegisterFile) (f : Frame) :
    spots { m with frames := m.frames.push f, registers } = m.spots ++ [f.spot] := by
  simp [spots]

/-- The last spot is that of the running frame. -/
theorem Stands.running {spots : List Frame} {s : Frame} (h : m.Stands (spots ++ [s]) m') :
    ∃ f, m'.frame? = some f ∧ f.spot = s := by
  have hlast := congrArg List.getLast? h.spots
  simp only [Machine.spots, List.getLast?_map, Array.getLast?_toList, List.getLast?_concat] at hlast
  exact Option.map_eq_some_iff.mp hlast

/-- A frame at its first instruction is the last one. -/
theorem Stands.entered {spots : List Frame} {s : Frame} (h : m.Stands (spots ++ [s]) m')
    (hs : s.pc = 0) : m'.Entered := by
  obtain ⟨f, hf, rfl⟩ := h.running
  exact ⟨f, hf, hs⟩

theorem length_spots (m : Machine) : m.spots.length = m.frames.size := by simp [spots]

theorem spots_of_none (hf : m.frame? = none) : m.spots = [] := by
  rw [spots, frame?_eq_none.mp hf]
  rfl

/-- Moving on changes the last spot. -/
theorem spots_setPc (m : Machine) (pc : UInt32) :
    (m.setPc pc).spots = m.spots.modify (m.spots.length - 1) fun f => { f with pc } := by
  refine List.ext_getElem? fun i => ?_
  rw [List.getElem?_modify, length_spots]
  simp only [spots, setPc, modifyFrame, List.getElem?_map, Array.getElem?_toList,
    Array.getElem?_modify]
  split <;> simp [Option.map_map, Function.comp_def, Frame.spot]

theorem dropLast_spots_setPc (m : Machine) (pc : UInt32) :
    (m.setPc pc).spots.dropLast = m.spots.dropLast := by
  cases hf : m.frame? with
  | none => rw [show m.setPc pc = m from modifyFrame_of_none hf]
  | some f =>
    obtain ⟨below, hframes⟩ := frame?_eq_some.mp hf
    simp [spots, setPc, frames_modifyFrame hframes, hframes]

theorem Stands.setPc (h : m.Calm m') (pc : UInt32) : (m.setPc pc).Calm (m'.setPc pc) := by
  refine ⟨?_, h.hosts, h.codes⟩
  rw [spots_setPc, spots_setPc, h.spots]

theorem setPc_setPc (m : Machine) (pc pc' : UInt32) : (m.setPc pc).setPc pc' = m.setPc pc' :=
  modifyFrame_modifyFrame m _ _

/-! ### What call sites remember -/

/-- A call site remembers what is registered. -/
theorem Intact.knows_cachedTarget? (hm : m.Intact) {site : Site} {callee : Handle}
    {target : CallTarget} (h : m.cachedTarget? site callee = some target) : m.Knows target := by
  unfold cachedTarget? at h
  split at h
  case isTrue => cases h
  case isFalse =>
    cases site with
    | none => cases h
    | some key =>
      dsimp only at h
      split at h
      case h_1 => cases h
      case h_2 entry hentry =>
        split at h
        case h_2 => cases h
        case h_1 cache hcache =>
          exact (hm.code? hentry).calls cache (Array.mem_of_getElem? hcache) callee target
            (InlineCache.mem_of_lookup? h)

theorem Intact.arrives_cacheTarget (hm : m.Intact) (site : Site) (callee : Handle)
    {target : CallTarget} (hk : m.Knows target) :
    m.Arrives (m.cacheTarget site callee target) ∧ m.Quiet (m.cacheTarget site callee target) := by
  unfold cacheTarget
  split
  · exact ⟨.refl m, .refl m⟩
  · cases site with
    | none => exact ⟨.refl m, .refl m⟩
    | some key =>
      refine hm.arrives_modifyCode key.1 (fun _ => rfl) fun entry hentry => ?_
      have hc := hm.code? hentry
      refine hc.congr rfl hc.compiled fun cache hcache key target' hmem => ?_
      obtain ⟨i, hi⟩ := Array.mem_iff_getElem?.mp hcache
      rw [Array.getElem?_modify] at hi
      split at hi
      case isFalse => exact hc.calls cache (Array.mem_of_getElem? hi) key target' hmem
      case isTrue =>
        obtain ⟨old, hold, rfl⟩ := Option.map_eq_some_iff.mp hi
        rcases InlineCache.mem_update hmem with hmem | ⟨-, rfl⟩
        · exact hc.calls old (Array.mem_of_getElem? hold) key target' hmem
        · exact hk

end Machine

/-- Finds what a callee runs, given what the call site remembers. -/
def resolveFrom (m : Machine) (callee : Value) (site : Site) (isConstruct : Bool) :
    Option (Handle × CallTarget) → MachineM (Handle × CallTarget)
  | some found => pure found
  | none =>
    match callee.cell?, m.functionData? callee with
    | some id, some data => do
      modify (·.cacheTarget site id data.target)
      return (id, data.target)
    | _, _ =>
      raiseError .typeError (m.display callee ++ " is not "
        ++ if isConstruct then "a constructor" else "a function")

namespace Goes

variable {α : Type} {env : Env} {E : Unwind → Machine → Prop}

/-! ### Pushing and popping -/

/-- **A frame is pushed** at the first instruction of registered code, or an error is raised. -/
theorem pushFrame (he : env.Faithful) (hm : m.Intact) (function : Handle) {code : CodeId}
    (hk : m.Knows (.script code)) (this : Value) (args : Array Value)
    (returnRegister : Option Register) (isConstruct entryBoundary : Bool) :
    Goes m (pushFrame function code this args returnRegister isConstruct entryBoundary env m)
      (fun _ m' => ∃ s : Frame, s.pc = 0 ∧ m.Stands (m.spots ++ [s]) m')
      fun u m' => m.Calm m' ∧ (m.Candid → u.Innocent) := by
  refine look (ite (fun _ => ?_) fun _ => ?_)
  · exact raiseError he hm _ _
  · have hscope : m.Anchors (m.scopeAround function) := by
      unfold scopeAround
      cases hdata : m.functionData? (.cell function) with
      | none => exact fun _ _ h => by cases h
      | some data =>
        obtain ⟨c, hc, hp⟩ := functionData?_eq_some hdata
        have := hm.cells function c hc
        rw [hp] at this
        exact this.2
    exact change hm (Step.arrives (Step.push _ ⟨hk, hscope, (fun _ _ h => by cases h), .zero _ _⟩))
      ⟨_, rfl, spots_push _ _, rfl, rfl⟩

/-- **The running frame is popped**, if there is one. -/
theorem popFrame (he : env.Faithful) (hm : m.Intact) :
    Goes m (popFrame env m) (fun _ m' => m.Stands m.spots.dropLast m') E := by
  refine look (ite (fun hempty => ?_) fun _ => ?_)
  · have hnone : m.spots = [] := spots_of_none (frame?_eq_none.mpr (by simpa using hempty))
    exact ret hm ⟨by rw [hnone]; rfl, rfl, rfl⟩
  · refine bind ((notifyAt he hm _ _ _).mono (fun _ _ _ h => h) fun _ _ _ h => h.elim) ?_
    intro _ m' hm' hc
    cases hf : m'.frame? with
    | none =>
      have hback : m'.frames.back? = none := hf
      refine stepTo hm' (by rw [hback]) (.refl m') (hc.trans ⟨?_, rfl, rfl⟩)
      rw [← hc.spots, spots_of_none hf]
      rfl
    | some f =>
      have hback : m'.frames.back? = some f := hf
      refine stepTo hm' (by rw [hback]) (Step.pop _).arrives (hc.trans ⟨?_, rfl, rfl⟩)
      rw [← hc.spots]
      simp [Machine.spots]

theorem popFrames (he : env.Faithful) (hm : m.Intact) (count : Nat) :
    Goes m (popFrames count env m) (fun _ m' => m.Stands (m.spots.take (m.spots.length - count)) m')
      E := by
  induction count generalizing m with
  | zero => exact ret hm ⟨(List.take_of_length_le (Nat.le_refl _)).symm, rfl, rfl⟩
  | succ count ih =>
    have hpop : Goes m ((ScriptMachine.popFrame >>= fun _ => pure ()) env m)
        (fun _ m' => m.Stands m.spots.dropLast m') E :=
      bind (popFrame he hm) fun _ m' hm' h => ret hm' h
    refine bind hpop ?_
    intro _ m₁ hm₁ h₁
    refine (ih hm₁).mono (fun _ m₂ _ h₂ => ?_) fun _ _ _ h => h
    have := h₁.trans h₂
    rw [h₁.spots, List.dropLast_eq_take, List.length_take, List.take_take] at this
    rwa [show min (min (m.spots.length - 1) m.spots.length - count) (m.spots.length - 1) =
      m.spots.length - (count + 1) by omega] at this

/-- **The frames above the first `depth` ones are popped.** -/
theorem popFramesTo (he : env.Faithful) (hm : m.Intact) {depth : Nat} (hd : depth ≤ m.frames.size) :
    Goes m (popFramesTo depth env m) (fun _ m' => m.Stands (m.spots.take depth) m') E := by
  have := popFrames (E := E) he hm (m.frames.size - depth)
  rw [length_spots, show m.frames.size - (m.frames.size - depth) = depth by omega] at this
  exact look this

/-- **The frame that returns a value is popped.** -/
theorem finishReturn (he : env.Faithful) (hm : m.Intact) (value : Value) :
    Goes m (finishReturn value env m) (fun _ m' => m.Stands m.spots.dropLast m') E := by
  obtain ⟨ha, hq⟩ := arrives_heap (Heap.retains_pushTemporary m.heap value)
  refine bind (Q := fun _ m' => m' = { m with heap := m.heap.pushTemporary value })
    (change hm ha rfl) ?_
  rintro _ _ hm₁ rfl
  refine bind (popFrame he hm₁) ?_
  intro popped m₂ hm₂ h
  have h := hq.calm.trans h
  cases popped with
  | none => exact ret hm₂ h
  | some f => exact look (ret hm₂ h)

/-! ### Handlers -/

/-- **An exception is delivered** to a handler of the code of the running frame, which goes on at its
target, or nothing happens. -/
theorem enterHandler (hm : m.Intact) (value : Value) :
    Goes m (enterHandler value env m) (fun r m' => match r with
      | none => m' = m
      | some target => (m.setPc target).Calm m' ∧ ∃ f entry handler, m.frame? = some f ∧
          m.code? f.code = some entry ∧ handler ∈ entry.block.handlers ∧ handler.target = target)
      E := by
  cases hf : m.frame? with
  | none =>
    have hfind : m.findHandler = (none, m) := by
      unfold findHandler
      rw [hf]
    exact stepTo hm (by rw [hfind]) (.refl m) rfl
  | some f =>
    rw [enterHandler_eq hf]
    cases hh : f.handler? m with
    | none => exact ⟨.refl m, hm, rfl⟩
    | some handler =>
      have hgrounded := hm.frames f (Array.mem_of_back? hf)
      have hscope : m.Anchors (f.resumed m.heap handler).scope := by
        have := hm.scopeUp? hgrounded.scope (f.scopeDepth.toNat - handler.scopeDepth.toNat)
        rwa [scopeUp?_eq] at this
      have hblocks : m.Nests (f.resumed m.heap handler).scopeDepth.toNat
          (f.resumed m.heap handler).scope := by
        rw [Frame.scopeDepth_resumed]
        exact (hgrounded.blocks.drop (Nat.sub_le _ handler.scopeDepth.toNat)).mono (by omega)
      have harrives : m.Arrives (m.modifyFrame (·.resumed m.heap handler)) :=
        (Step.frame hf ⟨hgrounded.code, hscope, hgrounded.activation, hblocks⟩
          ⟨rfl, fun _ h => h⟩).arrives
      have harrives : m.Arrives
          { m.modifyFrame (·.resumed m.heap handler) with pendingException := some value } :=
        harrives.trans (Step.arrives (Step.beside rfl rfl rfl rfl rfl))
      refine ⟨harrives, harrives.intact hm, ⟨?_, rfl, rfl⟩, ?_⟩
      · exact spots_modifyFrame_congr m fun _ => rfl
      · unfold Frame.handler? at hh
        split at hh
        case h_2 => cases hh
        case h_1 entry hentry =>
          exact ⟨f, entry, handler, rfl, hentry, Block.mem_of_handlerFor? hh, rfl⟩

/-! ### Calls -/

theorem resolveFrom (he : env.Faithful) (hm : m.Intact) (callee : Value) (site : Site)
    (isConstruct : Bool) {cached : Option (Handle × CallTarget)}
    (hcached : ∀ found, cached = some found → m.Knows found.2) :
    Goes m (resolveFrom m callee site isConstruct cached env m)
      (fun found m' => m.Calm m' ∧ m'.Knows found.2)
      fun u m' => m.Calm m' ∧ (m.Candid → u.Innocent) := by
  cases cached with
  | some found => exact ret hm ⟨.refl m, hcached found rfl⟩
  | none =>
    unfold ScriptMachine.resolveFrom
    cases hid : callee.cell? with
    | none => exact raiseError he hm _ _
    | some id =>
      cases hdata : m.functionData? callee with
      | none => exact raiseError he hm _ _
      | some data =>
        have hcell : m.functionData? (.cell id) = some data := by
          rw [← hdata]
          unfold functionData? Heap.cellOf?
          rw [hid, Value.cell?_cell]
        obtain ⟨c, hc, hp⟩ := functionData?_eq_some hcell
        have hadmits := hm.cells id c hc
        rw [hp] at hadmits
        obtain ⟨ha, hq⟩ := hm.arrives_cacheTarget site id hadmits.1
        refine bind (Q := fun _ m' => m.Calm m') (change hm ha hq.calm) ?_
        exact fun _ m' hm' hc => ret hm' ⟨hc, hc.knows hadmits.1⟩

/-- **What a callee runs** is registered. -/
theorem resolveCallee (he : env.Faithful) (hm : m.Intact) (callee : Value) (site : Site)
    (isConstruct : Bool) : Goes m (resolveCallee callee site isConstruct env m)
      (fun found m' => m.Calm m' ∧ m'.Knows found.2)
      fun u m' => m.Calm m' ∧ (m.Candid → u.Innocent) := by
  refine look (resolveFrom he hm callee site isConstruct fun found h => ?_)
  split at h
  case h_1 id _ =>
    obtain ⟨target, htarget, rfl⟩ := Option.map_eq_some_iff.mp h
    exact hm.knows_cachedTarget? htarget
  case h_2 => cases h

/-- **A host function** that is registered is run. -/
theorem invokeHost (he : env.Faithful) (hm : m.Intact) {function : HostId}
    (hk : m.Knows (.host function)) (callee this : Value) (args : Array Value) (isConstruct : Bool) :
    Goes m (invokeHost function callee this args isConstruct env m) (fun _ m' => m.Calm m')
      fun u m' => m.Calm m' ∧ (m.Candid → u.Innocent) := by
  refine bind (he.host function _ m hm hk) ?_
  exact fun _ m' hm' h => look (ret hm' h)

/-- What happens when a frame has been pushed, and the tier code to run. -/
theorem functionEntry (he : env.Faithful) (hm : m.Intact) :
    Goes m (functionEntry env m) (fun r m' => m.Calm m' ∧ ∀ l, r = some l → m'.Compiled l)
      fun u m' => m.Calm m' ∧ (m.Candid → u.Innocent) := by
  refine bind ((notifyAt he hm _ _ _).mono (fun _ _ _ h => h) fun _ _ _ h => h.elim) ?_
  intro _ m₁ hm₁ hc₁
  refine bind ((Calmly.checkInterrupt env m₁ he hm₁).mono (fun _ _ _ h => h) fun _ _ _ h =>
    ⟨hc₁.calm h.1.calm, fun hc => h.2 (hc₁.candid hc)⟩) ?_
  intro _ m₂ hm₂ hq₂
  obtain ⟨ha, hq₃, hcompiled⟩ := hm₂.arrives_tierUp
  exact step hm₂ ha ⟨(hc₁.calm hq₂.calm).calm hq₃.calm, fun l hl => (hcompiled l hl).calm hq₃.calm⟩

end Goes

namespace Calmly

theorem takeException : Calmly Quiet takeException :=
  step fun _ _ => arrives_beside rfl rfl rfl rfl rfl

theorem constructReceiver (function : Handle) : Calmly Quiet (constructReceiver function) := by
  have hshape (shape : ShapeId) : Calmly Quiet (do return .cell (← ScriptMachine.allocate shape .plain) :
      MachineM Value) := bind (allocate _ fun _ => trivial) fun _ => ret _
  refine bind look fun m => bind (settled _) fun prototype => ?_
  dsimp only
  split
  · exact bind (withHeap fun _ => .of_slots rfl rfl) fun _ => hshape _
  · exact bind (ret _) fun _ => hshape _

theorem receiver (function : Handle) (this : Value) (isConstruct : Bool) :
    Calmly Quiet (receiver function this isConstruct) :=
  ite (fun _ => constructReceiver function) fun _ => ret _

/-- **A call in a loop of its own** leaves the frames where they are, however it ends. -/
theorem callValue (callee this : Value) (args : Array Value) (isConstruct : Bool) (site : Site) :
    Calmly Calm (callValue callee this args isConstruct site) := by
  intro env m he hm
  refine Goes.bind (Goes.resolveCallee he hm callee site isConstruct) ?_
  rintro ⟨function, target⟩ m₁ hm₁ ⟨hc₁, hk₁⟩
  refine Goes.bind ((receiver function this isConstruct env m₁ he hm₁).mono (fun _ _ _ h => h)
    fun _ _ _ h => ⟨hc₁.calm h.1.calm, fun hc => h.2 (hc₁.candid hc)⟩) ?_
  intro this m₂ hm₂ hq₂
  have hc₂ := hc₁.calm hq₂.calm
  have hk₂ := hq₂.calm.knows hk₁
  refine Goes.pass hm₂ ?_
  cases target with
  | host host =>
    exact (Goes.invokeHost he hm₂ hk₂ _ _ _ _).mono (fun _ _ _ h => hc₂.calm h) fun _ _ _ h =>
      ⟨hc₂.calm h.1, fun hc => h.2 (hc₂.candid hc)⟩
  | script code =>
    refine Goes.bind ((Goes.pushFrame he hm₂ function hk₂ _ _ _ _ _).mono (fun _ _ _ h => h)
      fun _ _ _ h => ⟨hc₂.calm h.1, fun hc => h.2 (hc₂.candid hc)⟩) ?_
    rintro _ m₃ hm₃ ⟨s, hs, h₃⟩
    have hpopped {m₄ : Machine} (h₄ : m₃.Stands m₃.spots.dropLast m₄) : m.Calm m₄ := by
      rw [h₃.spots, List.dropLast_concat] at h₄
      exact hc₂.calm (h₃.trans h₄)
    exact (he.frame m₃ hm₃ (h₃.entered hs)).mono (fun _ _ _ h => hpopped h) fun _ _ _ h =>
      ⟨hpopped h.1, fun hc => h.2 (h₃.candid (hc₂.candid hc))⟩

end Calmly

end ScriptMachine
