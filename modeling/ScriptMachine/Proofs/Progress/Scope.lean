import ScriptMachine.Machine.Function
import ScriptMachine.Proofs.Progress.Allocation
import ScriptMachine.Proofs.Stack.Scope

/-! # Registers, scopes and closures of the running frame

Writing registers, opening and closing block scopes and making closures leave every frame at its
instruction; only moving on does not (`Intact.arrives_setPc`). Operations that ask the running frame for
its code find it, so that they make no complaint (`Goes.pushScope`, `Goes.newClosure`). -/

namespace ScriptMachine

open Machine

variable {m m' : Machine} {f : Frame} {g : Frame → Frame}

namespace Machine

/-- The record that the variables of a frame move to. -/
def activationRecord (m : Machine) (f : Frame) : ScopeRecord :=
  { slots := (Array.range f.varCount.toNat).map fun i => m.registers.get (f.base + i)
    names := match m.code? f.code with
      | some entry => entry.variableNames
      | none => #[]
    parent := f.scope }

/-- The variables of a frame have moved to a record. -/
def tornOff (m : Machine) (a : Handle) : Machine :=
  m.modifyFrame fun f => { f with activation := some a, scope := some a }

/-- The code of the running frame has a nested function at an index. -/
def HasTemplate (m : Machine) (template : UInt32) : Prop :=
  ∃ f entry, m.frame? = some f ∧ m.code? f.code = some entry ∧ template.toNat < entry.functions.size

theorem supplies_record {record : ScopeRecord} (hf : m.frame? = some f)
    (hp : record.parent = f.scope) : m.Supplies (.activation record) :=
  .inr ⟨f, Array.mem_of_back? hf, hp⟩

/-! ### The running frame -/

theorem spots_modifyFrame_congr (m : Machine) {g' : Frame → Frame}
    (hg : ∀ f, (g f).spot = (g' f).spot) : (m.modifyFrame g).spots = (m.modifyFrame g').spots := by
  refine List.ext_getElem? fun i => ?_
  simp only [spots, modifyFrame, List.getElem?_map, Array.getElem?_toList, Array.getElem?_modify]
  split
  · simp [Option.map_map, Function.comp_def, hg]
  · rfl

theorem spots_modifyFrame (m : Machine) (hg : ∀ f, (g f).spot = f.spot) :
    (m.modifyFrame g).spots = m.spots := by
  have hid : (m.modifyFrame g).spots = (m.modifyFrame id).spots := spots_modifyFrame_congr m hg
  rw [hid]
  simp [spots, modifyFrame]

/-- **A change of the running frame** that leaves it where it is. -/
theorem arrives_modifyFrame (hf : m.frame? = some f) (hgrounded : m.Grounded (g f))
    (hg : ∀ f, (g f).spot = f.spot) (ha : (g f).activation = f.activation) :
    m.Arrives (m.modifyFrame g) ∧ m.Calm (m.modifyFrame g) := by
  refine ⟨(Step.frame hf hgrounded ⟨?_, fun _ h => ha.trans h⟩).arrives, spots_modifyFrame m hg, rfl, rfl⟩
  exact (congrArg (fun s : Frame => { s with pc := 0 }) (hg f) :)

/-- **Moving on.** -/
theorem Intact.arrives_setPc (hm : m.Intact) (pc : UInt32) : m.Arrives (m.setPc pc) := by
  cases hf : m.frame? with
  | none =>
    rw [show m.setPc pc = m from modifyFrame_of_none hf]
    exact .refl m
  | some f =>
    have hgrounded := hm.frames f (Array.mem_of_back? hf)
    exact (Step.frame hf ⟨hgrounded.code, hgrounded.scope, hgrounded.activation, hgrounded.blocks⟩
      ⟨rfl, fun _ h => h⟩).arrives

theorem frame?_setPc (hf : m.frame? = some f) (pc : UInt32) :
    (m.setPc pc).frame? = some { f with pc } := frame?_modifyFrame hf

theorem arrives_setRegister (m : Machine) (r : Register) (v : Value) :
    m.Arrives (m.setRegister r v) ∧ m.Calm (m.setRegister r v) := by
  refine ⟨(Step.register r v).arrives, ?_⟩
  unfold setRegister
  split
  · exact .refl m
  · split <;> exact ⟨rfl, rfl, rfl⟩

theorem arrives_setScopedVar (m : Machine) (depth index : UInt32) (v : Value) :
    m.Arrives (m.setScopedVar depth index v) ∧ m.Calm (m.setScopedVar depth index v) := by
  refine ⟨(Step.binding depth index v).arrives, ?_⟩
  unfold setScopedVar
  split
  · exact ⟨rfl, rfl, rfl⟩
  · exact .refl m

/-- **Closing a block scope.** -/
theorem Intact.arrives_popScope (hm : m.Intact) : m.Arrives m.popScope ∧ m.Calm m.popScope := by
  cases hf : m.frame? with
  | none =>
    have heq : m.popScope = m := by
      unfold popScope
      rw [hf]
    rw [heq]
    exact ⟨.refl m, .refl m⟩
  | some f =>
    by_cases hd : f.scopeDepth = 0
    · rw [popScope_of_zero hf hd]
      exact ⟨.refl m, .refl m⟩
    · rw [popScope_eq hf hd]
      have hgrounded := hm.frames f (Array.mem_of_back? hf)
      refine arrives_modifyFrame hf ⟨hgrounded.code, ?_, hgrounded.activation, ?_⟩ (fun _ => rfl) rfl
      · have := hm.scopeUp? hgrounded.scope 1
        rwa [scopeUp?_eq, Function.iterate_one] at this
      · have hdepth : (f.scopeDepth - 1).toNat = f.scopeDepth.toNat - 1 := toNat_sub_one hd
        have hpos : 1 ≤ f.scopeDepth.toNat :=
          Nat.one_le_iff_ne_zero.mpr fun h => hd (UInt32.toNat_inj.mp h)
        have := hgrounded.blocks.drop hpos
        rwa [Function.iterate_one, ← hdepth] at this

end Machine

theorem currentFrame_eq (hf : m.frame? = some f) (env : Env) : currentFrame env m = .ok f m := by
  unfold currentFrame
  rw [get_bind, hf]
  rfl

/-- Without a frame, there is a complaint. -/
theorem currentFrame_of_none (hf : m.frame? = none) (env : Env) :
    currentFrame env m = .error (.unwound (.fatal (.invalidBytecode "no active frame"))) m := by
  unfold currentFrame
  rw [get_bind, hf]
  rfl

namespace Goes

variable {α β : Type} {env : Env} {Q : β → Machine → Prop} {E : Unwind → Machine → Prop}

/-- Looking at the running frame. -/
theorem framed {k : Frame → MachineM β} (hf : m.frame? = some f) (hk : Goes m (k f env m) Q E) :
    Goes m ((currentFrame >>= k) env m) Q E := by
  rwa [bind_eq_of_ok (currentFrame_eq hf env)]

/-- **Moving the variables of the running frame to the heap.** -/
theorem tearOffActivation (hm : m.Intact) (hf : m.frame? = some f) :
    Goes m (tearOffActivation env m)
      (fun a m' => match f.activation with
        | some b => a = b ∧ m' = m
        | none => ∃ mid, m.Quiet mid ∧
          (mid.heap.Roomy → mid.scopeRecord? a = some (m.activationRecord f)) ∧ m' = mid.tornOff a)
      fun u m' => m.Quiet m' ∧ ∃ limit, u = .fatal (.outOfMemory limit) := by
  refine framed hf ?_
  cases ha : f.activation with
  | some a => exact ret hm ⟨rfl, rfl⟩
  | none =>
    have hsupplies : m.Supplies (.activation (m.activationRecord f)) := supplies_record hf rfl
    refine look (bind (allocate hm _ hsupplies) ?_)
    rintro a mid hmid ⟨hr, hcell⟩
    have hf' : mid.frame? = some f := hr.frame?.trans hf
    have hgrounded := hmid.frames f (Array.mem_of_back? hf')
    have hrecord (hroom : mid.heap.Roomy) : mid.scopeRecord? a = some (m.activationRecord f) := by
      obtain ⟨c, hcell, hp⟩ := hcell hroom
      exact scopeRecord?_eq_some.mpr ⟨c, _, hcell, hp⟩
    have harrives : mid.Arrives (mid.tornOff a) := by
      refine (Step.frame hf' ⟨hgrounded.code, ?_, ?_, ?_⟩
        ⟨rfl, fun b hb => by rw [ha] at hb; cases hb⟩).arrives
      · intro hroom id h
        obtain rfl := Option.some.inj h
        exact ⟨_, hrecord hroom⟩
      · intro hroom id h
        obtain rfl := Option.some.inj h
        exact ⟨_, hrecord hroom, by simp [activationRecord]⟩
      · have hbelow : mid.Nests f.scopeDepth.toNat (m.activationRecord f).parent := hgrounded.blocks
        exact (hbelow.push hrecord).mono (Nat.le_succ _)
    refine bind (Q := fun _ m' => m' = mid.tornOff a) (change hmid harrives rfl) ?_
    rintro _ _ hm' rfl
    exact ret hm' ⟨mid, hr, hrecord, rfl⟩

/-- Moving the variables leaves the frames where they are. -/
theorem tearOffActivation_calm (hm : m.Intact) (hf : m.frame? = some f) :
    Goes m (ScriptMachine.tearOffActivation env m) (fun _ m' => m.Calm m')
      fun u m' => m.Calm m' ∧ u.Innocent := by
  refine (tearOffActivation hm hf).mono (fun a m' _ h => ?_) fun u m' _ h => ?_
  · cases ha : f.activation with
    | some b =>
      rw [ha] at h
      obtain ⟨-, rfl⟩ := h
      exact .refl _
    | none =>
      rw [ha] at h
      obtain ⟨mid, hr, -, rfl⟩ := h
      exact hr.calm.calm ⟨spots_modifyFrame mid fun _ => rfl, rfl, rfl⟩
  · obtain ⟨hr, limit, rfl⟩ := h
    exact ⟨hr.calm, fun _ h => by cases h⟩

/-- Moving the variables if the code asks for it. -/
theorem tearOffIfNeeded (hm : m.Intact) (hf : m.frame? = some f) :
    Goes m (tearOffIfNeeded env m) (fun _ m' => m.Calm m') fun u m' => m.Calm m' ∧ u.Innocent := by
  refine framed hf (look ?_)
  cases m.code? f.code with
  | none => exact ret hm (.refl m)
  | some entry =>
    refine ite (fun _ => ?_) fun _ => ret hm (.refl m)
    change Goes m ((ScriptMachine.tearOffActivation >>= fun _ => pure ()) env m) _ _
    exact bind (tearOffActivation_calm hm hf) fun _ m' hm' h => ret hm' h

/-- **Opening a block scope.** -/
theorem pushScope (hm : m.Intact) (hf : m.frame? = some f) (layout : UInt32) :
    Goes m (pushScope layout env m) (fun _ m' => m.Calm m') fun u m' => m.Calm m' ∧ u.Innocent := by
  refine bind (tearOffIfNeeded hm hf) ?_
  rintro _ m₁ hm₁ hc₁
  obtain ⟨f₁, hf₁, -⟩ := hc₁.frame? hf
  refine framed hf₁ (look (bind ((allocate hm₁ _ (supplies_record hf₁ rfl)).mono
    (fun _ _ _ h => h) ?_) ?_))
  · rintro u m₂ - ⟨hr, limit, rfl⟩
    exact ⟨hc₁.calm hr.calm, fun _ h => by cases h⟩
  · rintro id m₂ hm₂ ⟨hr, hcell⟩
    have hf₂ : m₂.frame? = some f₁ := hr.frame?.trans hf₁
    have hgrounded := hm₂.frames f₁ (Array.mem_of_back? hf₂)
    have hrecord (hroom : m₂.heap.Roomy) :=
      scopeRecord?_eq_some.mpr ((hcell hroom).imp fun _ h => ⟨_, h⟩)
    have hscope : m₂.Anchors (some id) := by
      intro hroom scope hs
      obtain rfl := Option.some.inj hs
      exact ⟨_, hrecord hroom⟩
    have hblocks : m₂.Nests (f₁.scopeDepth + 1).toNat (some id) :=
      (Nests.push hgrounded.blocks hrecord).mono (by
        rw [UInt32.toNat_add]
        exact Nat.mod_le _ _)
    obtain ⟨ha, hc₂⟩ := arrives_modifyFrame
      (g := fun f => { f with scope := some id, scopeDepth := f.scopeDepth + 1 }) hf₂
      ⟨hgrounded.code, hscope, hgrounded.activation, hblocks⟩ (fun _ => rfl) rfl
    exact change hm₂ ha ((hc₁.calm hr.calm).calm hc₂)

/-- **An array of the arguments.** -/
theorem argumentsObject (he : env.Faithful) (hm : m.Intact) (hf : m.frame? = some f) :
    Goes m (argumentsObject env m) (fun _ m' => m.Quiet m')
      fun u m' => m.Quiet m' ∧ (m.Candid → u.Innocent) :=
  framed hf (look (Calmly.newArray _ env m he hm))

/-- **A new function** of what is registered, over the scope of a frame. -/
theorem newFunctionCell (he : env.Faithful) (hm : m.Intact) {target : CallTarget}
    {scope : Option Handle} (hk : m.Knows target) (hs : scope = none ∨ ∃ f ∈ m.frames, scope = f.scope)
    (name : Option Atom) (arity : UInt32) :
    Goes m (newFunctionCell target scope name arity env m) (fun _ m' => m.Calm m')
      fun u m' => m.Calm m' ∧ (m.Candid → u.Innocent) := by
  have hsupplies : m.Supplies (.function { target, scope, name, arity }) := ⟨hk, hs⟩
  refine look (bind ((allocate hm _ hsupplies).mono (fun _ _ _ h => h) ?_) ?_)
  · rintro u m₁ - ⟨hr, limit, rfl⟩
    exact ⟨hr.calm, fun _ _ h => by cases h⟩
  · rintro function m₁ hm₁ ⟨hr, -⟩
    have hhidden (names : Names) (prototype : Value) : Calmly Calm (do
        runHeap (Heap.defineProperty function names.prototype prototype { dontEnum := true })
        return function : MachineM Handle) :=
      .bind (Calmly.runHeap (.defineProperty _ _ _ _)) fun _ => .ret _
    have after {x : MachineM Handle} (hx : Calmly Calm x) : Goes m₁ (x env m₁) (fun _ m' => m.Calm m')
        fun u m' => m.Calm m' ∧ (m.Candid → u.Innocent) :=
      (hx env m₁ he hm₁).mono (fun _ _ _ h => hr.calm.calm h) fun _ _ _ h =>
        ⟨hr.calm.calm h.1, fun hc => h.2 (hr.calm.candid hc)⟩
    cases target with
    | host _ => exact ret hm₁ hr.calm
    | script _ =>
      refine after (.bind (Calmly.quiet .newObject) fun prototype => .bind (Calmly.checkpoint _)
        fun _ => .bind .look fun _ => ?_)
      dsimp only
      split
      · exact .bind (Calmly.runHeap (.defineProperty _ _ _ _)) fun _ => hhidden _ _
      · exact hhidden _ _

end Goes

namespace Calmly

theorem setRegister (r : Register) (v : Value) :
    Calmly Calm (modify (·.setRegister r v) : MachineM Unit) :=
  change fun m _ => arrives_setRegister m r v

theorem setScopedVar (depth index : UInt32) (v : Value) :
    Calmly Calm (modify (·.setScopedVar depth index v) : MachineM Unit) :=
  change fun m _ => arrives_setScopedVar m depth index v

theorem popScope : Calmly Calm (modify (·.popScope) : MachineM Unit) :=
  change fun _ hm => hm.arrives_popScope

theorem resolveName (name : Atom) : Calmly Calm (resolveName name) := by
  refine bind look fun m => bind (settled _) fun location => ?_
  split
  · exact ret _
  · exact ret _
  · exact settled _
  · exact raiseError _ _

theorem internOption (name : Option String) : Calmly Quiet (internOption name) := by
  cases name with
  | none => exact ret _
  | some name => exact bind (intern name) fun _ => ret _

end Calmly

/-- **A closure** of a function that is nested in the code of the running frame. -/
theorem Goes.newClosure {env : Env} (he : env.Faithful) (hm : m.Intact) (hf : m.frame? = some f)
    (template : UInt32) : Goes m (newClosure template env m) (fun _ m' => m.Calm m')
      fun u m' => m.Calm m' ∧ (m.HasTemplate template → m.Candid → u.Innocent) := by
  refine bind ((tearOffIfNeeded hm hf).mono (fun _ _ _ h => h) fun _ _ _ h => ⟨h.1, fun _ _ => h.2⟩) ?_
  rintro _ m₁ hm₁ hc₁
  obtain ⟨f₁, hf₁, hspot⟩ := hc₁.frame? hf
  obtain ⟨entry₁, hentry₁, hcomplete⟩ := hm₁.frameCode hf₁
  refine framed hf₁ (look ?_)
  rw [hentry₁]
  dsimp only
  cases hnested : entry₁.functions[template.toNat]? with
  | none =>
    refine unwind hm₁ ⟨hc₁, ?_⟩
    -- the code has the same nested functions as before
    rintro ⟨f₀, entry₀, hf₀, hentry₀, hlt⟩
    obtain rfl := Option.some.inj (hf.symm.trans hf₀)
    obtain ⟨entry, hentry, hfixed⟩ := hc₁.code? hentry₀
    have hcode : f₁.code = f.code := (congrArg Frame.code hspot :)
    rw [hcode, hentry] at hentry₁
    obtain rfl := Option.some.inj hentry₁
    have hfunctions : entry.functions = entry₀.functions := (congrArg CodeEntry.functions hfixed :)
    rw [hfunctions, Array.getElem?_eq_none_iff] at hnested
    exact absurd hlt (Nat.not_lt.mpr hnested)
  | some code =>
    have hknows : m₁.Knows (.script code) := hcomplete.functions code (Array.mem_of_getElem? hnested)
    refine bind ((Calmly.internOption _ env m₁ he hm₁).mono (fun _ _ _ h => h) ?_) ?_
    · exact fun u m₂ _ h => ⟨hc₁.calm h.1.calm, fun _ hc => h.2 (hc₁.candid hc)⟩
    · rintro name m₂ hm₂ hr₂
      have hc₂ := hc₁.calm hr₂.calm
      have hmem : f₁ ∈ m₂.frames := by
        rw [hr₂.frames]
        exact Array.mem_of_back? hf₁
      refine bind ((newFunctionCell he hm₂ (hr₂.calm.knows hknows) (.inr ⟨f₁, hmem, rfl⟩) _ _).mono
        (fun _ _ _ h => h) ?_) ?_
      · exact fun u m₃ _ h => ⟨hc₂.calm h.1, fun _ hc => h.2 (hc₂.candid hc)⟩
      · exact fun _ m₃ hm₃ h => ret hm₃ (hc₂.calm h)

end ScriptMachine
