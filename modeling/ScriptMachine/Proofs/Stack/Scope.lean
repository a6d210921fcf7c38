import ScriptMachine.Machine.Function
import ScriptMachine.Proofs.Stack.Allocation

/-! # Registers and scopes of the running frame

An instruction writes registers of the running frame, moves on, opens and closes block scopes, and
makes closures. Each of these changes the running frame in one place (`Orderly.modifyFrame`), and the
window of the frame is the last one, so that no frame below it notices. Variables are moved to the heap
before the first block scope is opened, so the record they move to takes the place of the outermost
head of the chain (`Keeping.tearOffIfNeeded`), and a block scope adds a head to the chain
(`Proceeds.pushScope`). -/

namespace ScriptMachine

open Machine

variable {m m' : Machine} {f : Frame} {below : Array Frame} {g : Frame → Frame}

namespace Machine

/-- Links up a scope chain are steps of the heap. -/
theorem scopeUp?_eq (m : Machine) (n : Nat) (scope : Option Handle) :
    m.scopeUp? n scope = m.heap.enclosing^[n] scope := by
  have hnone (n : Nat) : m.heap.enclosing^[n] none = none := by
    induction n with
    | zero => rfl
    | succ n ih => rw [Function.iterate_succ_apply]; exact ih
  induction n generalizing scope with
  | zero => rfl
  | succ n ih =>
    rw [Function.iterate_succ_apply]
    cases scope with
    | none => exact (hnone n).symm
    | some id =>
      have hlink : m.heap.link? id = (m.scopeRecord? id).map (·.parent) := by
        unfold Heap.link? scopeRecord?
        cases m.heap.cell? id with
        | none => rfl
        | some c => rfl
      simp only [scopeUp?, Heap.enclosing, Option.bind_some, hlink]
      cases m.scopeRecord? id with
      | none => exact (hnone n).symm
      | some record => exact ih record.parent

/-! ### The running frame -/

theorem frames_modifyFrame (hf : m.frames = below.push f) :
    (m.modifyFrame g).frames = below.push (g f) := by
  unfold modifyFrame
  refine Array.ext_getElem? fun i => ?_
  simp only [hf, Array.size_push, Nat.add_sub_cancel, Array.getElem?_modify, Array.getElem?_push]
  split
  case isTrue h => simp [← h]
  case isFalse h => simp [Ne.symm h]

/-- One change of the running frame after the other. -/
theorem modifyFrame_modifyFrame (m : Machine) (g g' : Frame → Frame) :
    (m.modifyFrame g).modifyFrame g' = m.modifyFrame (g' ∘ g) := by
  unfold modifyFrame
  simp only [Array.size_modify]
  congr 1
  refine Array.ext_getElem? fun i => ?_
  simp only [Array.getElem?_modify]
  split
  · simp
  · rfl

theorem modifyFrame_of_none (hf : m.frame? = none) : m.modifyFrame g = m := by
  unfold modifyFrame
  rw [frame?_eq_none.mp hf]
  cases m
  simp_all [Machine.frame?]

/-- Only what becomes of the running frame matters. -/
theorem modifyFrame_congr {g' : Frame → Frame} (hf : m.frame? = some f) (hg : g f = g' f) :
    m.modifyFrame g = m.modifyFrame g' := by
  obtain ⟨below, hframes⟩ := frame?_eq_some.mp hf
  have heq (g : Frame → Frame) : m.modifyFrame g = { m with frames := below.push (g f) } := by
    rw [← frames_modifyFrame hframes]
    rfl
  rw [heq, heq, hg]

theorem frame?_modifyFrame (hf : m.frame? = some f) : (m.modifyFrame g).frame? = some (g f) := by
  obtain ⟨below, hframes⟩ := frame?_eq_some.mp hf
  exact frame?_eq_some.mpr ⟨below, frames_modifyFrame hframes⟩

/-- The window of the running frame is the last one. -/
theorem Stacked.base (hs : m.Stacked) (hf : m.frame? = some f) :
    f.base = floor m.frames.toList (m.frames.size - 1) := by
  refine hs.tile _ f ?_
  rw [← hf, frame?, Array.back?_eq_getElem?]

/-- **A change of the running frame** that leaves its call alone. -/
theorem Orderly.modifyFrame (hm : m.Orderly) (hf : m.frame? = some f) (hcall : (g f).call = f.call)
    (hmoved : (g f).scopeDepth ≠ 0 → ∃ entry, m.code? f.code = some entry ∧
      ((g f).activation = none → entry.block.needsActivation = false))
    (hscopes : m.heap.Roomy → m.heap.Scoped (g f).scopeDepth.toNat (g f).scope)
    {R : Heap → Frame → Heap → Frame → Prop} (hrel : R m.heap f m.heap (g f)) :
    (m.modifyFrame g).Orderly ∧ Shifts R m (m.modifyFrame g) ∧
      m.Balanced (m.modifyFrame g) := by
  obtain ⟨below, hframes⟩ := frame?_eq_some.mp hf
  have hframes' := frames_modifyFrame (g := g) hframes
  have hsize : (m.modifyFrame g).frames.size = m.frames.size := by simp [hframes, hframes']
  have hbase : (g f).base = f.base := (congrArg Frame.base hcall :)
  have hcount : (g f).registerCount = f.registerCount := (congrArg Frame.registerCount hcall :)
  have hcode : (g f).code = f.code := (congrArg Frame.code hcall :)
  have hfloor (i : Nat) :
      floor (m.modifyFrame g).frames.toList i = floor m.frames.toList i := by
    unfold floor
    rw [hframes, hframes']
    simp [List.map_take, hcount]
  have hmem (k : Frame) (hk : k ∈ (m.modifyFrame g).frames) : k ∈ m.frames ∨ k = g f := by
    rw [hframes'] at hk
    rw [hframes]
    exact (Array.mem_push.mp hk).imp_left fun h => Array.mem_push.mpr (.inl h)
  refine ⟨⟨⟨fun i k hk => ?_, ?_, ?_, hm.stacked.room, hm.stacked.nesting⟩,
    ⟨hm.settled.lowered, fun k hk hd => ?_⟩,
    ⟨hm.chained.white, hm.chained.listed, fun hr k hk => ?_⟩,
    ⟨hm.hosted.hosts, hm.hosted.listeners⟩⟩,
    ⟨⟨⟨rfl, rfl, rfl, Nat.le_refl _⟩, ?_, fun _ _ => rfl, fun _ _ _ _ _ => rfl⟩, hsize, fun k hk => ?_⟩,
    rfl, rfl⟩
  · rw [hfloor]
    rw [hframes', Array.getElem?_push] at hk
    split at hk
    case isTrue hi =>
      obtain rfl := Option.some.inj hk
      rw [hbase]
      exact hm.stacked.tile i f (by rw [hframes, Array.getElem?_push, if_pos hi])
    case isFalse hi => exact hm.stacked.tile i k (by rw [hframes, Array.getElem?_push, if_neg hi, hk])
  · rw [hfloor, hsize]
    exact hm.stacked.size
  · rw [hsize]
    exact hm.stacked.depth
  · rcases hmem k hk with hk | rfl
    · exact hm.settled.moved k hk hd
    · rw [hcode]
      exact hmoved hd
  · rcases hmem k hk with hk | rfl
    · exact hm.chained.scopes hr k hk
    · exact hscopes hr
  · rw [hframes, hframes']
    simp
  · obtain rfl := Option.some.inj (hf.symm.trans hk)
    exact ⟨g f, frame?_modifyFrame hf, hcall, hrel⟩

/-- Moving on changes nothing but the position. -/
theorem Orderly.setPc (hm : m.Orderly) (pc : UInt32) :
    (m.setPc pc).Orderly ∧ m.Works (m.setPc pc) ∧ m.Balanced (m.setPc pc) := by
  cases hf : m.frame? with
  | none =>
    have heq : m.setPc pc = m := modifyFrame_of_none hf
    rw [heq]
    exact ⟨hm, .refl m, .refl m⟩
  | some f =>
    have hmem := Array.mem_of_back? hf
    exact hm.modifyFrame hf rfl (hm.settled.moved f hmem) (fun hr => hm.chained.scopes hr f hmem)
      ⟨rfl, .of_scope rfl rfl rfl fun _ _ _ => rfl⟩

/-! ### Registers -/

/-- Writing a slot of a scope record. -/
theorem Orderly.setScopeSlot (hm : m.Orderly) (id : Handle) (index : Nat) (v : Value) :
    (m.setScopeSlot id index v).Orderly ∧ m.Still (m.setScopeSlot id index v) ∧
      m.Balanced (m.setScopeSlot id index v) :=
  hm.relinks (Heap.link?_modifyCell m.heap id (Cell.link?_mapScope fun _ => rfl))
    (hm.chained.white.modifyCell _) (fun hl => hl.modifyCell _) (by simp [Heap.modifyCell])

theorem Orderly.setScopedVar (hm : m.Orderly) (depth index : UInt32) (v : Value) :
    (m.setScopedVar depth index v).Orderly ∧ m.Still (m.setScopedVar depth index v) ∧
      m.Balanced (m.setScopedVar depth index v) := by
  unfold Machine.setScopedVar
  split
  · exact hm.setScopeSlot _ _ v
  · exact ⟨hm, .refl m, .refl m⟩

/-- **Writing a register** of the running frame reaches no window below its own. -/
theorem Orderly.setRegister (hm : m.Orderly) (r : Register) (v : Value) :
    (m.setRegister r v).Orderly ∧ m.Works (m.setRegister r v) ∧ m.Balanced (m.setRegister r v) := by
  unfold Machine.setRegister
  cases hf : m.frame? with
  | none => exact ⟨hm, .refl m, .refl m⟩
  | some f =>
    dsimp only
    split
    case h_1 a _ =>
      obtain ⟨hm', hs, hb⟩ := hm.setScopeSlot a r.toNat v
      exact ⟨hm', hs.works, hb⟩
    case h_2 =>
      have hsize : (m.registers.set (f.base + r.toNat) v).registers.size =
          m.registers.registers.size := by simp [RegisterFile.set]
      refine ⟨⟨⟨hm.stacked.tile, hsize.trans hm.stacked.size, hm.stacked.depth, ?_,
        hm.stacked.nesting⟩, ⟨hm.settled.lowered, hm.settled.moved⟩,
        ⟨hm.chained.white, hm.chained.listed, hm.chained.scopes⟩,
        ⟨hm.hosted.hosts, hm.hosted.listeners⟩⟩,
        ⟨⟨⟨rfl, rfl, rfl, Nat.le_refl _⟩, rfl, fun i hi => ?_, fun _ _ _ _ _ => rfl⟩, rfl,
          fun k hk => ⟨k, hk, rfl, rfl, .refl _ k⟩⟩, rfl, rfl⟩
      · rw [hsize]
        exact hm.stacked.room
      · rw [← hm.stacked.base hf] at hi
        exact Array.getElem?_setIfInBounds_ne (by omega)

/-! ### Block scopes -/

/-- The running frame with its innermost block scope closed. -/
def closeScope (m : Machine) (f : Frame) : Frame :=
  { f with scope := m.heap.enclosing f.scope, scopeDepth := f.scopeDepth - 1 }

theorem popScope_eq (hf : m.frame? = some f) (hd : f.scopeDepth ≠ 0) :
    m.popScope = m.modifyFrame m.closeScope := by
  unfold popScope
  rw [hf]
  simp only [if_neg hd]
  refine modifyFrame_congr hf ?_
  refine congrArg (fun scope => { f with scope := scope, scopeDepth := f.scopeDepth - 1 })
    (?_ : _ = m.heap.enclosing f.scope)
  rw [← Function.iterate_one m.heap.enclosing, ← m.scopeUp?_eq]
  cases f.scope <;> rfl

theorem popScope_of_zero (hf : m.frame? = some f) (hd : f.scopeDepth = 0) : m.popScope = m := by
  unfold popScope
  rw [hf]
  exact if_pos hd

theorem toNat_sub_one {n : UInt32} (hn : n ≠ 0) : (n - 1).toNat = n.toNat - 1 := by
  have hpos : n.toNat ≠ 0 := fun h => hn (UInt32.toNat_inj.mp h)
  have hle : 1 ≤ n := UInt32.le_iff_toNat_le.mpr (Nat.one_le_iff_ne_zero.mpr hpos)
  rw [UInt32.toNat_sub_of_le _ _ hle]
  rfl

/-- **Closing a block scope** takes one head off the chain. -/
theorem Orderly.popScope (hm : m.Orderly) :
    m.popScope.Orderly ∧ m.Advances m.popScope ∧ m.Balanced m.popScope := by
  cases hf : m.frame? with
  | none =>
    have heq : m.popScope = m := by
      unfold Machine.popScope
      rw [hf]
    rw [heq]
    exact ⟨hm, (Works.refl m).advances, .refl m⟩
  | some f =>
    by_cases hd : f.scopeDepth = 0
    · rw [popScope_of_zero hf hd]
      exact ⟨hm, (Works.refl m).advances, .refl m⟩
    · rw [popScope_eq hf hd]
      have hmem := Array.mem_of_back? hf
      have hdepth : (f.scopeDepth - 1).toNat = f.scopeDepth.toNat - 1 := toNat_sub_one hd
      have hpos : 0 < f.scopeDepth.toNat := by
        rcases Nat.eq_zero_or_pos f.scopeDepth.toNat with h | h
        · exact absurd (UInt32.toNat_inj.mp h) hd
        · exact h
      refine hm.modifyFrame hf rfl (fun _ => hm.settled.moved f hmem hd) (fun hr => ?_)
        ⟨fun _ ha => ha, fun _ d _ hd' => .inl ?_⟩
      · have := (hm.chained.scopes hr f hmem).drop (n := 1) hpos
        rwa [Function.iterate_one, ← hdepth] at this
      · change d ≤ (f.scopeDepth - 1).toNat at hd'
        change m.heap.enclosing^[(f.scopeDepth - 1).toNat - d] (m.heap.enclosing f.scope) = _
        rw [← Function.iterate_succ_apply, hdepth]
        unfold Frame.headAt
        congr 2
        omega

end Machine

/-! ### The running frame in actions -/

namespace Proceeds

variable {env : Env}

/-- The running frame is there, or the action fails. -/
theorem currentFrame (hm : m.Orderly) {E : Unwind → Machine → Prop} (hE : ∀ u, E u m) :
    Proceeds (currentFrame env m) (fun f m' => m' = m ∧ m.frame? = some f) E := by
  refine look ?_
  cases hf : m.frame? with
  | none => exact unwind hm (hE _)
  | some f => exact ret hm ⟨rfl, rfl⟩

/-- **A new scope record** that is enclosed by the scope of a frame. -/
theorem allocateRecord (he : env.Orderly) (hm : m.Orderly) (hf : f ∈ m.frames) (shape : ShapeId)
    {record : ScopeRecord} (hr : record.parent = f.scope) :
    Proceeds ((allocate shape (.activation record)) env m)
      (fun id m' => (m.Still m' ∧ m.Balanced m') ∧ (m'.heap.Roomy →
        m'.heap.enclosing (some id) = f.scope ∧
          m'.heap.Scoped (f.scopeDepth.toNat + 1) (some id)))
      fun _ m' => m.Still m' ∧ m.Balanced m' := by
  have hplace {m₁ : Machine} (hm₁ : m₁.Orderly) (hs : m.Still m₁) (hb : m.Balanced m₁) :
      Proceeds (allocateCell shape (.activation record) env m₁)
        (fun id m' => (m.Still m' ∧ m.Balanced m') ∧ (m'.heap.Roomy →
          m'.heap.enclosing (some id) = f.scope ∧
            m'.heap.Scoped (f.scopeDepth.toNat + 1) (some id)))
        fun _ m' => m.Still m' ∧ m.Balanced m' := by
    obtain ⟨hm₂, hs₂, hb₂⟩ := hm₁.allocate shape (.activation record)
    refine pass hm₁ (bind (Q := fun r m' => r = (m₁.heap.allocate shape (.activation record)).1 ∧
      m' = { m₁ with heap := (m₁.heap.allocate shape (.activation record)).2 })
      (step hm₂ ⟨rfl, rfl⟩) ?_)
    rintro r _ hm₂ ⟨hr', rfl⟩
    cases r with
    | error failure => exact unwind hm₂ ⟨hs.trans hs₂, hb.trans hb₂⟩
    | ok id =>
      refine ret hm₂ ⟨⟨hs.trans hs₂, hb.trans hb₂⟩, fun hroom => ?_⟩
      have hroom₁ : m₁.heap.Roomy := hs₂.roomy hroom
      have hlisted := hm₁.chained.listed hroom₁
      obtain ⟨hnew, hcell⟩ := Heap.cell?_allocate hlisted hr'.symm (Nat.le_of_lt hroom)
      have hlink : (m₁.heap.allocate shape (.activation record)).2.link? id = some f.scope := by
        unfold Heap.link?
        rw [hcell, if_pos rfl, Option.bind_some, Cell.link?_eq_some]
        exact ⟨record, _, (Heap.payload_new shape _ _).1, hr⟩
      refine ⟨?_, ?_⟩
      · simp only [Heap.enclosing, Option.bind_some, hlink, Option.join_some]
      · refine (hm₁.chained.scopes hroom₁ f (by rw [hs.frames]; exact hf)).push ?_ ?_ hlink
        · simp [Heap.link?, hnew]
        · exact Heap.link?_allocate hlisted (Nat.le_of_lt hroom)
  refine pass hm (look (ite (fun _ => ?_) fun _ => hplace hm (.refl m) (.refl m)))
  refine bind (Keeping.discarded (R := Still) Keeping.collectGarbage env m he hm) ?_
  rintro _ m₁ hm₁ ⟨hs, hb⟩
  exact hplace hm₁ hs hb

/-- **Moving the variables of the running frame to the heap**, while it has no block scopes open. -/
theorem tearOffActivation (he : env.Orderly) (hm : m.Orderly)
    (hopen : ∀ f, m.frame? = some f → f.activation = none → f.scopeDepth = 0) :
    Proceeds (tearOffActivation env m)
      (fun _ m' => (m.Works m' ∧ m.Balanced m') ∧
        ∀ f', m'.frame? = some f' → f'.activation ≠ none)
      fun _ m' => m.Works m' ∧ m.Balanced m' := by
  refine bind (currentFrame hm fun _ => ⟨.refl m, .refl m⟩) ?_
  rintro f _ hm ⟨rfl, hf⟩
  cases ha : f.activation with
  | some a =>
    refine ret hm ⟨⟨.refl _, .refl _⟩, fun f' hf' => ?_⟩
    obtain rfl := Option.some.inj (hf.symm.trans hf')
    simp [ha]
  | none =>
    have hd := hopen f hf ha
    refine look (bind ((allocateRecord he hm (Array.mem_of_back? hf) _ rfl).mono
      (fun _ _ _ h => h) fun _ _ _ h => ⟨h.1.works, h.2⟩) ?_)
    rintro a m₁ hm₁ ⟨⟨hs, hb⟩, hrecord⟩
    have hf₁ : m₁.frame? = some f := by
      unfold Machine.frame? at hf ⊢
      rwa [hs.frames]
    -- without open block scopes, the new record replaces the only head
    have hheads : Heads m₁.heap f m₁.heap { f with activation := some a, scope := some a } := by
      refine ⟨fun b hb => ?_, fun _ d hle _ => .inr ⟨?_, ha, a, rfl, ?_⟩⟩
      · rw [ha] at hb
        cases hb
      · rw [hd] at hle
        exact Nat.le_zero.mp hle
      · simp [Frame.headAt, hd]
    obtain ⟨hm₂, hw, hb₂⟩ := hm₁.modifyFrame (R := fun h f h' f' =>
        f'.scopeDepth = f.scopeDepth ∧ Heads h f h' f')
      (g := fun f => { f with activation := some a, scope := some a }) hf₁ rfl
      (fun hne => absurd hd hne) (fun _ => by simp only [hd]; exact .zero) ⟨rfl, hheads⟩
    refine bind (Q := fun _ m' => m' = m₁.modifyFrame
      fun f => { f with activation := some a, scope := some a }) (change hm₂ rfl) ?_
    rintro _ _ hm₂ rfl
    refine ret hm₂ ⟨⟨hs.works.trans hw, hb.trans hb₂⟩, fun f' hf' => ?_⟩
    rw [frame?_modifyFrame hf₁] at hf'
    obtain rfl := Option.some.inj hf'
    simp

/-- Moving the variables if the code asks for it: afterwards, a frame that has not moved them never
does. -/
theorem tearOffIfNeeded (he : env.Orderly) (hm : m.Orderly) :
    Proceeds (tearOffIfNeeded env m)
      (fun _ m' => (m.Works m' ∧ m.Balanced m') ∧ ∀ f' entry, m'.frame? = some f' →
        m'.code? f'.code = some entry → f'.activation = none → entry.block.needsActivation = false)
      fun _ m' => m.Works m' ∧ m.Balanced m' := by
  refine bind (currentFrame hm fun _ => ⟨.refl m, .refl m⟩) ?_
  rintro f m hm ⟨rfl, hf⟩
  refine look ?_
  cases hcode : m.code? f.code with
  | none =>
    refine ret hm ⟨⟨.refl m, .refl m⟩, fun f' entry hf' hentry => ?_⟩
    obtain rfl := Option.some.inj (hf.symm.trans hf')
    rw [hcode] at hentry
    cases hentry
  | some entry =>
    refine ite (fun hneeds => ?_) fun hneeds => ?_
    · have hopen : ∀ f, m.frame? = some f → f.activation = none → f.scopeDepth = 0 := by
        intro f' hf' ha
        obtain rfl := Option.some.inj (hf.symm.trans hf')
        by_contra hd
        obtain ⟨entry', hentry', hmoved⟩ := hm.settled.moved f (Array.mem_of_back? hf) hd
        obtain rfl := Option.some.inj (hcode.symm.trans hentry')
        rw [hmoved ha] at hneeds
        cases hneeds
      change Proceeds ((ScriptMachine.tearOffActivation >>= fun _ => pure ()) env m) _ _
      refine bind (tearOffActivation he hm hopen) ?_
      rintro _ m₁ hm₁ ⟨hw, hmoved⟩
      exact ret hm₁ ⟨hw, fun f' _ hf' _ ha => absurd ha (hmoved f' hf')⟩
    · refine ret hm ⟨⟨.refl m, .refl m⟩, fun f' entry' hf' hentry' _ => ?_⟩
      obtain rfl := Option.some.inj (hf.symm.trans hf')
      obtain rfl := Option.some.inj (hcode.symm.trans hentry')
      simpa using hneeds

/-- **Opening a block scope** adds a head to the chain. -/
theorem pushScope (he : env.Orderly) (hm : m.Orderly) (layout : UInt32)
    (hcode : ∀ f, m.frame? = some f → (m.code? f.code).isSome) :
    Proceeds (pushScope layout env m) (fun _ m' => m.Advances m' ∧ m.Balanced m')
      fun _ m' => m.Advances m' ∧ m.Balanced m' := by
  refine bind ((tearOffIfNeeded he hm).mono (fun _ _ _ h => h)
    fun _ _ _ h => ⟨h.1.advances, h.2⟩) ?_
  rintro _ m₁ hm₁ ⟨⟨hw₁, hb₁⟩, hmoved⟩
  refine bind (currentFrame hm₁ fun _ => ⟨hw₁.advances, hb₁⟩) ?_
  rintro f _ hm₁ ⟨rfl, hf⟩
  refine look (bind ((allocateRecord he hm₁ (Array.mem_of_back? hf) _ rfl).mono
    (fun _ _ _ h => h) fun _ _ _ h => ⟨(hw₁.trans h.1.works).advances, hb₁.trans h.2⟩) ?_)
  rintro id m₂ hm₂ ⟨⟨hs, hb₂⟩, hrecord⟩
  have hf₂ : m₂.frame? = some f := by
    unfold Machine.frame? at hf ⊢
    rwa [hs.frames]
  have hdepth (hr : m₂.heap.Roomy) : (f.scopeDepth + 1).toNat = f.scopeDepth.toNat + 1 := by
    have hle := (hrecord hr).2.le_size
    have hlt : f.scopeDepth.toNat + 1 < 2 ^ 32 := Nat.lt_of_le_of_lt hle hr
    rw [UInt32.toNat_add]
    exact Nat.mod_eq_of_lt hlt
  have hnext : ∃ entry, m₂.code? f.code = some entry ∧
      (f.activation = none → entry.block.needsActivation = false) := by
    have hcalls := hw₁.frame?
    rw [hf] at hcalls
    obtain ⟨f₀, hf₀, hcall₀⟩ := Option.map_eq_some_iff.mp hcalls.symm
    obtain ⟨entry₀, hentry₀⟩ := Option.isSome_iff_exists.mp (hcode f₀ hf₀)
    have hc₀ : f₀.code = f.code := (congrArg Frame.code hcall₀ :)
    rw [hc₀] at hentry₀
    obtain ⟨entry₁, hentry₁, -⟩ := hw₁.keeps.code? hentry₀
    obtain ⟨entry₂, hentry₂, hsame⟩ := hs.code? hentry₁
    have hblock : entry₂.block = entry₁.block := (congrArg CodeEntry.block hsame :)
    exact ⟨entry₂, hentry₂, fun ha => by rw [hblock]; exact hmoved f entry₁ hf hentry₁ ha⟩
  have hheads : Heads m₂.heap f m₂.heap
      { f with scope := some id, scopeDepth := f.scopeDepth + 1 } := by
    refine ⟨fun _ h => h, fun hr d hle _ => .inl ?_⟩
    unfold Frame.headAt
    simp only [hdepth hr]
    rw [show f.scopeDepth.toNat + 1 - d = (f.scopeDepth.toNat - d) + 1 by omega,
      Function.iterate_succ_apply, (hrecord hr).1]
  obtain ⟨hm₃, ha, hb₃⟩ := hm₂.modifyFrame (R := Heads)
    (g := fun f => { f with scope := some id, scopeDepth := f.scopeDepth + 1 }) hf₂ rfl
    (fun _ => hnext) (fun hr => by simp only [hdepth hr]; exact (hrecord hr).2) hheads
  exact change hm₃ ⟨(hw₁.trans hs.works).trans_advances ha, hb₁.trans (hb₂.trans hb₃)⟩

end Proceeds

namespace Keeping

variable {α : Type}

theorem setRegister (r : Register) (v : Value) :
    Keeping Works (modify (·.setRegister r v) : MachineM Unit) := change fun _ hm => hm.setRegister r v

theorem setPc (pc : UInt32) : Keeping Works (modify (·.setPc pc) : MachineM Unit) :=
  change fun _ hm => hm.setPc pc

theorem setScopedVar (depth index : UInt32) (v : Value) :
    Restful (modify (·.setScopedVar depth index v) : MachineM Unit) :=
  change fun _ hm => hm.setScopedVar depth index v

theorem popScope : Keeping Advances (modify (·.popScope) : MachineM Unit) :=
  change fun _ hm => hm.popScope

theorem currentFrame : Restful currentFrame := by
  refine bind look fun m => ?_
  split
  · exact ret _
  · exact fatal _

theorem tearOffIfNeeded : Keeping Works tearOffIfNeeded := fun _ _ he hm =>
  (Proceeds.tearOffIfNeeded he hm).mono (fun _ _ _ h => h.1) fun _ _ _ h => h

theorem resolveName (name : Atom) : Restful (resolveName name) := by
  refine bind look fun m => bind (settled _) fun location => ?_
  split
  · exact ret _
  · exact ret _
  · exact settled _
  · exact raiseError _ _

theorem argumentsObject : Restful argumentsObject :=
  bind currentFrame fun _ => bind look fun _ => newArray _

/-! ### Functions -/

theorem newFunctionCell (target : CallTarget) (scope : Option Handle) (name : Option Atom)
    (arity : UInt32) : Restful (newFunctionCell target scope name arity) := by
  refine bind look fun _ => bind (allocate _ _ _) fun function => ?_
  cases target with
  | host _ => exact ret _
  | script _ =>
    have hprototype (names : Names) (prototype : Value) : Restful (do
        ScriptMachine.runHeap (Heap.defineProperty function names.prototype prototype { dontEnum := true })
        return function : MachineM Handle) :=
      bind (runHeap (.defineProperty _ _ _ _)) fun _ => ret _
    refine bind newObject fun prototype => bind (checkpoint _) fun _ => bind look fun m => ?_
    dsimp only
    split
    · exact bind (runHeap (.defineProperty _ _ _ _)) fun _ => hprototype _ _
    · exact hprototype _ _

theorem internOption (name : Option String) : Restful (internOption name) := by
  cases name with
  | none => exact ret _
  | some name => exact bind (intern name) fun _ => ret _

/-- **A closure** may move the variables of the running frame. -/
theorem newClosure (template : UInt32) : Keeping Works (newClosure template) := by
  refine bind tearOffIfNeeded fun _ => works (bind currentFrame fun f => bind look fun m => ?_)
  dsimp only
  split
  · exact fatal _
  · exact bind (internOption _) fun _ => bind (newFunctionCell _ _ _ _) fun _ => ret _

end Keeping

end ScriptMachine
