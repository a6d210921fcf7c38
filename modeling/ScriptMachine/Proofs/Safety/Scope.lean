import ScriptMachine.Machine.Function
import ScriptMachine.Proofs.Safety.Property

/-! # Registers, scopes and functions are safe

Everything a register of the running frame can be read as is guarded: it is a root, or a slot of the
scope record that the frame holds on to (`Safe.guards_register`). So the operands of an instruction
outlive the collections it causes. -/

namespace ScriptMachine

namespace Machine

variable {m m' : Machine} {v : Value} {id : Handle} {f : Frame}

/-! ### Frames -/

theorem Safe.guards_root (hs : m.Safe) (hv : v ∈ m.roots) : m.Guards v :=
  hs.guards (mem_anchors.mpr (.inl hv))

theorem Safe.guards_frame (hs : m.Safe) (hf : f ∈ m.frames) (hv : v ∈ frameRoots f) : m.Guards v :=
  hs.guards_root (mem_roots.mpr (.inr (.inl ⟨f, hf, hv⟩)))

theorem frame?_mem (hf : m.frame? = some f) : f ∈ m.frames := Array.mem_of_back? hf

theorem grows_of_heap (h : m'.heap = m.heap) : m.Grows m' := by
  refine ⟨by rw [h], ?_⟩
  rw [h]
  exact .refl _

/-- Other frames and registers, with values that are held. -/
theorem Safe.reframe (hs : m.Safe) {registers : RegisterFile} {frames : Array Frame}
    (hr : ∀ v ∈ registers.registers, m.Holds v)
    (hf : ∀ f ∈ frames, ∀ v ∈ frameRoots f, m.Holds v) : Safe { m with registers, frames } := by
  refine hs.rehold rfl rfl rfl rfl rfl rfl hs.parked (fun v hv => ?_) fun v hv => hs.holds_word hv
  rcases mem_roots.mp hv with hv | ⟨f, hmem, hv⟩ | hrest
  · exact hr v hv
  · exact hf f hmem v hv
  · exact hs.holds_root (mem_roots.mpr (.inr (.inr hrest)))

theorem Safe.holds_register_file (hs : m.Safe) : ∀ v ∈ m.registers.registers, m.Holds v :=
  fun _ hv => hs.holds_root (mem_roots.mpr (.inl hv))

theorem Safe.holds_frames (hs : m.Safe) : ∀ f ∈ m.frames, ∀ v ∈ frameRoots f, m.Holds v :=
  fun _ hf _ hv => (hs.guards_frame hf hv).holds

theorem Safe.modifyFrame (hs : m.Safe) {g : Frame → Frame}
    (hg : ∀ f v, m.frame? = some f → v ∈ frameRoots (g f) → v ∈ frameRoots f ∨ m.Holds v) :
    (m.modifyFrame g).Safe := by
  refine hs.reframe hs.holds_register_file fun f hf v hv => ?_
  obtain ⟨i, hi⟩ := Array.getElem?_of_mem hf
  rw [Array.getElem?_modify] at hi
  split at hi
  case isFalse => exact hs.holds_frames f (Array.mem_of_getElem? hi) v hv
  case isTrue heq =>
    obtain ⟨f', hf', rfl⟩ := Option.map_eq_some_iff.mp hi
    have hback : m.frame? = some f' := by
      rw [frame?, Array.back?, heq]
      exact hf'
    rcases hg f' v hback hv with hold | hheld
    · exact hs.holds_frames f' (frame?_mem hback) v hold
    · exact hheld

theorem Safe.setPc (hs : m.Safe) (pc : UInt32) : (m.setPc pc).Safe :=
  hs.modifyFrame fun _ _ _ hv => .inl hv

/-! ### Scope records -/

/-- What a slot of a scope record has is a reference of its cell. -/
theorem scopeSlot_cases (m : Machine) (id : Handle) (index : Nat) :
    m.scopeSlot id index = .undefined ∨
      ∃ c, m.heap.cell? id = some c ∧ m.scopeSlot id index ∈ m.heap.references c := by
  unfold scopeSlot
  cases hr : m.scopeRecord? id with
  | none => exact .inl rfl
  | some record =>
    obtain ⟨c, room, hc, hp⟩ := scopeRecord?_eq_some.mp hr
    dsimp only
    rw [Array.getD_eq_getD_getElem?]
    cases hv : record.slots[index]? with
    | none => exact .inl rfl
    | some v =>
      have hmem := Array.mem_of_getElem? hv
      exact .inr ⟨c, hc, by simp [Heap.references, hp, Payload.references, hmem]⟩

theorem Safe.guards_scopeSlot (hs : m.Safe) (hid : m.Guards (.cell id)) (index : Nat) :
    m.Guards (m.scopeSlot id index) := by
  rcases scopeSlot_cases m id index with heq | ⟨c, hc, hv⟩
  · rw [heq]
    exact guards_of_not_cell (by simp)
  · exact hs.guards_reference hid hc hv

theorem Safe.holds_scopeSlot (hs : m.Safe) (id : Handle) (index : Nat) :
    m.Holds (m.scopeSlot id index) := by
  rcases scopeSlot_cases m id index with heq | ⟨c, hc, hv⟩
  · rw [heq]
    exact holds_of_not_cell (by simp)
  · exact hs.holds_reference hc hv

theorem Safe.holds_scopedVar (hs : m.Safe) (depth index : UInt32) :
    m.Holds (m.scopedVar depth index) := by
  unfold scopedVar
  split
  · exact hs.holds_scopeSlot _ _
  · exact holds_of_not_cell (by simp)

theorem Safe.holds_parent (hs : m.Safe) {record : ScopeRecord} (hr : m.scopeRecord? id = some record)
    (hv : record.parent.map Value.cell = some v) : m.Holds v := by
  obtain ⟨c, room, hc, hp⟩ := scopeRecord?_eq_some.mp hr
  refine hs.holds_reference hc ?_
  simp only [Heap.references, hp, Payload.references, List.mem_append, Option.mem_toList]
  exact .inr (.inr hv)

/-! ### Registers -/

theorem Safe.guards_registers (hs : m.Safe) (index : Nat) : m.Guards (m.registers.get index) := by
  unfold RegisterFile.get
  rw [Array.getD_eq_getD_getElem?]
  cases hv : m.registers.registers[index]? with
  | none => exact guards_of_not_cell (by simp)
  | some v => exact hs.guards_root (mem_roots.mpr (.inl (Array.mem_of_getElem? hv)))

/-- **A register of the running frame is guarded.** -/
theorem Safe.guards_register (hs : m.Safe) (r : Register) : m.Guards (m.register r) := by
  unfold register
  cases hf : m.frame? with
  | none => exact guards_of_not_cell (by simp)
  | some f =>
    dsimp only
    cases hr : f.redirects r with
    | none => exact hs.guards_registers _
    | some activation =>
      refine hs.guards_scopeSlot (hs.guards_frame (frame?_mem hf) ?_) _
      unfold Frame.redirects at hr
      split at hr
      · simp [mem_frameRoots, hr]
      · cases hr

theorem setScopeSlot_changes (hs : m.Safe) (id : Handle) (index : Nat) (hv : m.Holds v) :
    Heap.Changes m.Holds m.heap (m.setScopeSlot id index v).heap := by
  unfold setScopeSlot
  cases hc : m.heap.cell? id with
  | none =>
    rw [Heap.modifyCell_of_none _ hc]
    exact .refl
  | some c => exact .single (.scope hv hs.heap hc index)

theorem Safe.setScopeSlot (hs : m.Safe) (id : Handle) (index : Nat) (hv : m.Holds v) :
    (m.setScopeSlot id index v).Safe ∧ m.Grows (m.setScopeSlot id index v) ∧
      m.Steady (m.setScopeSlot id index v) := by
  have hc := setScopeSlot_changes hs id index hv
  exact ⟨hs.changes hc, grows_changes hs hc, steady_changes hs hc⟩

theorem Safe.setRegister (hs : m.Safe) (r : Register) (hv : m.Holds v) :
    (m.setRegister r v).Safe ∧ m.Grows (m.setRegister r v) := by
  unfold Machine.setRegister
  split
  case h_1 => exact ⟨hs, .refl m⟩
  case h_2 f _ =>
    split
    · obtain ⟨hsafe, hgrows, -⟩ := hs.setScopeSlot _ _ hv
      exact ⟨hsafe, hgrows⟩
    · refine ⟨hs.reframe (fun w hw => ?_) hs.holds_frames, grows_of_heap rfl⟩
      rcases Array.mem_or_eq_of_mem_setIfInBounds hw with hold | rfl
      · exact hs.holds_register_file w hold
      · exact hv

theorem Safe.setScopedVar (hs : m.Safe) (depth index : UInt32) (hv : m.Holds v) :
    (m.setScopedVar depth index v).Safe ∧ m.Grows (m.setScopedVar depth index v) ∧
      m.Steady (m.setScopedVar depth index v) := by
  unfold Machine.setScopedVar
  split
  · exact hs.setScopeSlot _ _ hv
  · exact ⟨hs, .refl m, .refl m⟩

theorem heap_popScope (m : Machine) : m.popScope.heap = m.heap := by
  unfold popScope
  split
  · rfl
  · split <;> rfl

theorem Safe.popScope (hs : m.Safe) : m.popScope.Safe := by
  unfold Machine.popScope
  split
  case h_1 => exact hs
  case h_2 f hf =>
    split
    · exact hs
    · refine hs.modifyFrame fun f' v hf' hv => ?_
      obtain rfl : f' = f := Option.some.inj (hf'.symm.trans hf)
      rw [mem_frameRoots] at hv ⊢
      rcases hv with hv | hv | hv | hv
      · exact .inl (.inl hv)
      · exact .inl (.inr (.inl hv))
      · right
        dsimp only at hv
        split at hv
        case h_2 => cases hv
        case h_1 scope _ =>
          split at hv
          case h_2 => cases hv
          case h_1 record hr => exact hs.holds_parent hr hv
      · exact .inl (.inr (.inr (.inr hv)))

end Machine

open Machine

namespace Runs

variable {env : Env} {m : Machine} {name : Atom}

/-! ### Scopes -/

theorem currentFrame (hs : m.Safe) :
    Runs env m currentFrame fun f m' => m' = m ∧ m.frame? = some f := by
  refine look ?_
  split
  case h_1 f hf => exact ret hs ⟨rfl, hf⟩
  case h_2 => exact fatal hs fun _ => by simp

/-- A new scope record, with guarded values and a guarded parent. -/
theorem newScope (hs : m.Safe) {record : ScopeRecord} (hslots : ∀ v ∈ record.slots, m.Guards v)
    (hparent : ∀ v, record.parent.map Value.cell = some v → m.Guards v) :
    Runs env m (ScriptMachine.allocate m.intrinsics.activationShape (.activation record))
      fun id m' => m'.Holds (.cell id) := by
  refine Allocated.holds (allocate hs rfl hs.anchored.intrinsics.shaped.activation
    (guards_of_not_cell (by simp)) (fun id hid => by simp at hid) fun v hv => ?_)
  simp only [Payload.references, List.mem_append, Array.mem_toList_iff, Option.mem_toList] at hv
  rcases hv with hv | hv
  · exact hslots v hv
  · exact hparent v hv

theorem guards_scope (hs : m.Safe) {f : Frame} (hf : m.frame? = some f) :
    ∀ v, f.scope.map Value.cell = some v → m.Guards v := fun _ hv =>
  hs.guards_frame (frame?_mem hf) (mem_frameRoots.mpr (.inr (.inr (.inl hv))))

/-- Entering a scope record that is held. -/
theorem enterScope (hs : m.Safe) {scope : Handle} (hv : m.Holds (.cell scope)) {g : Frame → Frame}
    (hg : ∀ f v, v ∈ frameRoots (g f) → v ∈ frameRoots f ∨ v = .cell scope) :
    Runs env m (modify (·.modifyFrame g)) fun _ m' => m'.heap = m.heap := by
  refine update (hs.modifyFrame fun f v _ hmem => (hg f v hmem).imp_right fun heq => ?_)
    (grows_of_heap rfl) rfl
  rw [heq]
  exact hv

theorem tearOffActivation (hs : m.Safe) :
    Runs env m tearOffActivation fun id m' => m'.Holds (.cell id) := by
  refine bind (currentFrame hs) ?_
  rintro f _ _ _ ⟨rfl, hf⟩
  cases ha : f.activation with
  | some activation =>
    refine ret hs (hs.guards_frame (frame?_mem hf) ?_).holds
    simp [mem_frameRoots, ha]
  | none =>
    refine look (bind (newScope hs (fun v hv => ?_) (guards_scope hs hf)) ?_)
    · obtain ⟨i, -, rfl⟩ := Array.mem_map.mp hv
      exact hs.guards_registers _
    · intro activation m₁ hs₁ _ hv
      refine bind (enterScope hs₁ hv fun f v hmem => ?_) ?_
      · rw [mem_frameRoots] at hmem ⊢
        rcases hmem with h | h | h | h | h
        · exact .inl (.inl h)
        · exact .inl (.inr (.inl h))
        · exact .inr (Option.some.inj h).symm
        · exact .inr (Option.some.inj h).symm
        · exact .inl (.inr (.inr (.inr (.inr h))))
      · intro _ m₂ hs₂ _ hheap
        exact ret hs₂ (hv.congr hheap)

theorem tearOffIfNeeded (hs : m.Safe) : Runs env m tearOffIfNeeded fun _ _ => True := by
  refine bind (currentFrame hs) ?_
  rintro f _ _ _ ⟨rfl, -⟩
  refine look ?_
  split
  · refine ite (fun _ => ?_) fun _ => ret hs trivial
    refine bind (tearOffActivation hs) ?_
    intro _ m₁ hs₁ _ _
    exact ret hs₁ trivial
  · exact ret hs trivial

theorem pushScope (hs : m.Safe) (layout : UInt32) :
    Runs env m (pushScope layout) fun _ _ => True := by
  refine bind (tearOffIfNeeded hs) ?_
  intro _ m₁ hs₁ _ _
  refine bind (currentFrame hs₁) ?_
  rintro f _ _ _ ⟨rfl, hf⟩
  refine look (bind (newScope hs₁ (fun v hv => ?_) (guards_scope hs₁ hf)) ?_)
  · rw [Array.mem_replicate] at hv
    exact guards_of_not_cell (by simp [hv.2])
  · intro scope m₂ hs₂ _ hv
    refine (enterScope hs₂ hv fun f v hmem => ?_).mono fun _ _ _ => trivial
    rw [mem_frameRoots] at hmem ⊢
    rcases hmem with h | h | h | h
    · exact .inl (.inl h)
    · exact .inl (.inr (.inl h))
    · exact .inr (Option.some.inj h).symm
    · exact .inl (.inr (.inr (.inr h)))

theorem resolveName (hs : m.Safe) : Runs env m (resolveName name) fun v m' => m'.Holds v := by
  refine look (bind (Q := fun _ m' => m' = m) (settled hs fun _ _ => rfl) ?_)
  rintro location m - - rfl
  split
  · exact ret hs (hs.guards_register _).holds
  · exact ret hs (hs.holds_scopedVar _ _)
  · exact settled hs fun _ => hs.holds_property
  · exact raiseError hs _ _

theorem argumentsObject (hs : m.Safe) :
    Runs env m argumentsObject fun v m' => m'.Holds v := by
  refine bind (currentFrame hs) ?_
  rintro f _ _ _ ⟨rfl, hf⟩
  refine look (Allocated.holds (newArray hs fun v hv => ?_))
  rcases Array.mem_append.mp hv with hv | hv
  · obtain ⟨i, -, rfl⟩ := Array.mem_map.mp hv
    exact hs.guards_register _
  · exact hs.guards_frame (frame?_mem hf) (mem_frameRoots.mpr (.inr (.inr (.inr (.inr hv)))))

/-! ### Functions -/

/-- Defining a hidden property of a cell that is held. -/
theorem define (hs : m.Safe) {id : Handle} {value : Value} (hid : m.Holds (.cell id))
    (hk : m.heap.atoms.Knows name) (hv : m.Holds value) (attributes : Attributes) :
    Runs env m (ScriptMachine.runHeap (Heap.defineProperty id name value attributes)) fun _ m' =>
      ∃ h, Heap.Changes m.Holds m.heap h ∧ m' = { m with heap := h } := by
  have hc := Heap.defineProperty_changes (storable_holds m) hv hs.heap id hk attributes
  refine (runHeap hs hc fun ha h he => ?_).mono fun _ m' hm' => ⟨_, hc, hm'.1⟩
  obtain ⟨c, hcell⟩ := Heap.isLive_iff.mp (hid ha id (by simp))
  obtain ⟨h', hok⟩ := @Heap.defineProperty_ok _ id c name value attributes hcell
  rw [hok] at he
  cases he

theorem newFunctionCell (hs : m.Safe) (target : CallTarget) {scope : Option Handle}
    (functionName : Option Atom) (arity : UInt32)
    (hscope : ∀ v, scope.map Value.cell = some v → m.Guards v) :
    Runs env m (newFunctionCell target scope functionName arity) fun id m' =>
      .cell id ∈ m'.anchors := by
  have hmem : m.intrinsics.functionPrototype ∈ m.intrinsics.objects := by simp [Intrinsics.objects]
  refine look (bind (allocate hs rfl hs.anchored.intrinsics.shaped.function
    (hs.guards_intrinsic hmem) (Heap.live_cell.mpr (hs.anchored.intrinsics.live _ hmem))
    (by simpa [Payload.references] using hscope)) ?_)
  intro function m₁ hs₁ _ hf
  have hfunction := mem_anchors.mpr (.inr (.inr (.inr hf.temporary)))
  cases target with
  | host _ => exact ret hs₁ hfunction
  | script _ =>
    refine bind (newObject hs₁) ?_
    intro prototype m₂ hs₂ _ hp
    have hprototype := (hs₂.guards_temporary hp.temporary).holds
    have hfunction₂ := hp.steady.anchors _ hfunction
    have hheld₂ := (hs₂.guards hfunction₂).holds
    refine pass hs₂ (by simp [hheld₂, hprototype]) (look ?_)
    -- the second definition is about a heap that the first has changed
    have hlast {m₃ : Machine} (hs₃ : m₃.Safe) (hk : m₃.heap.atoms.Knows m₂.names.prototype)
        (ha : .cell function ∈ m₃.anchors) (hv : m₃.Holds prototype) :
        Runs env m₃ (do
          ScriptMachine.runHeap (Heap.defineProperty function m₂.names.prototype prototype
            { dontEnum := true })
          return function) fun id m' => .cell id ∈ m'.anchors := by
      refine bind (define hs₃ (hs₃.guards ha).holds hk hv _) ?_
      rintro _ _ hs₄ _ ⟨h, hc, rfl⟩
      exact ret hs₄ ((steady_changes hs₃ hc).anchors _ ha)
    split
    case h_1 id hid =>
      rw [Value.cell?_eq_some.mp hid] at hprototype
      refine bind (define hs₂ hprototype hs₂.anchored.names.constructor hheld₂ _) ?_
      rintro _ _ hs₃ hg₃ ⟨h, hc, rfl⟩
      refine hlast hs₃ (hg₃.atoms.knows hs₂.anchored.names.prototype)
        ((steady_changes hs₂ hc).anchors _ hfunction₂) ?_
      rw [Value.cell?_eq_some.mp hid]
      exact hprototype.changes hs₂ hc
    case h_2 => exact hlast hs₂ hs₂.anchored.names.prototype hfunction₂ hprototype

theorem internOption (hs : m.Safe) (text : Option String) :
    Runs env m (internOption text) fun _ m' => m.Steady m' := by
  cases text with
  | none => exact ret hs (.refl m)
  | some text =>
    refine bind (intern hs text) ?_
    rintro _ _ hs' _ ⟨rfl, -⟩
    exact ret hs' (steady_changes (P := m.Holds) hs (.single (.intern text)))

theorem newClosure (hs : m.Safe) (template : UInt32) :
    Runs env m (newClosure template) fun v m' => m'.Holds v := by
  refine bind (tearOffIfNeeded hs) ?_
  intro _ m₁ hs₁ _ _
  refine bind (currentFrame hs₁) ?_
  rintro f m₁ _ _ ⟨rfl, hf⟩
  refine look ?_
  cases m₁.code? f.code with
  | none => exact fatal hs₁ fun _ => by simp
  | some entry =>
    dsimp only
    cases entry.functions[template.toNat]? with
    | none => exact fatal hs₁ fun _ => by simp
    | some code =>
      refine bind (internOption hs₁ _) ?_
      intro name m₂ hs₂ _ hsteady
      have hf₂ : m₂.frame? = some f := by
        rw [frame?, hsteady.frames]
        exact hf
      refine bind (newFunctionCell hs₂ _ _ _ (guards_scope hs₂ hf₂)) ?_
      intro function m₃ hs₃ _ hv
      exact ret hs₃ (hs₃.guards hv).holds

end Runs

end ScriptMachine
