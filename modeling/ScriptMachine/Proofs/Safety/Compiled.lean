import ScriptMachine.Machine.Compiled
import ScriptMachine.Proofs.Safety.Call
import ScriptMachine.Proofs.Stub.Frame

/-! # Tier code is safe

The words of a stub call lie in a frame that the collector looks at, so the operands of a routine are
guarded while it runs (`Called`). A routine that raised has its exception parked where the collector
looks too. -/

namespace ScriptMachine

open Machine

/-- What a routine relies on: the collector looks at its words, and the name among them is
interned. -/
structure Called (m : Machine) (f : StubFrame) (routine : Routine) : Prop where
  anchored : ∀ i, (f.arg i).value ∈ m.anchors ∨ (f.arg i).value.cell? = none
  values : ∀ start, ∀ v ∈ f.valuesFrom start, v ∈ m.anchors
  named : ∀ i, routine.nameAt? = some i → m.heap.atoms.Knows (f.arg i).atom

/-- The value an operation returns is held. -/
def TierStep.Held (m : Machine) : TierStep → Prop
  | .ret value => m.Holds value
  | _ => True

namespace Machine

variable {m m' : Machine} {words : List StubWord} {routine : Routine}

/-- Other stub frames, with values that are held. -/
theorem Safe.withStubs (hs : m.Safe) {stubFrames : Array StubFrame}
    (hw : ∀ f ∈ stubFrames, ∀ v : Value, v.word ∈ f.words → m.Holds v) :
    Safe { m with stubFrames } := by
  refine hs.rehold rfl rfl rfl rfl rfl rfl hs.parked (fun v hv => hs.holds_root hv) fun v hv => ?_
  obtain ⟨f, hf, hv⟩ := List.mem_flatMap.mp hv
  exact hw f (Array.mem_toList_iff.mp hf) v hv

theorem Safe.holds_stubs (hs : m.Safe) :
    ∀ f ∈ m.stubFrames, ∀ v : Value, v.word ∈ f.words → m.Holds v := fun f hf _ hv =>
  hs.holds_word (List.mem_flatMap.mpr ⟨f, Array.mem_toList_iff.mpr hf, hv⟩)

theorem mem_stubFrame (m : Machine) (words : List StubWord) (v : Value) :
    v.word ∈ (m.stubFrame words).words ↔
      v = m.globalObject ∨ v = .hole ∨ ∃ w ∈ words, w.value = v := by
  have hfilled := StubFrame.filled_ofWords m.globalObject (m.frame?.map (·.code)) words
  obtain ⟨hglobals, -, hexception, -⟩ :=
    StubFrame.frame_ofWords m.globalObject (m.frame?.map (·.code)) words
  have hword (a b : Value) : a.word = b.word ↔ a = b := by
    rw [Value.mk.injEq]
  unfold stubFrame
  rw [hfilled.words, hglobals, hexception, List.mem_append, List.mem_pair, List.mem_map, or_comm, hword,
    hword, or_assoc]
  refine or_congr_right (or_congr_right (exists_congr fun w => and_congr_right fun _ => ?_))
  exact hword w.value v

theorem Safe.pushStub (hs : m.Safe) (hw : ∀ w ∈ words, m.Holds w.value) :
    Safe { m with stubFrames := m.stubFrames.push (m.stubFrame words) } := by
  refine hs.withStubs fun f hf v hv => ?_
  rcases Array.mem_push.mp hf with hf | rfl
  · exact hs.holds_stubs f hf v hv
  · rcases (mem_stubFrame m words v).mp hv with hglobal | hhole | ⟨w, hmem, rfl⟩
    · rw [hglobal]
      exact (hs.guards_intrinsic (by simp [Intrinsics.objects])).holds
    · exact holds_of_not_cell (by simp [hhole])
    · exact hw w hmem

theorem Safe.popStub (hs : m.Safe) : Safe { m with stubFrames := m.stubFrames.pop } := by
  refine hs.withStubs fun f hf => ?_
  rw [← Array.mem_toList_iff, Array.toList_pop] at hf
  exact hs.holds_stubs f (Array.mem_toList_iff.mp (List.dropLast_subset _ hf))

/-- The routine called with a list of words. -/
theorem called (m : Machine)
    (hn : ∀ i, routine.nameAt? = some i → m.heap.atoms.Knows (words.getD i .missing).atom) :
    Called { m with stubFrames := m.stubFrames.push (m.stubFrame words) } (m.stubFrame words)
      routine := by
  have hfilled := StubFrame.filled_ofWords m.globalObject (m.frame?.map (·.code)) words
  have hanchored : ∀ w ∈ words, w.value ∈
      Machine.anchors { m with stubFrames := m.stubFrames.push (m.stubFrame words) } := by
    intro w hw
    refine mem_anchors.mpr (.inr (.inl (List.mem_flatMap.mpr ⟨m.stubFrame words, by simp, ?_⟩)))
    exact (mem_stubFrame m words w.value).mpr (.inr (.inr ⟨w, hw, rfl⟩))
  refine ⟨fun i => ?_, fun start v hv => ?_, fun i hi => ?_⟩
  · rcases hfilled.arg_mem i with hmem | hmissing
    · exact .inl (hanchored _ hmem)
    · right
      unfold stubFrame
      rw [hmissing]
      decide
  · unfold stubFrame at hv
    rw [hfilled.valuesFrom] at hv
    obtain ⟨w, hw, rfl⟩ := List.mem_map.mp hv
    exact hanchored w (List.mem_of_mem_drop hw)
  · unfold stubFrame
    rw [hfilled.arg]
    exact hn i hi

/-- Parking what a routine raised. -/
theorem Safe.withParked (hs : m.Safe) {stubUnwind : Option Unwind}
    (hu : ∀ u, stubUnwind = some u → m.Carries u) : Safe { m with stubUnwind } := by
  refine hs.rehold rfl rfl rfl rfl rfl rfl (fun failure hf => hu _ hf) (fun v hmem => ?_) fun v hw =>
    hs.holds_word hw
  rcases mem_roots.mp hmem with h | h | h | h | h | h
  · exact hs.holds_root (mem_roots.mpr (.inl h))
  · exact hs.holds_root (mem_roots.mpr (.inr (.inl h)))
  · exact hs.holds_root (mem_roots.mpr (.inr (.inr (.inl h))))
  · exact hs.holds_root (mem_roots.mpr (.inr (.inr (.inr (.inl h)))))
  · cases hs' : stubUnwind with
    | none => simp [hs', stubRoots] at h
    | some u =>
      cases u with
      | fatal failure => simp [hs', stubRoots] at h
      | throw value =>
        have hv : v = value := by simpa [hs', stubRoots] using h
        rw [hv]
        exact hu _ hs'
  · exact hs.holds_root (mem_roots.mpr (.inr (.inr (.inr (.inr (.inr h))))))

theorem Carries.congr {u : Unwind} (hu : m.Carries u) (hheap : m'.heap = m.heap) : m'.Carries u := by
  cases u with
  | throw value => exact Holds.congr hu hheap
  | fatal failure =>
    intro ha
    refine hu ?_
    unfold Addressable at ha
    rwa [hheap] at ha

theorem Safe.carries_parked (hs : m.Safe) {u : Unwind} (hu : m.stubUnwind = some u) :
    m.Carries u := by
  cases u with
  | throw value => exact hs.holds_root (mem_roots.mpr (by simp [hu, stubRoots]))
  | fatal failure => exact hs.parked failure hu

theorem Safe.holds_constant (hs : m.Safe) {code : CodeId} {entry : CodeEntry}
    (hentry : m.code? code = some entry) (index : Nat) :
    m.Holds (entry.constants.getD index .undefined) := by
  rw [Array.getD_eq_getD_getElem?]
  cases hv : entry.constants[index]? with
  | none => exact holds_of_not_cell (by simp)
  | some v =>
    have hmem := Array.mem_of_getElem? hv
    exact hs.holds_root (mem_roots.mpr (.inr (.inr (.inr (.inr (.inr
      ⟨entry, Array.mem_of_getElem? hentry, hmem⟩))))))

theorem Safe.holds_this (hs : m.Safe) {f : Frame} (hf : m.frame? = some f) : m.Holds f.this :=
  hs.holds_frames f (frame?_mem hf) _ (mem_frameRoots.mpr (.inr (.inl rfl)))

end Machine

namespace Runs

variable {env : Env} {m : Machine} {f : StubFrame} {routine : Routine} {words : List StubWord}

/-! ### Stub calls -/

theorem arityCheck (hs : m.Safe) {callee : Value} (hv : m.Holds callee) (argc : UInt32) :
    Runs env m (arityCheck callee argc) fun r m' => m'.Holds r.value := by
  refine look ?_
  split
  · exact ret hs hv
  · exact raiseError hs _ _

theorem registerFileCheck (hs : m.Safe) (count : UInt32) :
    Runs env m (registerFileCheck count) fun _ m' => m'.heap = m.heap := by
  refine look ?_
  dsimp only
  exact ite (fun _ => raiseError hs _ _) fun _ => ret hs rfl

section Routine
variable (he : env.Sound) (hs : m.Safe) (hc : Called m f routine)
include hc

/-- A word outlives what the routine does. -/
theorem word_guarded {m' : Machine} (hs' : m'.Safe) (hsteady : m.Steady m') (i : Nat) :
    m'.Guards (f.arg i).value := by
  rcases hc.anchored i with h | h
  · exact hs'.guards (hsteady.anchors _ h)
  · exact guards_of_not_cell h

include hs

/-- The routine that reads a named property leaves the heap as it is. -/
theorem readRoutine (hr : routine = .getById) : Runs env m (ScriptMachine.runRoutine f .getById)
    fun r m' => m'.Holds r.value ∧ m'.heap = m.heap := by
  subst hr
  refine bind (getById hs (hc.named 1 rfl)) ?_
  rintro v m' hs' _ ⟨-, hheap, hv⟩
  exact ret hs' ⟨hv, hheap⟩

include he

/-- **A routine of the stub table.** -/
theorem runRoutine : Runs env m (ScriptMachine.runRoutine f routine) fun r m' => m'.Holds r.value := by
  have hg := word_guarded hc hs (.refl m)
  have hanswer {x : MachineM Value} (hx : Runs env m x fun v m' => m'.Holds v) :
      Runs env m (x >>= runRoutine.answer) fun r m' => m'.Holds r.value := by
    refine bind hx ?_
    intro v m' hs' _ hv
    exact ret hs' hv
  have htest {x : MachineM Bool} (hx : Runs env m x fun _ _ => True) :
      Runs env m (x >>= fun b => runRoutine.answer (.boolean b)) fun r m' => m'.Holds r.value := by
    refine bind hx ?_
    intro b m' hs' _ _
    exact ret hs' (holds_of_not_cell (Value.cell?_boolean b))
  have hstore {x : MachineM Unit} (i : Nat) (hx : Runs env m x fun _ m' => m.Steady m') :
      Runs env m (x >>= fun _ => runRoutine.answer (f.arg i).value) fun r m' => m'.Holds r.value := by
    refine bind hx ?_
    intro _ m' hs' _ hsteady
    exact ret hs' (word_guarded hc hs' hsteady i).holds
  have hdone {x : MachineM Unit} (hx : Runs env m x fun _ _ => True) :
      Runs env m (x >>= fun _ => runRoutine.answer .undefined) fun r m' => m'.Holds r.value := by
    refine bind hx ?_
    intro _ m' hs' _ _
    exact ret hs' (holds_of_not_cell (by decide))
  cases routine with
  | binary op => exact hanswer (applyBinary hs op _ _)
  | unary op => exact hanswer (applyUnary hs op _)
  | getById => exact (readRoutine hs hc rfl).mono fun _ _ h => h.1
  | putById => exact hstore 2 (putById hs (hc.named 1 rfl) (hg 0) (hg 2))
  | getByVal => exact hanswer (getByVal hs)
  | putByVal => exact hstore 2 (putByVal hs (hg 0) (hg 2))
  | deleteById => exact htest ((deleteById hs).mono fun _ _ _ => trivial)
  | hasProperty => exact htest (hasKey hs)
  | instanceOf => exact htest (instanceOf hs)
  | getGlobal => exact hanswer (getGlobalById hs (hc.named 0 rfl))
  | putGlobal => exact hstore 1 (putGlobalById hs (hc.named 0 rfl) (hg 1))
  | newObject => exact hanswer (Allocated.holds (newObject hs))
  | newArray =>
    refine hanswer (Allocated.holds (newArray hs fun v hv => hs.guards (hc.values 0 v ?_)))
    simpa [Elements.ofArray] using hv
  | newFunction => exact hanswer (newClosure hs _)
  | call =>
    refine hanswer (callValue he hs ⟨fun v hv => ?_, fun h => by cases h⟩)
    simp only [List.mem_cons] at hv
    rcases hv with rfl | rfl | hv
    · exact (hg 0).holds
    · exact (hg 1).holds
    · exact (hs.guards (hc.values 3 v hv)).holds
  | construct =>
    have hops : ∀ v ∈ (f.arg 0).value :: .undefined :: (f.valuesFrom 2).toArray.toList,
        m.Guards v := by
      intro v hv
      simp only [List.mem_cons] at hv
      rcases hv with rfl | rfl | hv
      · exact hg 0
      · exact guards_of_not_cell (by simp)
      · exact hs.guards (hc.values 2 v hv)
    exact hanswer (callValue he hs ⟨fun v hv => (hops v hv).holds, fun _ => hops⟩)
  | callArityCheck => exact arityCheck hs (hg 0).holds _
  | tearOffActivation =>
    refine bind (tearOffActivation hs) ?_
    intro id m' hs' _ hv
    exact ret hs' hv
  | pushScope => exact hdone (pushScope hs _)
  | popScope => exact hdone (update hs.popScope (grows_of_heap (heap_popScope m)) trivial)
  | getScopedVar => exact look (ret hs (hs.holds_scopedVar _ _))
  | putScopedVar =>
    obtain ⟨hsafe, hgrows, hsteady⟩ := hs.setScopedVar (f.arg 0).index (f.arg 1).index (hg 2).holds
    exact hstore 2 (update hsafe hgrows hsteady)
  | resolve => exact hanswer (resolveName hs)
  | argumentsObject => exact hanswer (argumentsObject hs)
  | throw => exact raise hs (hg 0).holds
  | timeoutCheck => exact hdone ((checkInterrupt hs).mono fun _ _ _ => trivial)
  | registerFileCheck => exact hdone ((registerFileCheck hs _).mono fun _ _ _ => trivial)
  | debugStatement => exact hdone ((notifyAt hs _ _ _).mono fun _ _ _ => trivial)

end Routine

/-- **A stub call**, from what its routine does to the heap. -/
theorem callStub (hs : m.Safe) (hw : ∀ w ∈ words, m.Holds w.value)
    (hn : ∀ i, routine.nameAt? = some i → m.heap.atoms.Knows (words.getD i .missing).atom)
    {P : Heap → Prop}
    (hrun : ∀ m₁ f, m₁.Safe → m₁.heap = m.heap → Called m₁ f routine →
      Runs env m₁ (ScriptMachine.runRoutine f routine) fun r m' => m'.Holds r.value ∧ P m'.heap) :
    Runs env m (callStub routine words) fun r m' =>
      r.isException = false → m'.Holds r.value ∧ P m'.heap := by
  have hs₁ := hs.pushStub hw
  refine look (bind (Q := fun _ m' =>
    m' = { m with stubFrames := m.stubFrames.push (m.stubFrame words) })
    (update hs₁ (grows_of_heap rfl) rfl) ?_)
  rintro _ _ _ _ rfl
  refine bind (attempt (hrun _ _ hs₁ rfl (called m hn))) ?_
  intro r m₂ hs₂ _ hr
  refine bind (Q := fun _ m' => m' = { m₂ with stubFrames := m₂.stubFrames.pop })
    (update hs₂.popStub (grows_of_heap rfl) rfl) ?_
  rintro _ _ hs₃ _ rfl
  cases r with
  | ok answer => exact ret hs₃ fun _ => ⟨Holds.congr hr.1 rfl, hr.2⟩
  | error u =>
    refine bind (Q := fun _ _ => True) (update (hs₃.withParked fun u' h => ?_) (grows_of_heap rfl)
      trivial) ?_
    · rw [← Option.some.inj h, parked_fail]
      exact Carries.congr hr rfl
    · intro _ m₄ hs₄ _ _
      exact ret hs₄ fun h => by cases h

theorem takeStubUnwind (hs : m.Safe) :
    Runs env m takeStubUnwind fun u m' => m'.Carries u := by
  refine step (hs.withParked fun _ h => by cases h) (grows_of_heap rfl) ?_
  refine Carries.congr (m := m) ?_ rfl
  cases hu : m.stubUnwind with
  | none =>
    intro _
    simp
  | some u => exact hs.carries_parked hu

/-! ### Operations -/

theorem tierStub (hs : m.Safe) (pc : UInt32) (hw : ∀ w ∈ words, m.Holds w.value)
    (hn : ∀ i, routine.nameAt? = some i → m.heap.atoms.Knows (words.getD i .missing).atom)
    {P : Heap → Prop}
    (hrun : ∀ m₁ f, m₁.Safe → m₁.heap = m.heap → Called m₁ f routine →
      Runs env m₁ (ScriptMachine.runRoutine f routine) fun r m' => m'.Holds r.value ∧ P m'.heap) :
    Runs env m (tierStub pc routine words) fun v m' => m'.Holds v ∧ P m'.heap := by
  refine bind (Q := fun _ m' => m'.heap = m.heap)
    (update ((hs.setPc (pc + 1)).withTier _) (grows_of_heap rfl) rfl) ?_
  intro _ m₁ hs₁ _ hheap
  refine bind (callStub hs₁ (fun w hmem => (hw w hmem).congr hheap) (by rw [hheap]; exact hn)
    fun m₂ f hs₂ hheap₂ => hrun m₂ f hs₂ (hheap₂.trans hheap)) ?_
  intro r m₂ hs₂ _ hr
  refine ite (fun _ => ?_) fun h => ret hs₂ (hr (by simpa using h))
  refine bind (takeStubUnwind hs₂) ?_
  intro u m₃ hs₃ _ hu
  exact unwind hs₃ hu

/-- A stub call of any routine. -/
theorem tierCall (he : env.Sound) (hs : m.Safe) (pc : UInt32) (hw : ∀ w ∈ words, m.Holds w.value)
    (hn : ∀ i, routine.nameAt? = some i → m.heap.atoms.Knows (words.getD i .missing).atom) :
    Runs env m (ScriptMachine.tierStub pc routine words) fun v m' => m'.Holds v := by
  refine (tierStub (P := fun _ => True) hs pc hw hn fun m₁ f hs₁ _ hc => ?_).mono fun _ _ h => h.1
  exact (runRoutine he hs₁ hc).mono fun _ _ h => ⟨h, trivial⟩

theorem tierBinary (he : env.Sound) (hs : m.Safe) (pc : UInt32) (op : BinaryOp)
    (lhs rhs : Register) : Runs env m (tierBinary pc op lhs rhs) fun v m' => m'.Holds v := by
  have hstub : Runs env m (ScriptMachine.tierStub pc (.binary op)
      [.ofValue (m.register lhs), .ofValue (m.register rhs)]) fun v m' => m'.Holds v := by
    refine tierCall he hs pc (fun w hmem => ?_) fun _ h => by cases h
    simp only [List.mem_cons, List.not_mem_nil, or_false] at hmem
    rcases hmem with rfl | rfl
    · exact (hs.guards_register lhs).holds
    · exact (hs.guards_register rhs).holds
  refine look ?_
  dsimp only
  split
  · refine ite (fun _ => ret hs ?_) fun _ => hstub
    exact holds_of_not_cell (cell?_onNumbers _ _ _)
  · exact hstub

theorem tierStore (hs : m.Safe) (dst : Register) {v : Value} (hv : m.Holds v) :
    Runs env m (tierStep.store dst v) fun r m' => r.Held m' := by
  obtain ⟨hsafe, hgrows⟩ := hs.setRegister dst hv
  refine bind (Q := fun _ _ => True) (update hsafe hgrows trivial) ?_
  intro _ m' hs' _ _
  exact ret hs' trivial

/-- Storing the result of an action. -/
theorem tierResult {x : MachineM Value} (dst : Register) (hx : Runs env m x fun v m' => m'.Holds v) :
    Runs env m (x >>= tierStep.store dst) fun r m' => r.Held m' := by
  refine bind hx ?_
  intro v m' hs' _ hv
  exact tierStore hs' dst hv

theorem holds_word (hs : m.Safe) (a : TierOperand) : m.Holds (a.word m).value := by
  cases a with
  | register r => exact (hs.guards_register r).holds
  | atom a => exact holds_of_not_cell (StubWord.cell?_ofAtom a)
  | index i => exact holds_of_not_cell (StubWord.cell?_ofIndex i)

/-- **One operation of tier code.** -/
theorem tierStep (he : env.Sound) (hs : m.Safe) (pc : UInt32) {op : TierOp}
    (hk : op.Known m.heap.atoms) :
    Runs env m (tierStep pc op) fun r m' => r.Held m' := by
  cases op with
  | loadValue dst value => exact tierStore hs dst (holds_of_not_cell hk)
  | loadConstant dst index =>
    refine look (tierStore hs dst ?_)
    split
    · split
      case h_1 hentry => exact hs.holds_constant hentry _
      case h_2 => exact holds_of_not_cell (by simp)
    · exact holds_of_not_cell (by simp)
  | loadThis dst =>
    refine look (tierStore hs dst ?_)
    split
    case h_1 hf => exact hs.holds_this hf
    case h_2 => exact holds_of_not_cell (by simp)
  | move dst src => exact look (tierStore hs dst (hs.guards_register src).holds)
  | binary op dst lhs rhs => exact tierResult dst (tierBinary he hs pc op lhs rhs)
  | unary op dst src =>
    have hoperand := (hs.guards_register src).holds
    refine look ?_
    dsimp only
    split
    case h_1 value hv =>
      refine tierStore hs dst ?_
      unfold UnaryOp.inlineResult? at hv
      split at hv
      case h_4 =>
        rw [← Option.some.inj hv]
        exact hoperand
      case h_5 => cases hv
      all_goals
        rw [← Option.some.inj hv]
        exact holds_of_not_cell (Value.cell?_number _)
    case h_2 =>
      refine tierResult dst (tierCall he hs pc (fun w hmem => ?_) fun _ h => by cases h)
      rw [List.mem_singleton.mp hmem]
      exact hoperand
  | compareAndBranch op dst lhs rhs sense target branchPc =>
    refine bind (tierBinary he hs pc op lhs rhs) ?_
    intro value m₁ hs₁ _ hv
    refine bind (Q := fun _ _ => True) (bind (tierStore hs₁ dst hv) fun _ _ hs₂ _ _ =>
      ret hs₂ trivial) ?_
    intro _ m₂ hs₂ _ _
    refine ret hs₂ ?_
    split <;> trivial
  | jump target => exact ret hs trivial
  | branch cond sense target =>
    refine look (ret hs ?_)
    split <;> trivial
  | loop target =>
    have hcheck : Runs env m (ScriptMachine.tierStub pc .timeoutCheck []) fun v m' => m'.Holds v :=
      tierCall he hs pc (fun _ h => by cases h) fun _ h => by cases h
    refine bind (Q := fun _ _ => True) (bind hcheck fun _ _ hs₁ _ _ => ret hs₁ trivial) ?_
    intro _ m₁ hs₁ _ _
    exact ret hs₁ trivial
  | stub routine dst args =>
    refine look (bind (tierCall he hs pc (fun w hmem => ?_) fun i hi => ?_) ?_)
    · obtain ⟨a, -, rfl⟩ := List.mem_map.mp hmem
      exact holds_word hs a
    · obtain ⟨a, ha, hknown⟩ := hk i hi
      simpa [List.getD_eq_getElem?_getD, ha, TierOperand.word] using hknown
    · intro value m₁ hs₁ _ hv
      cases dst with
      | none => exact ret hs₁ trivial
      | some dst => exact tierStore hs₁ dst hv
  | callMethod dst base name propertySite callSite args =>
    have hreceiver := (hs.guards_register base).holds
    refine look (bind (tierStub (P := fun h => h = m.heap) hs pc (fun w hmem => ?_)
      (fun i hi => ?_) fun m₁ f hs₁ hheap hc => ?_) ?_)
    · simp only [List.mem_cons, List.not_mem_nil, or_false] at hmem
      rcases hmem with rfl | rfl | rfl
      · exact hreceiver
      · exact holds_of_not_cell (StubWord.cell?_ofAtom name)
      · exact holds_of_not_cell (StubWord.cell?_ofIndex propertySite)
    · obtain rfl := Option.some.inj hi
      simpa [TierOp.Known] using hk
    · exact (readRoutine hs₁ hc rfl).mono fun _ _ h => ⟨h.1, h.2.trans hheap⟩
    · rintro method m₁ hs₁ _ ⟨hmethod, hheap⟩
      refine look (tierResult dst (tierCall he hs₁ pc (fun w hmem => ?_) fun _ h => by cases h))
      simp only [List.cons_append, List.nil_append, List.mem_cons, List.mem_map] at hmem
      rcases hmem with rfl | rfl | rfl | ⟨r, -, rfl⟩
      · exact hmethod
      · exact hreceiver.congr hheap
      · exact holds_of_not_cell (StubWord.cell?_ofIndex callSite)
      · exact (hs₁.guards_register r).holds
  | catchInto dst => exact tierResult dst (takeException hs)
  | ret src => exact look (ret hs (hs.guards_register src).holds)

/-! ### Loops -/

theorem truncate (hs : m.Safe) (mark : Nat) :
    Runs env m (ScriptMachine.modifyHeap (·.truncateTemporaries mark)) fun _ _ => True := by
  exact update (hs.truncate mark) (grows_truncate m mark) trivial

/-- **Tier code, from any operation on.** -/
theorem runOps (he : env.Sound) (hs : m.Safe) {code : Lowered}
    (hk : ∀ op ∈ code.ops, op.Known m.heap.atoms) (mark fuel index : Nat) :
    Runs env m (runOps code mark fuel index) fun v m' => m'.Holds v := by
  induction fuel generalizing m index with
  | zero => exact exhausted hs
  | succ fuel ih =>
    unfold ScriptMachine.runOps
    split
    case h_1 => exact ret hs (holds_of_not_cell (by simp))
    case h_2 op hop =>
      refine pass hs (by simp) (bind (truncate hs mark) ?_)
      intro _ m₁ hs₁ hg₁ _
      have hknown := (hk op (Array.mem_of_getElem? hop)).extends hg₁.atoms
      refine bind (attempt (tierStep he hs₁ _ hknown)) ?_
      intro r m₂ hs₂ hg₂ hr
      have hk₂ : ∀ op ∈ code.ops, op.Known m₂.heap.atoms := fun op h =>
        (hk op h).extends (hg₁.trans hg₂).atoms
      split
      · exact ih hs₂ hk₂ _
      · exact ih hs₂ hk₂ _
      · exact ret hs₂ hr
      · refine bind (enterHandler hs₂ hr) ?_
        intro handler m₃ hs₃ hg₃ hheap
        split
        · exact ih hs₃ (fun op h => (hk₂ op h).extends hg₃.atoms) _
        · exact unwind hs₃ (Holds.congr hr hheap)
      · exact unwind hs₂ hr

/-- **Running the top frame by tier code.** -/
theorem runCompiled (he : env.Sound) (hs : m.Safe) {code : Lowered}
    (hk : ∀ op ∈ code.ops, op.Known m.heap.atoms) :
    Runs env m (runCompiled code) fun v m' => m'.Holds v := by
  refine look (ask (fun _ h => by rw [h]) (bind (attempt (runOps he hs hk _ _ _)) ?_))
  intro r m₁ hs₁ _ hr
  cases r with
  | ok value =>
    refine bind (popFramesTo hs₁ _) ?_
    intro _ m₂ hs₂ _ hheap
    refine bind (finishReturn hs₂ (Holds.congr hr hheap)) ?_
    intro result m₃ hs₃ _ hv
    exact ret hs₃ hv
  | error u =>
    refine bind (popFramesTo hs₁ _) ?_
    intro _ m₂ hs₂ _ hheap
    exact unwind hs₂ (Carries.congr hr hheap)

end Runs

end ScriptMachine
