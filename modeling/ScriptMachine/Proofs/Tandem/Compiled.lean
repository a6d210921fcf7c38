import ScriptMachine.Proofs.Tandem.Stubs

/-! # Tier code of two runs

An operation of tier code does the same in twin machines, since its stub calls do, and what it computes
itself depends on numbers only (`Meets.tierStep`). So a run of tier code is a run of the same operations
(`Meets.runOps`), and its frames are popped alike (`Meets.runCompiled`). -/

namespace ScriptMachine

open Machine

variable {α β : Type} {ρ ρ' : Pairing} {m m' k k' : Machine} {v w : Value} {env env' : Env}
  {routine : Routine} {words words' : List StubWord} {name : Atom}

/-! ### Operations -/

/-- **Steps of two runs.** -/
inductive TierStep.Both (ρ : Pairing) (h h' : Heap) : TierStep → TierStep → Prop
  | next : Both ρ h h' .next .next
  | jump (target : Nat) : Both ρ h h' (.jump target) (.jump target)
  | ret {v w : Value} : Heap.Both ρ h h' v w → Both ρ h h' (.ret v) (.ret w)

/-- The results are steps alike. -/
def Steps (ρ : Pairing) (s : TierStep) (m : Machine) (s' : TierStep) (m' : Machine) : Prop :=
  TierStep.Both ρ m.heap m'.heap s s'

/-- Words that are values of registers, names and numbers. -/
theorem Worded.of_both
    (hw : List.Forall₂ (fun x y => Heap.Both ρ m.heap m'.heap x.value y.value) words words')
    (hn : ∀ i, routine.nameAt? = some i → m.heap.atoms.Knows (words.getD i .missing).atom)
    (hc : ∀ i j, routine.citation? = some (i, j) → ∀ code, m.frame?.map (·.code) = some code →
      m.heap.atoms.Fits ∧ m.SiteNamed code (words.getD j .missing).index.toNat
        (words.getD i .missing).atom) :
    Worded ρ m m' routine words words' where
  same := hw.imp fun _ _ h => h.same
  left w hmem := (Aligned.ofList hw).forall_left (fun _ _ h => h.holds.1) w (by simpa using hmem)
  right w hmem := (Aligned.ofList hw).forall_right (fun _ _ h => h.holds.2) w (by simpa using hmem)
  named := hn
  cited := hc

/-- Words of which none is a name. -/
theorem Worded.plain
    (hw : List.Forall₂ (fun x y => Heap.Both ρ m.heap m'.heap x.value y.value) words words')
    (hn : routine.nameAt? = none) (hc : routine.citation? = none) :
    Worded ρ m m' routine words words' :=
  .of_both hw (fun i hi => by rw [hn] at hi; cases hi) fun i j hij => by rw [hc] at hij; cases hij

theorem Heap.Both.ofAtom {h h' : Heap} (a : Atom) :
    Heap.Both ρ h h' (StubWord.ofAtom a).value (StubWord.ofAtom a).value :=
  .word (StubWord.cell?_ofAtom a)

theorem Heap.Both.ofIndex {h h' : Heap} (i : UInt32) :
    Heap.Both ρ h h' (StubWord.ofIndex i).value (StubWord.ofIndex i).value :=
  .word (StubWord.cell?_ofIndex i)

theorem Machine.Twins.operand (ht : m.Twins ρ m') (a : TierOperand) :
    Heap.Both ρ m.heap m'.heap (a.word m).value (a.word m').value := by
  cases a with
  | register r => exact (ht.register r).both ht
  | atom a => exact .ofAtom a
  | index i => exact .ofIndex i

/-- The constants of code. -/
theorem Machine.Twins.constant (ht : m.Twins ρ m') {id : CodeId} {entry entry' : CodeEntry}
    (hx : m.code? id = some entry) (hy : m'.code? id = some entry') (he : entry.Twins ρ entry')
    (index : Nat) : Heap.Both ρ m.heap m'.heap (entry.constants.getD index .undefined)
      (entry'.constants.getD index .undefined) :=
  ht.both (he.constants.getD index (.word (by simp))) (ht.safe.holds_constant hx index)
    (ht.safe'.holds_constant hy index)

theorem UnaryOp.inlineResult?_alike (op : UnaryOp) (h : ρ.Matches v w) :
    op.inlineResult? w = op.inlineResult? v ∧
      ∀ r, op.inlineResult? v = some r → r.cell? = none := by
  have hcell (a : Handle) : op.inlineResult? (.cell a) = none := by
    unfold UnaryOp.inlineResult?
    rw [Value.number?_cell]
    split <;> simp_all
  cases h with
  | cell hp => exact ⟨by rw [hcell, hcell], fun r hr => by rw [hcell] at hr; cases hr⟩
  | word hv =>
    refine ⟨rfl, fun r hr => ?_⟩
    unfold UnaryOp.inlineResult? at hr
    split at hr
    case h_4 =>
      rw [← Option.some.inj hr]
      exact hv
    case h_5 => cases hr
    all_goals
      rw [← Option.some.inj hr]
      exact Value.cell?_number _

namespace Meets

theorem tierStore (ht : m.Twins ρ m') (dst : Register) (hb : Heap.Both ρ m.heap m'.heap v w) :
    Meets ρ Steps (tierStep.store dst v env m) (tierStep.store dst w env' m') :=
  bind (Q := fun _ _ _ _ _ => True) (update (ht.setRegister dst hb) trivial)
    fun _ _ _ _ _ _ hk _ => ret hk .next

/-- Storing the results of actions. -/
theorem tierResult {x x' : MachineM Value} (dst : Register) (hx : Meets ρ Vals (x env m) (x' env' m')) :
    Meets ρ Steps ((x >>= tierStep.store dst) env m) ((x' >>= tierStep.store dst) env' m') :=
  bind hx fun _ _ _ _ _ _ hk hv => tierStore hk dst hv

theorem tierBinary (he : env.Tandem env') (ht : m.Twins ρ m') (ho : m.Orderly) (pc : UInt32)
    (op : BinaryOp) (lhs rhs : Register) :
    Meets ρ Vals (tierBinary pc op lhs rhs env m) (tierBinary pc op lhs rhs env' m') := by
  have ha := ht.register lhs
  have hb := ht.register rhs
  have hstub : Meets ρ Vals
      (ScriptMachine.tierStub pc (.binary op) [.ofValue (m.register lhs), .ofValue (m.register rhs)] env m)
      (ScriptMachine.tierStub pc (.binary op) [.ofValue (m'.register lhs), .ofValue (m'.register rhs)]
        env' m') :=
    tierStub he ht ho pc (.plain (.cons (ha.both ht) (.cons (hb.both ht) .nil)) rfl rfl)
  refine look ?_
  rw [ha.same.number?, hb.same.number?]
  cases (m.register lhs).number? with
  | none => exact hstub
  | some x =>
    cases (m.register rhs).number? with
    | none => exact hstub
    | some y =>
      exact ite Iff.rfl (fun _ => ret ht (.word (Runs.cell?_onNumbers _ _ _))) fun _ => hstub

/-- Words of registers, names and numbers. -/
theorem worded_operands (ht : m.Twins ρ m') (args : List TierOperand) :
    List.Forall₂ (fun x y => Heap.Both ρ m.heap m'.heap x.value y.value) (args.map (TierOperand.word m))
      (args.map (TierOperand.word m')) := by
  rw [List.forall₂_map_left_iff, List.forall₂_map_right_iff, List.forall₂_same]
  exact fun a _ => ht.operand a

end Meets

/-- What an operation cites, the frame's code names. -/
theorem Machine.Compiled.cites {code : Lowered} (hc : m.Compiled code) (hfit : m.heap.atoms.Fits)
    {index : Nat} (hnames : ∀ entry : CodeEntry, entry.lower = .ok code → entry.Names index name) :
    ∀ id, m.frame?.map (·.code) = some id → m.heap.atoms.Fits ∧ m.SiteNamed id index name := by
  obtain ⟨f, entry, hf, hcode, hl⟩ := hc
  intro id hid
  rw [hf] at hid
  obtain rfl := Option.some.inj hid
  exact ⟨hfit, entry, hcode, hnames entry hl⟩

/-- Reading a property through a stub call leaves the heap as it is. -/
theorem Runs.tierGetById (hs : m.Safe) (pc : UInt32) (hw : ∀ w ∈ words, m.Holds w.value)
    (hn : ∀ i, Routine.getById.nameAt? = some i → m.heap.atoms.Knows (words.getD i .missing).atom) :
    Runs env m (ScriptMachine.tierStub pc .getById words) fun _ k => k.heap = m.heap :=
  (Runs.tierStub (P := fun h => h = m.heap) hs pc hw hn fun _ _ hs₁ hheap hc =>
    (Runs.readRoutine hs₁ hc rfl).mono fun _ _ h => ⟨h.1, h.2.trans hheap⟩).mono fun _ _ h => h.2

namespace Meets

variable {code : Lowered}

/-- **A method call in tier code**: the method is read, and then it is called on the receiver. -/
theorem tierMethod (he : env.Tandem env') (ht : m.Twins ρ m') (ho : m.Orderly) (pc : UInt32)
    (dst : Register) {receiver receiver' : Value}
    (hreceiver : Heap.Both ρ m.heap m'.heap receiver receiver')
    (hw : Worded ρ m m' .getById words words') (callSite : UInt32) (args : List Register) :
    Meets ρ Steps
      ((do
        let method ← ScriptMachine.tierStub pc .getById words
        let m ← get
        let value ← ScriptMachine.tierStub pc .call
          ([StubWord.ofValue method, .ofValue receiver, .ofIndex callSite]
            ++ args.map fun r => StubWord.ofValue (m.register r))
        tierStep.store dst value) env m)
      ((do
        let method ← ScriptMachine.tierStub pc .getById words'
        let m ← get
        let value ← ScriptMachine.tierStub pc .call
          ([StubWord.ofValue method, .ofValue receiver', .ofIndex callSite]
            ++ args.map fun r => StubWord.ofValue (m.register r))
        tierStep.store dst value) env' m') := by
  have hmethod := (tierStub he ht ho pc hw).also
    (Runs.result (Runs.tierGetById ht.safe pc hw.left hw.named))
    (Runs.result (Runs.tierGetById ht.safe' pc hw.right (hw.named' ht)))
  refine bindOrderly he ho (Keeping.tierStub fun f => .works (Keeping.runRoutine f rfl)) hmethod ?_
  rintro ρ₁ method n method' n' hle hn hon - ⟨hv, hheap, hheap'⟩
  refine look (tierResult dst (tierStub he hn hon pc (.plain (.cons hv (.cons ?_ (.cons
    (.ofIndex callSite) ?_))) rfl rfl)))
  · change Heap.Both ρ₁ n.heap n'.heap receiver receiver'
    rw [hheap, hheap']
    exact hreceiver.mono hle
  · rw [List.append_eq, List.append_eq, List.nil_append, List.nil_append]
    rw [List.forall₂_map_left_iff, List.forall₂_map_right_iff, List.forall₂_same]
    exact fun r _ => (hn.register r).both hn

/-- **An operation of tier code.** -/
theorem tierStep (he : env.Tandem env') (ht : m.Twins ρ m') (ho : m.Orderly) (hc : m.Compiled code)
    (hfit : m.heap.atoms.Fits) (pc : UInt32) {op : TierOp} (hop : op ∈ code.ops) :
    Meets ρ Steps (tierStep pc op env m) (tierStep pc op env' m') := by
  have hentry := hc
  obtain ⟨f, entry, hf, hcode, hl⟩ := hentry
  have hknown : op.Known m.heap.atoms :=
    CodeEntry.known_lower (ht.safe.codes entry (Array.mem_of_getElem? hcode)).atoms hl op hop
  have hcited (entry : CodeEntry) (hl : entry.lower = .ok code) : op.Cited entry :=
    CodeEntry.cited_lower hl op hop
  cases op with
  | loadValue dst value => exact tierStore ht dst (.word hknown)
  | loadConstant dst index =>
    refine look ?_
    rcases Option.rel_iff.mp ht.frame? with ⟨hx, hy⟩ | ⟨f, f', hx, hy, hf⟩
    · rw [hx, hy]
      exact tierStore ht dst (.word (by simp))
    rw [hx, hy]
    dsimp only
    rw [hf.code]
    rcases Option.rel_iff.mp (ht.code? f.code) with ⟨hx, hy⟩ | ⟨e, e', hx, hy, hentry⟩
    · rw [hx, hy]
      exact tierStore ht dst (.word (by simp))
    · rw [hx, hy]
      exact tierStore ht dst (ht.constant hx hy hentry index.toNat)
  | loadThis dst =>
    refine look ?_
    rcases Option.rel_iff.mp ht.frame? with ⟨hx, hy⟩ | ⟨f, f', hx, hy, hf⟩
    · rw [hx, hy]
      exact tierStore ht dst (.word (by simp))
    · rw [hx, hy]
      exact tierStore ht dst (ht.both hf.this (ht.safe.holds_this hx) (ht.safe'.holds_this hy))
  | move dst src => exact look (tierStore ht dst ((ht.register src).both ht))
  | binary op dst lhs rhs => exact tierResult dst (tierBinary he ht ho pc op lhs rhs)
  | unary op dst src =>
    have hb := ht.register src
    obtain ⟨halike, hword⟩ := op.inlineResult?_alike hb.same
    refine look ?_
    rw [halike]
    cases hr : op.inlineResult? (m.register src) with
    | some value => exact tierStore ht dst (.word (hword value hr))
    | none =>
      exact tierResult dst (tierStub he ht ho pc (.plain (.cons (hb.both ht) .nil) rfl rfl))
  | compareAndBranch op dst lhs rhs sense target branchPc =>
    refine bind (tierBinary he ht ho pc op lhs rhs) fun ρ₁ v k w k' _ hk hv => ?_
    refine bind (discarded (tierStore hk dst hv)) fun ρ₂ _ n _ n' _ hn _ => ret hn ?_
    rw [hv.same.isTruthy]
    split
    · exact .jump target
    · exact .next
  | jump target => exact ret ht (.jump target)
  | branch cond sense target =>
    refine look (ret ht ?_)
    rw [ht.toBoolean ((ht.register cond).both ht)]
    split
    · exact .jump target
    · exact .next
  | loop target =>
    exact bind (discarded (tierStub he ht ho pc (.plain .nil rfl rfl)))
      fun _ _ _ _ _ _ hk _ => ret hk (.jump target)
  | stub routine dst args =>
    have hw : Worded ρ m m' routine (args.map (TierOperand.word m)) (args.map (TierOperand.word m')) := by
      refine .of_both (worded_operands ht args) (fun i hi => ?_) fun i j hij => ?_
      · obtain ⟨a, ha, hk⟩ := hknown i hi
        simpa [List.getD_eq_getElem?_getD, ha, TierOperand.word] using hk
      · refine hc.cites hfit fun entry hl => ?_
        obtain ⟨a, cache, ha, hcache, hnames⟩ := hcited entry hl i j hij
        simpa [List.getD_eq_getElem?_getD, ha, hcache, TierOperand.word] using hnames
    refine look (bind (tierStub he ht ho pc hw) fun ρ₁ v k w k' _ hk hv => ?_)
    cases dst with
    | none => exact ret hk .next
    | some dst => exact tierStore hk dst hv
  | callMethod dst base name propertySite callSite args =>
    have hreceiver := (ht.register base).both ht
    have hw : Worded ρ m m' .getById
        [.ofValue (m.register base), .ofAtom name, .ofIndex propertySite]
        [.ofValue (m'.register base), .ofAtom name, .ofIndex propertySite] := by
      refine .of_both (.cons hreceiver (.cons (.ofAtom name) (.cons (.ofIndex propertySite) .nil)))
        (fun i hi => ?_) fun i j hij => ?_
      · obtain rfl := Option.some.inj hi
        simpa [TierOp.Known] using hknown
      · obtain ⟨rfl, rfl⟩ := Prod.mk.inj (Option.some.inj hij)
        refine hc.cites hfit fun entry hl => ?_
        simpa [TierOp.Cited] using hcited entry hl
    exact look (tierMethod he ht ho pc dst hreceiver hw callSite args)
  | catchInto dst => exact tierResult dst (takeException ht)
  | ret src => exact look (ret ht (.ret ((ht.register src).both ht)))

/-! ### Loops -/

/-- Releasing temporaries. -/
theorem truncate (ht : m.Twins ρ m') (mark mark' : Nat) :
    Meets ρ (fun _ _ k _ _ => k.heap.atoms = m.heap.atoms)
      (ScriptMachine.modifyHeap (·.truncateTemporaries mark) env m)
      (ScriptMachine.modifyHeap (·.truncateTemporaries mark') env' m') := by
  refine update (ht.truncate mark mark') ?_
  change (m.heap.truncateTemporaries mark).atoms = m.heap.atoms
  unfold Heap.truncateTemporaries
  split <;> rfl

/-- **The end of an operation.** -/
theorem settleOperation (ht : m.Twins ρ m') (index : Nat) {s s' : TierStep}
    (hs : TierStep.Both ρ m.heap m'.heap s s') :
    Meets ρ (fun ρ r k r' k' => Sum.LiftRel Eq (Heap.Both ρ k.heap k'.heap) r r')
      (settleOperation code index (.ok s) env m) (settleOperation code index (.ok s') env' m') := by
  cases hs with
  | next => exact ret ht (.inl rfl)
  | jump target => exact ret ht (.inl rfl)
  | ret hv => exact ret ht (.inr hv)

/-- An operation unwinds. -/
theorem settleUnwind (ht : m.Twins ρ m') (index : Nat) {u u' : Unwind}
    (hu : Unwind.Both ρ m.heap m'.heap u u') :
    Meets ρ (fun ρ r k r' k' => Sum.LiftRel Eq (Heap.Both ρ k.heap k'.heap) r r')
      (ScriptMachine.settleOperation code index (.error u) env m)
      (ScriptMachine.settleOperation code index (.error u') env' m') := by
  cases hu with
  | fatal failure => exact failed ht failure
  | throw hv =>
    refine bind (enterHandler ht hv) ?_
    rintro ρ₁ _ k handler k' - hk ⟨hv, rfl⟩
    cases handler with
    | none => exact thrown hk hv
    | some pc => exact ret hk (.inl rfl)

/-- **A turn of tier code.** -/
theorem tierTurn (he : env.Tandem env') (ht : m.Twins ρ m') (ho : m.Orderly) (hc : m.Compiled code)
    (mark mark' index : Nat) :
    Meets ρ (fun ρ r k r' k' => Sum.LiftRel Eq (Heap.Both ρ k.heap k'.heap) r r')
      (tierTurn code mark index env m) (tierTurn code mark' index env' m') := by
  unfold ScriptMachine.tierTurn operation
  cases hop : code.ops[index]? with
  | none =>
    simp only [pure_bind]
    exact ret ht (.inr (.word (by simp)))
  | some op =>
    simp only [bind_assoc, pure_bind]
    refine pass he fun hspare _ => ?_
    refine bind ((truncate ht mark mark').alsoLeft (Proceeds.result (Proceeds.truncate ho mark
      (E := fun _ _ => True)))) ?_
    rintro ρ₁ _ k _ k' - hk ⟨hatoms, hok, hstill, -⟩
    refine attempt (tierStep he hk hok (hc.shifts hstill.works) ?_ _ (Array.mem_of_getElem? hop)) ?_ ?_ ?_ ?_
    · rw [hatoms]
      exact hspare.names
    · exact fun _ _ _ _ _ _ hn hs => settleOperation hn index hs
    · exact fun _ _ _ _ _ _ hn hu => settleUnwind hn index hu
    · exact fun bytes k hl => .memory hl
    · exact fun bytes k hl => .memory hl

/-- **A run of tier code.** -/
theorem runOps (he : env.Tandem env') (ht : m.Twins ρ m') (ho : m.Orderly) (hc : m.Compiled code)
    (mark mark' fuel index : Nat) :
    Meets ρ Vals (runOps code mark fuel index env m) (runOps code mark' fuel index env' m') := by
  induction fuel generalizing m m' ρ index with
  | zero => exact .exhausted
  | succ fuel ih =>
    rw [runOps_succ, runOps_succ]
    refine bind ((tierTurn he ht ho hc mark mark' index).alsoLeft
      (Proceeds.result (Proceeds.tierTurn he.orderly ho hc mark index))) ?_
    rintro ρ₁ r k r' k' - hk ⟨hr, hok, ha, -⟩
    cases hr with
    | inl heq =>
      subst heq
      exact ih hk hok (hc.shifts ha) _
    | inr hv => exact ret hk hv

/-- **Tier code runs the top frames** and pops them. -/
theorem runCompiled (he : env.Tandem env') (ht : m.Twins ρ m') (ho : m.Orderly) (hc : m.Compiled code) :
    Meets ρ Vals (runCompiled code env m) (runCompiled code env' m') := by
  refine look (ask ?_)
  rw [← ht.frames.size, he.fuel]
  refine attempt (runOps he ht ho hc _ _ _ 0) ?_ ?_ ?_ ?_
  · intro ρ₁ v k w k' _ hk hv
    refine bind (popFramesTo hk _) ?_
    rintro ρ₂ _ n _ n' hle hn ⟨hheap, hheap'⟩
    have hv : Heap.Both ρ₂ n.heap n'.heap v w := by
      rw [hheap, hheap']
      exact hv.mono hle
    exact bind (finishReturn hn hv) fun _ _ _ _ _ _ hx h => ret hx h.1
  · intro ρ₁ u k u' k' _ hk hu
    refine bind (popFramesTo hk _) ?_
    rintro ρ₂ _ n _ n' hle hn ⟨hheap, hheap'⟩
    refine raised hn ?_
    rw [hheap, hheap']
    exact hu.mono hle
  · exact fun bytes k hl => Escapes.popFramesTo hl _
  · exact fun bytes k hl => Escapes.popFramesTo hl _

end Meets

end ScriptMachine
