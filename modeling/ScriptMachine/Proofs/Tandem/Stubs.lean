import ScriptMachine.Proofs.Failure.Following
import ScriptMachine.Proofs.Safety.Compiled
import ScriptMachine.Proofs.Stack.Compiled
import ScriptMachine.Proofs.Tandem.Call
import ScriptMachine.Proofs.Tier.Flow

/-! # Stub calls of two runs

A stub call hands words to its routine, and twin machines hand words that match: the names and indices
among them are the same (`StubFrame.Twins`). The names of the sites that tier code uses are those of the
block it was lowered from (`CodeEntry.cited_lower`), so its routines read and write alike
(`Meets.runRoutine`, `Meets.tierStub`). -/

namespace ScriptMachine

open Machine

variable {α β : Type} {ρ ρ' : Pairing} {m m' k k' : Machine} {v w : Value} {env env' : Env}
  {routine : Routine} {words words' : List StubWord} {f f' : StubFrame} {name : Atom}

/-! ### Names of sites in tier code -/

/-- The arguments of a routine that are the name and the site of a property. -/
def Routine.citation? : Routine → Option (Nat × Nat)
  | .getById => some (1, 2)
  | .putById => some (1, 3)
  | .getGlobal => some (0, 1)
  | .putGlobal => some (0, 2)
  | _ => none

/-- The code looks up through the site of an operation what the operation names. -/
def TierOp.Cited (entry : CodeEntry) : TierOp → Prop
  | .stub routine _ args => ∀ i j, routine.citation? = some (i, j) → ∃ name cache : _,
      args[i]? = some (.atom name) ∧ args[j]? = some (.index cache) ∧ entry.Names cache.toNat name
  | .callMethod _ _ name propertySite _ _ => entry.Names propertySite.toNat name
  | _ => True

theorem Block.cited_lowerOpcode {entry : CodeEntry} {instruction : Instruction}
    (hmem : instruction ∈ entry.block.instructions) {op : TierOp}
    (h : lowerOpcode entry.tables instruction.opcode = .ok op) : op.Cited entry := by
  have names {site identifier : UInt32} {a : Atom}
      (hs : instruction.opcode.propertySite? = some (site, identifier))
      (ha : entry.tables.identifier identifier = some a) : entry.Names site.toNat a :=
    ⟨instruction, hmem, site, identifier, hs, rfl, ha⟩
  cases hop : instruction.opcode with
  | loadConst dst index =>
    rw [hop] at h
    obtain rfl := Except.ok.inj h
    split <;> trivial
  | getById dst base name cache | putById base name value cache | getGlobal dst name cache
  | putGlobal name value cache =>
    rw [hop] at h
    obtain ⟨a, ha, rfl⟩ := atom_bind_cases h
    intro i j hij
    cases hij
    exact ⟨a, cache, rfl, rfl, names (by rw [hop]; rfl) ha⟩
  | callMethod dst base name firstArg argc propertyCache cache =>
    rw [hop] at h
    obtain ⟨a, ha, rfl⟩ := atom_bind_cases h
    exact names (by rw [hop]; rfl) ha
  | deleteById _ _ _ | resolveName _ _ =>
    rw [hop] at h
    obtain ⟨a, -, rfl⟩ := atom_bind_cases h
    intro i j hij
    cases hij
  | _ =>
    rw [hop] at h
    obtain rfl := Except.ok.inj h
    first
    | trivial
    | intro i j hij
      cases hij

/-- **Tier code looks up through each site what the block does.** -/
theorem CodeEntry.cited_lower {entry : CodeEntry} {lowered : Lowered} (h : entry.lower = .ok lowered) :
    ∀ op ∈ lowered.ops, op.Cited entry := by
  obtain ⟨raw, hraw, rfl⟩ := Block.lower_cases h
  intro op hmem
  obtain ⟨op, hop, rfl⟩ := Array.mem_map.mp hmem
  obtain ⟨pc, instruction, width, hi, ha⟩ := (Block.lowerFrom_mem hraw hop).resolve_left (by simp)
  have hcited : op.Cited entry := by
    cases Block.lowers_of_lowerAt ha with
    | single hopcode => exact Block.cited_lowerOpcode (Array.mem_of_getElem? hi) hopcode
    | fused _ _ => trivial
  cases op <;> exact hcited

/-! ### Words -/

theorem Pairing.Matches.int32? (h : ρ.Matches v w) : w.int32? = v.int32? := by
  unfold Value.int32?
  rw [h.number?]

/-- **Words that match.** -/
def StubWord.Matches (ρ : Pairing) (x y : StubWord) : Prop := ρ.Matches x.value y.value

namespace StubWord.Matches

variable {x y : StubWord}

theorem same (hx : x.value.cell? = none) : StubWord.Matches ρ x x := .word hx

theorem index (h : StubWord.Matches ρ x y) : y.index = x.index := by
  unfold StubWord.index StubWord.int32
  rw [Pairing.Matches.int32? h]

theorem atom (h : StubWord.Matches ρ x y) : y.atom = x.atom := by
  unfold StubWord.atom
  rw [h.index]

end StubWord.Matches

/-- **Stub frames of two runs.** -/
structure StubFrame.Twins (ρ : Pairing) (f f' : StubFrame) : Prop where
  arg : ∀ i, StubWord.Matches ρ (f.arg i) (f'.arg i)
  values : ∀ start, List.Forall₂ ρ.Matches (f.valuesFrom start) (f'.valuesFrom start)
  code : f'.code = f.code

theorem StubFrame.Twins.site (h : f.Twins ρ f') (i : Nat) : f'.site i = f.site i := by
  unfold StubFrame.site
  rw [h.code, (h.arg i).index]

namespace Machine

theorem Twins.stubFrame (ht : m.Twins ρ m') (hw : List.Forall₂ (StubWord.Matches ρ) words words') :
    (m.stubFrame words).Twins ρ (m'.stubFrame words') := by
  have hcode : m'.frame?.map (·.code) = m.frame?.map (·.code) := by
    rcases Option.rel_iff.mp ht.frame? with ⟨hx, hy⟩ | ⟨f, f', hx, hy, hf⟩
    · rw [hx, hy]
    · rw [hx, hy, Option.map_some, Option.map_some, hf.code]
  have hl := StubFrame.filled_ofWords m.globalObject (m.frame?.map (·.code)) words
  have hr := StubFrame.filled_ofWords m'.globalObject (m'.frame?.map (·.code)) words'
  refine ⟨fun i => ?_, fun start => ?_, ?_⟩
  · unfold Machine.stubFrame
    rw [hl.arg, hr.arg, List.getD_eq_getElem?_getD, List.getD_eq_getElem?_getD]
    rcases Option.rel_iff.mp (Aligned.ofList hw i) with ⟨hx, hy⟩ | ⟨x, y, hx, hy, hxy⟩
    · rw [List.getElem?_toArray] at hx hy
      rw [hx, hy]
      exact .same (by decide)
    · rw [List.getElem?_toArray] at hx hy
      rw [hx, hy]
      exact hxy
  · unfold Machine.stubFrame
    rw [hl.valuesFrom, hr.valuesFrom, List.forall₂_map_left_iff, List.forall₂_map_right_iff]
    exact List.forall₂_drop start hw
  · unfold Machine.stubFrame
    rw [(StubFrame.frame_ofWords _ _ _).2.1, (StubFrame.frame_ofWords _ _ _).2.1, hcode]

/-- Other stub frames. -/
theorem Twins.restub (ht : m.Twins ρ m') {stubFrames stubFrames' : Array StubFrame}
    (hs : Safe { m with stubFrames }) (hs' : Safe { m' with stubFrames := stubFrames' }) :
    Twins ρ { m with stubFrames } { m' with stubFrames := stubFrames' } :=
  ht.sheds (.beside (.refl _) rfl) (.beside (.refl _) rfl) hs hs'
    (Remembers.evolves ht.recalled rfl (.refl _) fun _ _ _ h => h)
    (Remembers.evolves ht.recalled' rfl (.refl _) fun _ _ _ h => h)

end Machine

/-! ### Routines -/

/-- The answers are the same on both channels. -/
def Answers (ρ : Pairing) (r : StubReturn) (m : Machine) (r' : StubReturn) (m' : Machine) : Prop :=
  Vals ρ r.value m r'.value m' ∧ r'.secondary = r.secondary

theorem Answers.ofValue (h : Vals ρ v m w m') : Answers ρ (.ofValue v) m (.ofValue w) m' := ⟨h, rfl⟩

/-- What the routine looks up through a site is what the code names there. -/
def Machine.CitesAll (m : Machine) (f : StubFrame) (routine : Routine) : Prop :=
  ∀ i j, routine.citation? = some (i, j) → m.Cites (f.site j) (f.arg i).atom

/-- **What two stub calls hand to a routine.** -/
structure Handed (ρ : Pairing) (m m' : Machine) (f f' : StubFrame) (routine : Routine) : Prop where
  twins : f.Twins ρ f'
  left : Called m f routine
  right : Called m' f' routine

namespace Handed

variable (hh : Handed ρ m m' f f' routine) (ht : m.Twins ρ m')
include hh ht

theorem guarded (i : Nat) : Guarded ρ m m' (f.arg i).value (f'.arg i).value :=
  ⟨hh.twins.arg i, Runs.word_guarded hh.left ht.safe (.refl m) i,
    Runs.word_guarded hh.right ht.safe' (.refl m') i⟩

theorem guards (start : Nat) : ∀ v ∈ f.valuesFrom start, m.Guards v := fun v hv =>
  ht.safe.guards (hh.left.values start v hv)

theorem guards' (start : Nat) : ∀ v ∈ f'.valuesFrom start, m'.Guards v := fun v hv =>
  ht.safe'.guards (hh.right.values start v hv)

/-- Values among the words as operands of a call. -/
theorem calling {callee callee' this this' : Value} (hc : Guarded ρ m m' callee callee')
    (hthis : Guarded ρ m m' this this') (start : Nat) (isConstruct : Bool) :
    Calling ρ m m' callee callee' this this' (f.valuesFrom start).toArray
      (f'.valuesFrom start).toArray isConstruct := by
  have operands {m : Machine} {callee this : Value} {values : List Value} (hc : m.Guards callee)
      (ht : m.Guards this) (hvs : ∀ v ∈ values, m.Guards v) :
      Runs.Operands m callee this values.toArray isConstruct := by
    have hops : ∀ v ∈ callee :: this :: values.toArray.toList, m.Guards v := by
      intro v hv
      rcases List.mem_cons.mp hv with rfl | hv
      · exact hc
      · rcases List.mem_cons.mp hv with rfl | hv
        · exact ht
        · exact hvs v hv
    exact ⟨fun v hv => (hops v hv).holds, fun _ => hops⟩
  exact ⟨hc.same, hthis.same, .ofList (hh.twins.values start),
    operands hc.left hthis.left (hh.guards ht start), operands hc.right hthis.right (hh.guards' ht start)⟩

end Handed

namespace Meets

theorem arityCheck (he : env.Tandem env') (ht : m.Twins ρ m') (hb : Heap.Both ρ m.heap m'.heap v w)
    (argc : UInt32) : Meets ρ Answers (arityCheck v argc env m) (arityCheck w argc env' m') := by
  refine look ?_
  rcases Option.rel_iff.mp (ht.functionData? hb) with ⟨hx, hy⟩ | ⟨d, d', hx, hy, hd, -⟩
  · rw [hx, hy]
    exact raiseError he ht _ (by rw [ht.display hb])
  · rw [hx, hy]
    have harity : d'.arity = d.arity := (congrArg FunctionData.arity hd :)
    dsimp only
    rw [harity]
    exact ret ht ⟨hb, rfl⟩

theorem registerFileCheck (he : env.Tandem env') (ht : m.Twins ρ m') (count : UInt32) :
    Meets ρ (fun _ _ _ _ _ => True) (registerFileCheck count env m) (registerFileCheck count env' m') := by
  refine look ?_
  rcases Option.rel_iff.mp ht.frame? with ⟨hx, hy⟩ | ⟨g, g', hx, hy, hg⟩
  · rw [hx, hy]
    exact ite (by rw [ht.capacity]) (fun _ => raiseError he ht _ rfl) fun _ => ret ht trivial
  · rw [hx, hy]
    exact ite (by dsimp only; rw [hg.base, ht.capacity]) (fun _ => raiseError he ht _ rfl)
      fun _ => ret ht trivial

/-- The result of an action is answered. -/
theorem answered {x x' : MachineM Value} (hx : Meets ρ Vals (x env m) (x' env' m')) :
    Meets ρ Answers ((x >>= runRoutine.answer) env m) ((x' >>= runRoutine.answer) env' m') :=
  bind hx fun _ _ _ _ _ _ hk hv => ret hk (.ofValue hv)

/-- The result of a test is answered. -/
theorem answeredTest {x x' : MachineM Bool} (hx : Meets ρ Same (x env m) (x' env' m')) :
    Meets ρ Answers ((x >>= fun b => runRoutine.answer (.boolean b)) env m)
      ((x' >>= fun b => runRoutine.answer (.boolean b)) env' m') := by
  refine bind hx fun ρ₁ a k b k' _ hk hab => ?_
  obtain rfl := hab
  exact ret hk (.ofValue (.word (Value.cell?_boolean b)))

/-- Nothing is answered. -/
theorem answeredDone {Q : Pairing → PUnit → Machine → PUnit → Machine → Prop} {x x' : MachineM PUnit}
    (hx : Meets ρ Q (x env m) (x' env' m')) :
    Meets ρ Answers ((x >>= fun _ => runRoutine.answer .undefined) env m)
      ((x' >>= fun _ => runRoutine.answer .undefined) env' m') :=
  bind hx fun _ _ _ _ _ _ hk _ => ret hk (.ofValue (.word (by simp)))

/-- What was stored is answered. -/
theorem answeredStore (hh : Handed ρ m m' f f' routine) {x x' : MachineM PUnit} (i : Nat)
    (hx : Meets ρ (fun _ _ _ _ _ => True) (x env m) (x' env' m'))
    (hs : Runs env m x fun _ k => m.Steady k) (hs' : Runs env' m' x' fun _ k => m'.Steady k) :
    Meets ρ Answers ((x >>= fun _ => runRoutine.answer (f.arg i).value) env m)
      ((x' >>= fun _ => runRoutine.answer (f'.arg i).value) env' m') := by
  refine bind (hx.also (Runs.result hs) (Runs.result hs')) fun ρ₁ _ k _ k' hle hk h => ret hk ⟨?_, rfl⟩
  exact hk.both ((hh.twins.arg i).mono hle) (Runs.word_guarded hh.left hk.safe h.2.1 i).holds
    (Runs.word_guarded hh.right hk.safe' h.2.2 i).holds

/-- **A routine of the stub table.** -/
theorem runRoutine (he : env.Tandem env') (ht : m.Twins ρ m') (ho : m.Orderly)
    (hh : Handed ρ m m' f f' routine) (hcite : m.CitesAll f routine) :
    Meets ρ Answers (runRoutine f routine env m) (runRoutine f' routine env' m') := by
  have hguarded := hh.guarded ht
  have hb (i : Nat) := (hguarded i).both ht
  have hatom (i : Nat) := (hh.twins.arg i).atom
  have hindex (i : Nat) := (hh.twins.arg i).index
  have hsite := hh.twins.site
  unfold ScriptMachine.runRoutine
  cases routine with
  | binary op => exact answered (applyBinary he ht op (hb 0) (hb 1))
  | unary op => exact answered (applyUnary he ht op (hb 0))
  | getById =>
    dsimp only
    rw [hatom, hsite]
    exact answered (getById he ht (hh.left.named 1 rfl) (hcite 1 2 rfl) (hb 0))
  | putById =>
    dsimp only
    have hnamed := hh.right.named 1 rfl
    rw [hatom] at hnamed ⊢
    rw [hsite]
    exact answeredStore hh 2 (putById he ht (hh.left.named 1 rfl) (hcite 1 3 rfl) (hguarded 0) (hguarded 2))
      (Runs.putById ht.safe (hh.left.named 1 rfl) (hguarded 0).left (hguarded 2).left)
      (Runs.putById ht.safe' hnamed (hguarded 0).right (hguarded 2).right)
  | getByVal => exact answered (getByVal he ht (hb 0) (hb 1))
  | putByVal =>
    exact answeredStore hh 2 (putByVal he ht (hguarded 0) (hb 1) (hguarded 2))
      (Runs.putByVal ht.safe (hguarded 0).left (hguarded 2).left)
      (Runs.putByVal ht.safe' (hguarded 0).right (hguarded 2).right)
  | deleteById =>
    dsimp only
    rw [hatom]
    exact answeredTest (deleteById he ht (hb 0))
  | hasProperty => exact answeredTest (hasKey he ht (hb 0) (hb 1))
  | instanceOf => exact answeredTest (instanceOf he ht (hb 0) (hb 1))
  | getGlobal =>
    dsimp only
    rw [hatom, hsite]
    exact answered (getGlobalById he ht (hh.left.named 0 rfl) (hcite 0 1 rfl))
  | putGlobal =>
    dsimp only
    have hnamed := hh.right.named 0 rfl
    rw [hatom] at hnamed ⊢
    rw [hsite]
    exact answeredStore hh 1 (putGlobalById he ht (hh.left.named 0 rfl) (hcite 0 2 rfl) (hguarded 1))
      (Runs.putGlobalById ht.safe (hh.left.named 0 rfl) (hguarded 1).left)
      (Runs.putGlobalById ht.safe' hnamed (hguarded 1).right)
  | newObject => exact answered (made_vals (newObject he ht))
  | newArray =>
    have hitems : Aligned ρ.Matches (f.valuesFrom 0).toArray (f'.valuesFrom 0).toArray :=
      .ofList (hh.twins.values 0)
    have hguards := hh.guards ht 0
    have hguards' := hh.guards' ht 0
    exact answered (made_vals (newArray he ht hitems (by simpa [Elements.ofArray] using hguards)
      (by simpa [Elements.ofArray] using hguards')))
  | newFunction =>
    dsimp only
    rw [hindex]
    exact answered (newClosure he ht _)
  | call =>
    dsimp only
    rw [hsite]
    exact answered (callValue he ht ho _ (hh.calling ht (hguarded 0) (hguarded 1) 3 false))
  | construct =>
    dsimp only
    rw [hsite]
    exact answered (callValue he ht ho _ (hh.calling ht (hguarded 0) (.word (by simp)) 2 true))
  | callArityCheck =>
    dsimp only
    rw [hindex]
    exact arityCheck he ht (hb 0) _
  | tearOffActivation =>
    refine bind (tearOffActivation he ht) ?_
    intro ρ₁ a k b k' _ hk hv
    exact ret hk (.ofValue hv)
  | pushScope =>
    dsimp only
    rw [hindex]
    exact answeredDone (pushScope he ht _)
  | popScope => exact answeredDone (update (Q := fun _ _ _ _ _ => True) ht.popScope trivial)
  | getScopedVar =>
    dsimp only
    rw [hindex, hindex]
    exact look (ret ht (.ofValue (ht.scopedVar _ _)))
  | putScopedVar =>
    dsimp only
    rw [hindex, hindex]
    obtain ⟨hsafe, hgrows, hsteady⟩ :=
      ht.safe.setScopedVar (f.arg 0).index (f.arg 1).index (hguarded 2).left.holds
    obtain ⟨hsafe', hgrows', hsteady'⟩ :=
      ht.safe'.setScopedVar (f.arg 0).index (f.arg 1).index (hguarded 2).right.holds
    exact answeredStore hh 2 (update (ht.setScopedVar _ _ (hb 2)) trivial) (.update hsafe hgrows hsteady)
      (.update hsafe' hgrows' hsteady')
  | resolve =>
    dsimp only
    rw [hatom]
    exact answered (resolveName he ht _)
  | argumentsObject => exact answered (argumentsObject he ht)
  | throw => exact raise ht (hb 0)
  | timeoutCheck =>
    dsimp only
    rw [bind_eq_of_ok (checkInterrupt_quiet ht.calm), bind_eq_of_ok (checkInterrupt_quiet ht.calm')]
    exact ret ht (.ofValue (.word (by simp)))
  | registerFileCheck =>
    dsimp only
    rw [hindex]
    exact answeredDone (registerFileCheck he ht _)
  | debugStatement =>
    dsimp only
    unfold notifyStatement
    rw [hindex, bind_eq_of_ok (notifyAt_quiet ht.safe.listeners _ _ _),
      bind_eq_of_ok (notifyAt_quiet ht.safe'.listeners _ _ _)]
    exact ret ht (.ofValue (.word (by simp)))

end Meets

/-! ### Stub calls -/

/-- **The words of two stub calls.** -/
structure Worded (ρ : Pairing) (m m' : Machine) (routine : Routine) (words words' : List StubWord) :
    Prop where
  same : List.Forall₂ (StubWord.Matches ρ) words words'
  left : ∀ w ∈ words, m.Holds w.value
  right : ∀ w ∈ words', m'.Holds w.value
  named : ∀ i, routine.nameAt? = some i → m.heap.atoms.Knows (words.getD i .missing).atom
  cited : ∀ i j, routine.citation? = some (i, j) → ∀ code, m.frame?.map (·.code) = some code →
    m.heap.atoms.Fits ∧ m.SiteNamed code (words.getD j .missing).index.toNat (words.getD i .missing).atom

namespace Worded

variable (hw : Worded ρ m m' routine words words')
include hw

theorem named' (ht : m.Twins ρ m') :
    ∀ i, routine.nameAt? = some i → m'.heap.atoms.Knows (words'.getD i .missing).atom := by
  intro i hi
  have hsame : (words'.getD i .missing).atom = (words.getD i .missing).atom := by
    have hx := (StubFrame.filled_ofWords m.globalObject (m.frame?.map (·.code)) words).arg i
    have hy := (StubFrame.filled_ofWords m'.globalObject (m'.frame?.map (·.code)) words').arg i
    rw [← hx, ← hy]
    exact ((ht.stubFrame hw.same).arg i).atom
  rw [hsame, ht.heap.atoms]
  exact hw.named i hi

/-- Another position and other counts do not matter. -/
theorem congr (hheap : k.heap = m.heap) (hheap' : k'.heap = m'.heap) (hcodes : k.codes = m.codes)
    (hframe : k.frame?.map (·.code) = m.frame?.map (·.code)) : Worded ρ k k' routine words words' := by
  refine ⟨hw.same, fun w h => (hw.left w h).congr hheap, fun w h => (hw.right w h).congr hheap', ?_, ?_⟩
  · rw [hheap]
    exact hw.named
  · intro i j hij code hcode
    rw [hframe] at hcode
    obtain ⟨hfit, hn⟩ := hw.cited i j hij code hcode
    exact ⟨by rw [hheap]; exact hfit, hn.of_codes hcodes⟩

/-- The routine is handed the words. -/
theorem handed (ht : m.Twins ρ m') :
    let n := { m with stubFrames := m.stubFrames.push (m.stubFrame words) }
    let n' := { m' with stubFrames := m'.stubFrames.push (m'.stubFrame words') }
    n.Twins ρ n' ∧ Handed ρ n n' (m.stubFrame words) (m'.stubFrame words') routine ∧
      n.CitesAll (m.stubFrame words) routine := by
  refine ⟨ht.restub (ht.safe.pushStub hw.left) (ht.safe'.pushStub hw.right),
    ⟨ht.stubFrame hw.same, called m hw.named, called m' (hw.named' ht)⟩, fun i j hij code index hsite => ?_⟩
  have hfilled := StubFrame.filled_ofWords m.globalObject (m.frame?.map (·.code)) words
  have hcode := (StubFrame.frame_ofWords m.globalObject (m.frame?.map (·.code)) words).2.1
  unfold Machine.stubFrame at hsite ⊢
  unfold StubFrame.site at hsite
  rw [hfilled.arg, hcode] at hsite
  rw [hfilled.arg]
  cases hf : m.frame?.map (·.code) with
  | none =>
    rw [hf] at hsite
    cases hsite
  | some found =>
    rw [hf] at hsite
    dsimp only at hsite
    split at hsite
    · cases hsite
    · obtain ⟨rfl, rfl⟩ := Prod.mk.inj (Option.some.inj hsite)
      obtain ⟨hfit, hn⟩ := hw.cited i j hij found hf
      exact ⟨hfit, hn.of_codes rfl⟩

end Worded

namespace Meets

/-- The stub frames of two calls are given back. -/
theorem popStub (ht : m.Twins ρ m') :
    Twins ρ { m with stubFrames := m.stubFrames.pop } { m' with stubFrames := m'.stubFrames.pop } :=
  ht.restub ht.safe.popStub ht.safe'.popStub

/-- **A stub call of tier code.** -/
theorem tierStub (he : env.Tandem env') (ht : m.Twins ρ m') (ho : m.Orderly) (pc : UInt32)
    (hw : Worded ρ m m' routine words words') :
    Meets ρ Vals (tierStub pc routine words env m) (tierStub pc routine words' env' m') := by
  have ht₁ : (m.setPc (pc + 1)).countStubCall.Twins ρ (m'.setPc (pc + 1)).countStubCall :=
    (ht.setPc (pc + 1)).withTier (by simp [Machine.setPc, Machine.modifyFrame, ht.tier])
  have hframe : (m.setPc (pc + 1)).frame?.map (·.code) = m.frame?.map (·.code) := by
    cases hf : m.frame? with
    | none => rw [show m.setPc (pc + 1) = m from modifyFrame_of_none hf, hf]
    | some f => rw [show (m.setPc (pc + 1)).frame? = _ from frame?_modifyFrame hf]; rfl
  have hw₁ : Worded ρ (m.setPc (pc + 1)).countStubCall (m'.setPc (pc + 1)).countStubCall routine words
      words' := hw.congr rfl rfl rfl hframe
  have ho₁ : (m.setPc (pc + 1)).countStubCall.Orderly :=
    ((ho.setPc (pc + 1)).1.beside (n := (m.setPc (pc + 1)).countStubCall)
      rfl rfl rfl rfl rfl rfl rfl rfl).1
  unfold ScriptMachine.tierStub
  simp only [callStub_bind]
  refine bind (Q := fun ρ₁ _ k _ k' => ρ₁ = ρ ∧ k = (m.setPc (pc + 1)).countStubCall ∧
    k' = (m'.setPc (pc + 1)).countStubCall) (update ht₁ ⟨rfl, rfl, rfl⟩) ?_
  rintro ρ _ m _ m' - - ⟨rfl, hm, hm'⟩
  rw [← hm, ← hm'] at ht₁ hw₁
  rw [← hm] at ho₁
  clear hm hm' ht ho hw
  obtain ⟨ht₂, hh, hcite⟩ := hw₁.handed ht₁
  have ho₂ := (ho₁.beside (n := { m with stubFrames := m.stubFrames.push (m.stubFrame words) })
    rfl rfl rfl rfl rfl rfl rfl rfl).1
  have unparked {m : Machine} (hc : m.Uninterrupted) : { m with stubUnwind := none } = m := by
    rw [← hc.parked]
  refine look (bind (Q := fun ρ₁ _ k _ k' => ρ₁ = ρ ∧
    k = { m with stubFrames := m.stubFrames.push (m.stubFrame words) } ∧
    k' = { m' with stubFrames := m'.stubFrames.push (m'.stubFrame words') })
    (update ht₂ ⟨rfl, rfl, rfl⟩) ?_)
  rintro ρ _ _ _ _ - - ⟨rfl, rfl, rfl⟩
  refine attempt (runRoutine he ht₂ ho₂ hh hcite) ?_ ?_ ?_ ?_
  · rintro ρ₂ r k r' k' - hk ⟨hr, hsecondary⟩
    refine bind (Q := fun ρ _ k _ k' => Vals ρ r.value k r'.value k') (update (popStub hk) hr)
      fun ρ₃ _ n _ n' _ hn hr => ?_
    refine ite ?_ (fun _ => ?_) fun _ => ret hn hr
    · unfold StubReturn.isException
      rw [hsecondary]
    · have htake {env : Env} {m : Machine} (hc : m.Uninterrupted) : takeStubUnwind env m = .ok
          (.fatal (.invalidBytecode "exception sentinel without a pending exception")) m := by
        have hstep : takeStubUnwind env m = .ok (m.stubUnwind.getD
          (.fatal (.invalidBytecode "exception sentinel without a pending exception")))
          { m with stubUnwind := none } := rfl
        rw [hstep, unparked hc, hc.parked]
        rfl
      rw [bind_eq_of_ok (htake hn.calm), bind_eq_of_ok (htake hn.calm')]
      exact failed hn _
  · intro ρ₂ u k u' k' _ hk hu
    refine bind (Q := fun ρ _ k _ k' => Unwind.Both ρ k.heap k'.heap u u') (update (popStub hk) hu)
      fun ρ₃ _ n _ n' _ hn hu => ?_
    refine bind (Q := fun ρ _ k _ k' => Unwind.Both ρ k.heap k'.heap u u') (update ?_ hu)
      fun ρ₄ _ n _ n' _ hn hu => raised hn hu
    rw [unparked hn.calm, unparked hn.calm']
    exact hn
  · exact fun bytes k hl => .memory hl
  · exact fun bytes k hl => .memory hl

end Meets

end ScriptMachine
