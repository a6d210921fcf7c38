import ScriptMachine.Proofs.Progress.Interpreter
import ScriptMachine.Proofs.Stub.Frame
import ScriptMachine.Proofs.Tier.Lowering

/-! # The arguments of routines

Tier code and the stub table agree only by convention on what the words of a call are: an operation lists where its
words come from, and the routine reads them by their positions. They agree for every instruction that is left to
the table (`runRoutine_args`): on the words of its operation, the routine does the work of the instruction on the
operands of the instruction (`delegatedWork`), however many arguments a call has. The interpreter does the same work
(`step_work`). -/

namespace ScriptMachine

/-- The site of a cache in the code of the running frame. -/
def Machine.siteAt (m : Machine) (cache : UInt32) : Site := m.frame?.map fun f => (f.code, cache)

/-- **What an instruction does that tier code leaves to a routine**: the register for its result, if there is one,
and the work that has the result. -/
def delegatedWork (t : CodeTables) (m : Machine) : Opcode → Option (Option Register × MachineM Value)
  | .newObject dst => some (dst, newObject)
  | .newArray dst first count => some (dst, newArray (.ofArray (m.registerRange first count)))
  | .getById dst base name cache =>
    (t.identifier name).map fun a => (dst, getById (m.register base) a (m.siteAt cache))
  | .putById base name value cache =>
    (t.identifier name).map fun a => (none, do
      putById (m.register base) a (m.register value) (m.siteAt cache)
      return m.register value)
  | .getByVal dst base key => some (dst, getByVal (m.register base) (m.register key))
  | .putByVal base key value => some (none, do
    putByVal (m.register base) (m.register key) (m.register value)
    return m.register value)
  | .deleteById dst base name =>
    (t.identifier name).map fun a => (dst, do return .boolean (← deleteById (m.register base) a))
  | .hasProperty dst key base => some (dst, do return .boolean (← hasKey (m.register key) (m.register base)))
  | .instanceOf dst value constructor =>
    some (dst, do return .boolean (← instanceOf (m.register value) (m.register constructor)))
  | .getGlobal dst name cache => (t.identifier name).map fun a => (dst, getGlobalById a (m.siteAt cache))
  | .putGlobal name value cache => (t.identifier name).map fun a => (none, do
    putGlobalById a (m.register value) (m.siteAt cache)
    return m.register value)
  | .pushScope layout => some (none, do
    pushScope layout
    return .undefined)
  | .popScope => some (none, do
    modify (·.popScope)
    return .undefined)
  | .getScopedVar dst depth index => some (dst, do return (← get).scopedVar depth index)
  | .putScopedVar depth index value => some (none, do
    modify (·.setScopedVar depth index (m.register value))
    return m.register value)
  | .resolveName dst name => (t.identifier name).map fun a => (dst, resolveName a)
  | .argumentsObject dst => some (dst, argumentsObject)
  | .newFunction dst function => some (dst, newClosure function)
  | .call dst callee this firstArg argc cache =>
    some (dst, callValue (m.register callee) (m.register this) (m.registerRange firstArg argc) false (m.siteAt cache))
  | .construct dst callee firstArg argc cache =>
    some (dst, callValue (m.register callee) .undefined (m.registerRange firstArg argc) true (m.siteAt cache))
  | .throw src => some (none, raise (m.register src))
  | .debug line => some (none, do
    notifyStatement line
    return .undefined)
  | _ => none

/-- The instruction has its caches among those of a block. -/
theorem Operand.Fits.cache_ne {b : Block} {cache : UInt32} (h : (Operand.propertyCache cache).Fits b ∨
    (Operand.callCache cache).Fits b) : cache ≠ noSite := by
  rintro rfl
  rcases h with h | h <;>
  · have := UInt32.lt_iff_toNat_lt.mp h
    exact absurd this (Nat.not_lt.mpr (Nat.le_of_lt_succ (UInt32.toNat_lt _)))

namespace Machine

variable {m : Machine} {ws : List StubWord} {cache : UInt32} {i : Nat}

theorem arg_stubFrame : (m.stubFrame ws).arg i = ws.getD i .missing :=
  (StubFrame.filled_ofWords _ _ ws).arg i

theorem valuesFrom_stubFrame : (m.stubFrame ws).valuesFrom i = (ws.drop i).map (·.value) :=
  (StubFrame.filled_ofWords _ _ ws).valuesFrom i

/-- A routine reads the site of a cache in the code of the running frame. -/
theorem site_stubFrame (hc : cache ≠ noSite) (hw : ws.getD i .missing = .ofIndex cache) :
    (m.stubFrame ws).site i = m.siteAt cache := by
  unfold StubFrame.site siteAt
  rw [arg_stubFrame, hw, stubFrame, (StubFrame.frame_ofWords _ _ ws).2.1]
  cases m.frame? <;> simp [hc]

/-- A routine reads any number of registers from the words after some fixed ones. -/
theorem valuesFrom_registers (fixed : List TierOperand) (first : Register) (count : UInt32) :
    ((m.stubFrame ((fixed ++ (registerList first count).map TierOperand.register).map (TierOperand.word m))).valuesFrom
      fixed.length).toArray = m.registerRange first count := by
  rw [valuesFrom_stubFrame, List.map_append, List.drop_left' (List.length_map _), List.map_map, List.map_map]
  rfl

end Machine

open Machine

variable {b : Block} {t : CodeTables} {m : Machine} {opcode : Opcode} {routine : Routine} {dst : Option Register}
  {args : List TierOperand}

/-- What is raised is not waited for. -/
theorem raise_bind {α β : Type} (v : Value) (next : α → MachineM β) : raise v >>= next = raise v := by
  simp only [raise, bind_assoc]
  rfl

/-- **The words of an operation are what the routine reads**, position by position: on the words, it does the work
of the instruction. -/
theorem runRoutine_args (h : Block.lowerOpcode t opcode = .ok (.stub routine dst args))
    (hfits : ∀ operand ∈ opcode.operands, operand.Fits b) (m : Machine) :
    ∃ x, delegatedWork t m opcode = some (dst, x) ∧
      runRoutine (m.stubFrame (args.map (TierOperand.word m))) routine = do return .ofValue (← x) := by
  cases opcode with
  | newObject _ | getByVal _ _ _ | putByVal _ _ _ | hasProperty _ _ _ | instanceOf _ _ _ | pushScope _ | popScope
  | getScopedVar _ _ _ | putScopedVar _ _ _ | argumentsObject _ | newFunction _ _ | debug _ =>
    cases h
    exact ⟨_, rfl, by simp [runRoutine, runRoutine.answer, runRoutine.value, arg_stubFrame, TierOperand.word]⟩
  | throw src =>
    cases h
    refine ⟨_, rfl, ?_⟩
    rw [raise_bind]
    simp [runRoutine, runRoutine.value, arg_stubFrame, TierOperand.word]
  | newArray dst first count =>
    cases h
    refine ⟨_, rfl, ?_⟩
    have hargs := valuesFrom_registers (m := m) [] first count
    simp only [List.nil_append, List.length_nil] at hargs
    simp only [runRoutine, runRoutine.answer, hargs]
  | call dst callee this firstArg argc cache =>
    cases h
    have hsite : cache ≠ noSite := Operand.Fits.cache_ne (b := b) (.inr (hfits _ (by simp [Opcode.operands])))
    have hargs := valuesFrom_registers (m := m) [.register callee, .register this, .index cache] firstArg argc
    simp only [List.length_cons, List.length_nil, Nat.zero_add, Nat.reduceAdd] at hargs
    refine ⟨_, rfl, ?_⟩
    simp only [runRoutine, hargs]
    rw [site_stubFrame hsite rfl]
    simp [runRoutine.answer, runRoutine.value, arg_stubFrame, TierOperand.word]
  | construct dst callee firstArg argc cache =>
    cases h
    have hsite : cache ≠ noSite := Operand.Fits.cache_ne (b := b) (.inr (hfits _ (by simp [Opcode.operands])))
    have hargs := valuesFrom_registers (m := m) [.register callee, .index cache] firstArg argc
    simp only [List.length_cons, List.length_nil, Nat.zero_add, Nat.reduceAdd] at hargs
    refine ⟨_, rfl, ?_⟩
    simp only [runRoutine, hargs]
    rw [site_stubFrame hsite rfl]
    simp [runRoutine.answer, runRoutine.value, arg_stubFrame, TierOperand.word]
  | deleteById dst base name | resolveName dst name =>
    obtain ⟨a, ha, heq⟩ := Block.atom_bind_cases h
    cases heq
    refine ⟨_, congrArg (Option.map _) ha, ?_⟩
    simp [runRoutine, runRoutine.answer, runRoutine.value, arg_stubFrame, TierOperand.word]
  | getById _ _ name cache | putById _ name _ cache | getGlobal _ name cache | putGlobal name _ cache =>
    obtain ⟨a, ha, heq⟩ := Block.atom_bind_cases h
    cases heq
    have hsite : cache ≠ noSite := Operand.Fits.cache_ne (b := b) (.inl (hfits _ (by simp [Opcode.operands])))
    refine ⟨_, congrArg (Option.map _) ha, ?_⟩
    simp only [runRoutine]
    rw [site_stubFrame hsite rfl]
    simp [runRoutine.answer, runRoutine.value, arg_stubFrame, TierOperand.word]
  | callMethod _ _ _ _ _ _ _ =>
    obtain ⟨a, -, heq⟩ := Block.atom_bind_cases h
    cases heq
  | loadConst dst index =>
    simp only [Block.lowerOpcode, Except.ok.injEq] at h
    split at h <;> cases h
  | _ => cases h

/-- The instruction calls a function with arguments. -/
def Opcode.isCall : Opcode → Bool
  | .call .. | .callMethod .. | .construct .. => true
  | _ => false

/-- The interpreter's end of an instruction with a result. -/
def stored (dst : Option Register) (value : Value) : MachineM Flow :=
  match dst with
  | some r => step.store r value
  | none => return .next

/-- The interpreter finds the names of the tables. -/
theorem identifierAtom_bind {entry : CodeEntry} {code : CodeId} {index : UInt32} {a : Atom} {α : Type}
    (hcode : m.code? code = some entry) (ha : entry.tables.identifier index = some a) (next : Atom → MachineM α)
    (env : Env) : (identifierAtom code index >>= next) env m = next a env m := by
  have hi : index.toNat < entry.atoms.size := (Array.getElem?_eq_some_iff.mp ha).1
  have hatom : entry.atomAt index = a := by
    rw [CodeEntry.atomAt, Array.getD_eq_getD_getElem?, show entry.atoms[index.toNat]? = some a from ha, Option.getD_some]
  rw [← hatom]
  exact bind_eq_of_ok (identifierAtom_eq hcode hi env)

/-- **The interpreter does the same work** and stores the result, but that it leaves the frame of a callee to its
loop. -/
theorem step_work {entry : CodeEntry} {f : Frame} {x : MachineM Value} (hf : m.frame? = some f)
    (hcode : m.code? f.code = some entry) (hwork : delegatedWork entry.tables m opcode = some (dst, x))
    (hcall : opcode.isCall = false) (env : Env) :
    step f.code opcode env m = (x >>= stored dst) env m := by
  have hsite (cache : UInt32) : m.siteAt cache = some (f.code, cache) := by
    rw [siteAt, hf]
    rfl
  cases opcode with
  | newObject _ | argumentsObject _ | newFunction _ _ | popScope | newArray _ _ _ | getByVal _ _ _
  | getScopedVar _ _ _ | putScopedVar _ _ _ =>
    cases hwork
    rfl
  | putByVal _ _ _ | hasProperty _ _ _ | instanceOf _ _ _ | pushScope _ | debug _ =>
    cases hwork
    rw [bind_assoc]
    rfl
  | throw src =>
    cases hwork
    rw [raise_bind]
    rfl
  | resolveName _ _ =>
    obtain ⟨a, ha, heq⟩ := Option.map_eq_some_iff.mp hwork
    cases heq
    exact identifierAtom_bind hcode ha _ env
  | deleteById _ _ _ =>
    obtain ⟨a, ha, heq⟩ := Option.map_eq_some_iff.mp hwork
    cases heq
    rw [bind_assoc]
    exact identifierAtom_bind hcode ha _ env
  | getById _ _ _ _ | getGlobal _ _ _ =>
    obtain ⟨a, ha, heq⟩ := Option.map_eq_some_iff.mp hwork
    cases heq
    rw [hsite]
    exact identifierAtom_bind hcode ha _ env
  | putById _ _ _ _ | putGlobal _ _ _ =>
    obtain ⟨a, ha, heq⟩ := Option.map_eq_some_iff.mp hwork
    cases heq
    rw [hsite, bind_assoc]
    exact identifierAtom_bind hcode ha _ env
  | call _ _ _ _ _ _ | construct _ _ _ _ _ => cases hcall
  | _ => cases hwork

end ScriptMachine
