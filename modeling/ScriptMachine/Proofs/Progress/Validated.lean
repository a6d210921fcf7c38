import ScriptMachine.Proofs.Progress.Requests
import ScriptMachine.Proofs.Stack.Restored

/-! # Validated code never falls back

The machine has an answer for everything: a frame past its last instruction returns undefined, a name
without an atom is a complaint about the code, and tier code past its last operation is done. No code that
was loaded gets there (`validated_code_never_falls_back`), in the loop (`Interprets`) or in tier code
(`Operates`), whatever the host does. -/

namespace ScriptMachine

open Machine

variable {m m' : Machine} {env : Env} {mark index : Nat} {code : Lowered}

/-! ### Runs of frames -/

/-- **The running frame is at an instruction** of its code, whose operands are found. -/
def Machine.AtInstruction (m : Machine) : Prop :=
  ∃ f entry instruction, m.frame? = some f ∧ m.code? f.code = some entry ∧
    entry.block.instructions[f.pc.toNat]? = some instruction ∧
    ∀ operand ∈ instruction.opcode.operands, operand.Found entry

/-- **The running frame has tier code**, and there is an operation at an index, whose operands are
found. -/
def Machine.AtOperation (m : Machine) (code : Lowered) (index : Nat) : Prop :=
  ∃ f entry op, m.frame? = some f ∧ m.code? f.code = some entry ∧ entry.lower = .ok code ∧
    code.ops[index]? = some op ∧ op.Takes (Operand.Found entry)

/-- **The loop interprets a frame** that has just been pushed: it takes one turn after the other, in this
frame and in those of its callees. -/
inductive Interprets (env : Env) (mark : Nat) (m : Machine) : Machine → Prop
  /-- Before the first instruction. -/
  | start {m' : Machine} : functionEntry env m = .ok none m' → Interprets env mark m m'
  /-- After one more turn. -/
  | turn {m' m'' : Machine} : Interprets env mark m m' →
      turn (m.frames.size - 1) mark env m' = .ok none m'' → Interprets env mark m m''

/-- **Tier code runs a frame** that has just been pushed, and is at an index. -/
inductive Operates (env : Env) (code : Lowered) (mark : Nat) (m : Machine) : Nat → Machine → Prop
  /-- At the first operation. -/
  | start {m' : Machine} : functionEntry env m = .ok (some code) m' → Operates env code mark m 0 m'
  /-- After one more operation. -/
  | turn {index next : Nat} {m' m'' : Machine} : Operates env code mark m index m' →
      tierTurn code mark index env m' = .ok (.inl next) m'' → Operates env code mark m next m''

/-- Between two turns, all frames of the loop are at their instructions. -/
theorem Interprets.poised (he : env.Faithful) (hm : m.Intact) (hentered : m.Entered)
    (h : Interprets env mark m m') : m'.Intact ∧ m.Poised m.spots.dropLast m' := by
  induction h with
  | start hentry =>
    have hgoes := Goes.functionEntry he hm
    rw [hentry] at hgoes
    have hc : m.Calm _ := hgoes.ends.1
    exact ⟨hgoes.intact, hc.poised (Intact.poised_entered hgoes.intact (hentered.calm hc) hc.spots)⟩
  | turn _ hturn ih =>
    obtain ⟨hm', hp⟩ := ih
    obtain ⟨below, top, hstands, -⟩ := id hp
    have hgoes := Goes.turn he hm' hp.here mark
    rw [List.length_dropLast, length_spots, hturn] at hgoes
    exact ⟨hgoes.intact, hstands.poised hgoes.ends⟩

/-- Between two operations, tier code is at an operation. -/
theorem Operates.index_lt (he : env.Faithful) (hm : m.Intact)
    (h : Operates env code mark m index m') :
    m'.Intact ∧ m.Paces m' ∧ m'.Compiled code ∧ index < code.ops.size := by
  induction h with
  | start hentry =>
    have hgoes := Goes.functionEntry he hm
    rw [hentry] at hgoes
    obtain ⟨hc, hcompiled⟩ := hgoes.ends
    obtain ⟨f, entry, hf, hcode, hl⟩ := hcompiled code rfl
    refine ⟨hgoes.intact, hc.paces, hcompiled code rfl, ?_⟩
    exact ((hgoes.intact.code? hcode).encloses hl).1.start
  | turn _ hturn ih =>
    obtain ⟨hm', hpaces, hcompiled, hlt⟩ := ih
    have hgoes := Goes.tierTurn he hm' hcompiled mark hlt
    rw [hturn] at hgoes
    obtain ⟨hpaces', hnext⟩ := hgoes.ends
    exact ⟨hgoes.intact, hpaces.trans hpaces', hpaces'.compiled hcompiled, hnext _ rfl⟩

/-! ### The result -/

/-- **Loaded code does not fall back** on anything in an environment. -/
structure Env.Upholds (env : Env) : Prop where
  /-- What a callee runs is registered. -/
  callees : ∀ (m m' : Machine) (callee : Value) (site : Site) (isConstruct : Bool) (function : Handle)
    (code : CodeId), m.Intact →
    resolveCallee callee site isConstruct env m = .ok (function, .script code) m' →
    code.index < m'.codes.size
  /-- A frame that is pushed for registered code is at its first instruction. -/
  frames : ∀ (m m' : Machine) (function : Handle) (code : CodeId) (this : Value) (args : Array Value)
    (returnRegister : Option Register) (isConstruct entryBoundary : Bool), m.Intact →
    code.index < m.codes.size →
    pushFrame function code this args returnRegister isConstruct entryBoundary env m = .ok () m' →
    m'.Intact ∧ m'.Entered
  /-- In the loop, there is always an instruction to fetch, its operands are found, and it makes no
  complaint about the code. -/
  interpreted : ∀ (m m' : Machine) (mark : Nat), m.Intact → m.Entered → Interprets env mark m m' →
    m'.AtInstruction ∧ ∀ (u : Unwind) (m'' : Machine), m.Candid →
      instruction env m' = .ok (some (.error u)) m'' → u.Innocent
  /-- In tier code, there is always an operation to run, its operands are found, and it makes no
  complaint about the code. -/
  compiled : ∀ (m m' : Machine) (code : Lowered) (mark index : Nat), m.Intact → m.Entered →
    Operates env code mark m index m' →
    m'.AtOperation code index ∧ ∀ (u : Unwind) (m'' : Machine), m.Candid →
      operation code mark index env m' = .ok (some (.error u)) m'' → u.Innocent
  /-- Calls from the host do not fail with a complaint about the code. -/
  calls : ∀ (m m' : Machine) (function this : Value) (args : Array Value) (u : Unwind), m.Intact →
    m.Candid → call function this args env m = .error (.unwound u) m' ∨
      construct function args env m = .error (.unwound u) m' → u.Innocent
  /-- Nor does anything else that a host demands. -/
  demands : ∀ (m m' : Machine) (demand : Demand) (u : Unwind), m.Intact → m.Candid → demand.Valid →
    demand.perform env m = .error (.unwound u) m' → u.Innocent
  /-- Host functions that are running are told of none, unless they misplace a routine. -/
  replies : ∀ (m m' : Machine) (query : HostQuery) (reply : query.Reply), m.Intact → m.Candid →
    answer query env m = .ok reply m' → query.Fair reply

/-- **Validated code never falls back.** In all machines that a host can get at, registered code has an atom
for each of its variables and for each name in its scope layouts, and it can be lowered. Frames of such
machines always find an instruction or an operation with its operands, and no complaint about the code is
ever made. Host functions are any `HostProgram`s that make none of their own. -/
theorem validated_code_never_falls_back :
    (∀ m : Machine, m.Visited → m.Intact) ∧
    (∀ (m : Machine) (entry : CodeEntry), m.Intact → entry ∈ m.codes →
      (∀ i ∈ entry.block.variableIds, i.toNat < entry.atoms.size) ∧
      (∀ layout ∈ entry.block.scopeLayouts, ∀ i ∈ layout, i.toNat < entry.atoms.size) ∧
      ∃ code, entry.lower = .ok code) ∧
    ∀ (pause : Machine → List Value → Bool) (fuel : Nat),
      Env.Upholds { reenter := perform pause fuel, fuel, pause } := by
  refine ⟨fun _ => Visited.intact, fun m entry hm hentry => ?_, fun pause fuel => ?_⟩
  · have hc := hm.codes entry hentry
    obtain ⟨_, -, hconsistent⟩ := hc.consistent
    rw [hc.atoms]
    exact ⟨hconsistent.variableNames, hconsistent.layoutNames, hc.exists_lower⟩
  · have he := faithful_perform pause fuel
    refine ⟨?_, ?_, ?_, ?_, ?_, ?_, ?_⟩
    · intro m m' callee site isConstruct function code hm hr
      have hgoes := Goes.resolveCallee he hm callee site isConstruct
      rw [hr] at hgoes
      exact hgoes.ends.2
    · intro m m' function code this args returnRegister isConstruct entryBoundary hm hcode hr
      have hgoes := Goes.pushFrame he hm function hcode this args returnRegister isConstruct entryBoundary
      rw [hr] at hgoes
      obtain ⟨s, hs, hstands⟩ := hgoes.ends
      exact ⟨hgoes.intact, hstands.entered hs⟩
    · intro m m' mark hm hentered hrun
      obtain ⟨hm', hp⟩ := hrun.poised he hm hentered
      refine ⟨hp.here.fetch hm', fun u m'' hcandid hr => ?_⟩
      have hgoes := Goes.instruction (E := fun _ _ => False) he hm' hp.here
      rw [hr] at hgoes
      obtain ⟨_, hflow, hends⟩ := hgoes.ends
      obtain rfl := Option.some.inj hflow
      obtain ⟨below, top, hstands, -⟩ := hp
      exact hends.2 (hstands.candid hcandid)
    · intro m m' code mark index hm hentered hrun
      obtain ⟨hm', hpaces, hcompiled, hlt⟩ := hrun.index_lt he hm
      obtain ⟨f, entry, hf, hcode, hl⟩ := id hcompiled
      have hop := Array.getElem?_eq_getElem hlt
      refine ⟨⟨f, entry, _, hf, hcode, hl, hop, ?_⟩, fun u m'' hcandid hr => ?_⟩
      · exact ((hm'.code? hcode).encloses hl).2 _ (Array.mem_of_getElem? hop)
      · have hgoes := Goes.operation (E := fun _ _ => False) he hm' hcompiled mark hop
        rw [hr] at hgoes
        obtain ⟨-, _, hflow, hends⟩ := hgoes.ends
        obtain rfl := Option.some.inj hflow
        exact hends (Leaving.candid hpaces hcandid)
    · rintro m m' function this args u hm hcandid (hr | hr)
      · have hgoes := Calmly.call function this args _ m he hm
        rw [hr] at hgoes
        exact hgoes.ends.2 hcandid
      · have hgoes := Calmly.construct function args _ m he hm
        rw [hr] at hgoes
        exact hgoes.ends.2 hcandid
    · intro m m' demand u hm hcandid hvalid hr
      have hgoes := Goes.demand he hm demand
      rw [hr] at hgoes
      exact hgoes.ends hvalid hcandid
    · intro m m' query reply hm hcandid hr
      have hgoes := Goes.answer (E := fun _ _ => False) he hm query
      rw [hr] at hgoes
      exact hgoes.ends.2 hcandid

/-- A program that calls a function, and is about to be entered, with or without a compiler. -/
def relay (tier : Option TierStats) : Machine :=
  { calling (.ret 0) with
    config := { tierUpThreshold := 1 }
    codes := #[
      .fresh { instructions := #[⟨.call 1 0 0 0 0 0, none⟩, ⟨.ret 1, none⟩]
               registerCount := 2, callCacheCount := 1 } #[] #[] [],
      .fresh { instructions := #[⟨.loadNull 0, none⟩, ⟨.ret 0, none⟩], registerCount := 1 } #[] #[] []]
    tier }

theorem intact_relay (tier : Option TierStats) : (relay tier).Intact := by
  have hheap : (relay tier).heap.Regular :=
    (Heap.Built.allocate _ _ (.new {}) fun _ => by decide).regular
  have hanchors : (relay tier).Anchors none := fun _ _ h => by cases h
  refine ⟨hheap.white, fun _ => hheap.listed, fun id c hc => ?_, fun f hf => ?_, fun entry hentry => ?_⟩
  · rcases Heap.cell?_allocate_cases hc with hold | hnew
    · simp [Heap.new, Heap.cell?] at hold
    · rw [hnew]
      exact ⟨Nat.lt_succ_self 1, hanchors⟩
  · obtain rfl := List.mem_singleton.mp (Array.mem_def.mp hf)
    exact ⟨Nat.zero_lt_succ 1, hanchors, (fun _ _ h => by cases h), .zero _ _⟩
  · have hentry := Array.mem_def.mp hentry
    simp only [relay, List.mem_cons, List.not_mem_nil, or_false] at hentry
    rcases hentry with rfl | rfl
    all_goals exact complete_fresh (Block.checkOwn_eq_ok_iff.mp (by decide)) rfl rfl rfl (by simp)

/-- Whether an action ends with something, if it ends. -/
def yields {α : Type} : EStateM.Result Stop Machine (Option α) → Option Bool
  | .ok a _ => some a.isSome
  | .error _ _ => none

theorem eq_of_yields_false {α : Type} {r : EStateM.Result Stop Machine (Option α)}
    (h : yields r = some false) : r = .ok none (leaves r) := by
  cases r with
  | ok a m' =>
    cases a with
    | none => rfl
    | some _ => cases h
  | error _ _ => cases h

theorem eq_of_yields_true {α : Type} {r : EStateM.Result Stop Machine (Option α)}
    (h : yields r = some true) : ∃ a, r = .ok (some a) (leaves r) := by
  cases r with
  | ok a m' =>
    cases a with
    | none => cases h
    | some a => exact ⟨a, rfl⟩
  | error _ _ => cases h

/-- A program calls a function: without a compiler the loop is at the first instruction of the function,
with one the program is at its first operation. -/
theorem validated_code_never_falls_back_relay :
    let env : Env := { reenter := perform (fun _ _ => false) 0, fuel := 0, pause := fun _ _ => false }
    (∃ m m', m.Intact ∧ m.Entered ∧ Interprets env 0 m m' ∧ m'.frames.size = 2 ∧ m'.AtInstruction) ∧
    ∃ m m' code, m.Intact ∧ m.Entered ∧ Operates env code 0 m 0 m' ∧ m'.AtOperation code 0 := by
  intro env
  have hupholds := validated_code_never_falls_back.2.2 (fun _ _ => false) 0
  have hentered (tier : Option TierStats) : (relay tier).Entered := ⟨_, rfl, rfl⟩
  refine ⟨?_, ?_⟩
  · have hstart := eq_of_yields_false (show yields (functionEntry env (relay none)) = some false by
      decide +kernel)
    have hturn := eq_of_yields_false (show yields (turn ((relay none).frames.size - 1) 0 env
      (leaves (functionEntry env (relay none)))) = some false by decide +kernel)
    have hsize : (leaves (turn ((relay none).frames.size - 1) 0 env
      (leaves (functionEntry env (relay none))))).frames.size = 2 := by decide +kernel
    have hrun := Interprets.turn (.start hstart) hturn
    exact ⟨_, _, intact_relay none, hentered none, hrun, hsize,
      (hupholds.interpreted _ _ 0 (intact_relay none) (hentered none) hrun).1⟩
  · obtain ⟨code, hstart⟩ := eq_of_yields_true
      (show yields (functionEntry env (relay (some {}))) = some true by decide +kernel)
    have hrun : Operates env code 0 _ 0 _ := .start hstart
    exact ⟨_, _, code, intact_relay _, hentered _, hrun,
      (hupholds.compiled _ _ code 0 0 (intact_relay _) (hentered _) hrun).1⟩

end ScriptMachine
