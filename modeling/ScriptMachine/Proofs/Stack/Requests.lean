import ScriptMachine.Machine.Bootstrap
import ScriptMachine.Proofs.Machine.Anchored
import ScriptMachine.Proofs.Stack.Programs

/-! # Reachable machines are orderly

A host sets up a machine and makes requests of it (`Request`): it loads and runs programs, calls
functions, accesses properties, allocates, and registers functions and listeners of its own. Whatever
it does, and wherever the machine is stopped while it does it, the machine is orderly
(`Machine.Reached.orderly`). Requests leave the frames and registers as they are (`Machine.Rests`); they
may add code and hosts. -/

namespace ScriptMachine

open Machine

variable {m m' m'' : Machine}

namespace Machine

/-- The frames and the registers are as before. -/
structure Rests (m m' : Machine) : Prop where
  frames : m'.frames = m.frames
  registers : m'.registers = m.registers

theorem Still.rests (hs : m.Still m') : m.Rests m' := ⟨hs.frames, hs.registers⟩

instance : IsPreorder Machine Rests where
  refl _ := ⟨rfl, rfl⟩
  trans _ _ _ h₁ h₂ := ⟨h₂.frames.trans h₁.frames, h₂.registers.trans h₁.registers⟩

/-! ### Additions -/

/-- New code, which is not compiled yet. -/
theorem Orderly.pushCode (hm : m.Orderly) {entry : CodeEntry} (he : entry.compiled = none) :
    Orderly { m with codes := m.codes.push entry } := by
  refine ⟨⟨hm.stacked.tile, hm.stacked.size, hm.stacked.depth, hm.stacked.room, hm.stacked.nesting⟩,
    ⟨fun e hmem l hl => ?_, fun f hf hd => ?_⟩,
    ⟨hm.chained.white, hm.chained.listed, hm.chained.scopes⟩,
    ⟨hm.hosted.hosts, hm.hosted.listeners⟩⟩
  · rcases Array.mem_push.mp hmem with hmem | rfl
    · exact hm.settled.lowered e hmem l hl
    · rw [he] at hl
      cases hl
  · obtain ⟨e, hcode, hmoved⟩ := hm.settled.moved f hf hd
    refine ⟨e, ?_, hmoved⟩
    unfold code? at hcode ⊢
    have hlt := (Array.getElem?_eq_some_iff.mp hcode).1
    rw [Array.getElem?_push, if_neg (Nat.ne_of_lt hlt), hcode]

/-- A new host function. -/
theorem Orderly.pushHost (hm : m.Orderly) {entry : HostEntry} (he : ∀ call, (entry.run call).Plain) :
    Orderly { m with hosts := m.hosts.push entry } := by
  refine ⟨⟨hm.stacked.tile, hm.stacked.size, hm.stacked.depth, hm.stacked.room, hm.stacked.nesting⟩,
    ⟨hm.settled.lowered, hm.settled.moved⟩,
    ⟨hm.chained.white, hm.chained.listed, hm.chained.scopes⟩, ⟨fun e hmem => ?_, hm.hosted.listeners⟩⟩
  rcases Array.mem_push.mp hmem with hmem | rfl
  · exact hm.hosted.hosts e hmem
  · exact he

/-- Another time limit. -/
theorem Orderly.setTimeLimit (hm : m.Orderly) (limit : Option Nat) : (m.setTimeLimit limit).Orderly :=
  ⟨⟨hm.stacked.tile, hm.stacked.size, hm.stacked.depth, hm.stacked.room, hm.stacked.nesting⟩,
    ⟨hm.settled.lowered, hm.settled.moved⟩,
    ⟨hm.chained.white, hm.chained.listed, hm.chained.scopes⟩, ⟨hm.hosted.hosts, hm.hosted.listeners⟩⟩

/-- **A fresh machine is orderly.** -/
theorem orderly_new {config : Config} (hm : Machine.new config = .ok m) : m.Orderly := by
  obtain ⟨-, hfounded, hframe⟩ := Machine.new_spec hm
  refine ⟨⟨?_, ?_, ?_, ?_, ?_⟩, ⟨?_, ?_⟩, ⟨hfounded.coherent.white, fun _ => hfounded.listed, ?_⟩, ?_, ?_⟩
  all_goals
    rw [hframe]
    simp [floor]

end Machine

/-! ### Programs -/

namespace Keeping

variable {α β : Type}

theorem rests {x : MachineM α} (hx : Restful x) : Keeping Rests x := hx.mono fun _ _ => Still.rests

theorem mapM {R : Machine → Machine → Prop} [IsPreorder Machine R] {f : α → MachineM β}
    (hf : ∀ a, Keeping R (f a)) (items : Array α) : Keeping R (items.mapM f) := by
  have hlist (items : List α) : Keeping R (items.mapM f) := by
    induction items with
    | nil => exact ret _
    | cons a items ih =>
      rw [List.mapM_cons]
      exact bind (hf a) fun _ => bind ih fun _ => ret _
  rw [Array.mapM_eq_mapM_toList, map_eq_pure_bind]
  exact bind (hlist items.toList) fun _ => ret _

theorem constantValue (c : Constant) : Restful (constantValue c) := by
  cases c with
  | string text => exact newString text
  | _ => exact ret _

mutual

theorem registerCode (block : Block) : Keeping Rests (registerCode block) := by
  cases block with
  | mk name instructions constants identifiers functions scopeLayouts handlers variableIds
      paramCount varCount registerCount needsActivation propertyCacheCount callCacheCount =>
    unfold ScriptMachine.registerCode
    refine bind (registerAll functions) fun _ => bind (mapM (fun a => .rests (intern a)) _) fun _ =>
      bind (mapM (fun a => .rests (constantValue a)) _) fun _ => bind (checkpoint _) fun _ =>
      bind look fun _ => bind (change fun m hm => ?_) fun _ => ret _
    exact ⟨hm.pushCode rfl, ⟨rfl, rfl⟩, rfl, rfl⟩

theorem registerAll (blocks : List Block) : Keeping Rests (registerAll blocks) := by
  cases blocks with
  | nil => exact ret _
  | cons block blocks =>
    unfold ScriptMachine.registerAll
    exact bind (registerCode block) fun _ => bind (registerAll blocks) fun _ => ret _

end

theorem load (block : Block) : Keeping Rests (load block) := by
  unfold ScriptMachine.load
  split
  · exact fatal _
  · exact bind (registerCode block) fun _ => bind (.rests (internOption _)) fun _ =>
      bind (.rests (newFunctionCell _ _ _ _)) fun _ => ret _

/-- **Running a program.** -/
theorem runProgram (block : Block) : Keeping Rests (runProgram block) := by
  refine bind (load block) fun program => bind (.rests (notifyAt _ _ _)) fun _ =>
    bind look fun m => bind (attempt (.rests (call _ _ _))) fun r =>
    bind (.rests (notifyAt _ _ _)) fun _ => ?_
  cases r with
  | ok value => exact ret _
  | error u => exact unwind u

/-- **Registering a host function.** -/
theorem registerHostFunction (name : String) (arity : UInt32) {run : HostFunction}
    (hrun : ∀ call, (run call).Plain) : Keeping Rests (registerHostFunction name arity run) := by
  have hnew : Keeping Rests (newHostFunction name arity run) :=
    bind (.rests (intern name)) fun _ => bind look fun _ => bind (change fun m hm =>
      ⟨hm.pushHost hrun, ⟨rfl, rfl⟩, rfl, rfl⟩) fun _ =>
      bind (.rests (newFunctionCell _ _ _ _)) fun _ => ret _
  exact bind hnew fun _ => bind (.rests (setGlobal name _)) fun _ => ret _

end Keeping

/-! ### Requests -/

/-- What a host may do with a machine. -/
inductive Request where
  /-- A question of a plain host program: calls, properties, allocation. -/
  | ask (query : HostQuery) (plain : query.Plain)
  /-- Loading a program. -/
  | load (block : Block)
  /-- Running a program. -/
  | run (block : Block)
  /-- Registering a host function. -/
  | define (name : String) (arity : UInt32) (body : HostFunction)
    (plain : ∀ call, (body call).Plain)
  /-- Registering a listener. -/
  | listen (listener : Listener) (plain : ∀ event, (listener event).Plain)
  /-- Reading a property. -/
  | getProperty (object : Value) (name : String)
  /-- Deleting a property. -/
  | deleteProperty (object : Value) (name : String)
  /-- A value as a string value. -/
  | toStringValue (value : Value)
  /-- Installing the compiler. -/
  | installTier
  /-- Changing the time limit. -/
  | setTimeLimit (limit : Option Nat)
  /-- Protecting a value. -/
  | protect (value : Value)
  /-- Giving up the protection. -/
  | unprotect (root : RootId)

/-- Does what is requested. -/
def Request.perform : Request → MachineM Unit
  | .ask query _ => discard <| answer query
  | .load block => discard <| ScriptMachine.load block
  | .run block => discard <| runProgram block
  | .define name arity body _ => discard <| registerHostFunction name arity body
  | .listen listener _ => addListener listener
  | .getProperty object name => discard <| ScriptMachine.getProperty object name
  | .deleteProperty object name => discard <| ScriptMachine.deleteProperty object name
  | .toStringValue value => discard <| ScriptMachine.toStringValue value
  | .installTier => modify (·.installTier)
  | .setTimeLimit limit => modify (·.setTimeLimit limit)
  | .protect value => discard <| withHeap (·.addRoot value)
  | .unprotect root => modifyHeap (·.removeRoot root)

/-- **Requests** leave the frames and the registers as they are. -/
theorem Keeping.request (request : Request) : Keeping Rests request.perform := by
  cases request with
  | ask query plain =>
    have hanswer : Restful (answer query) := fun _ _ he hm => Proceeds.answer he hm plain
    exact discarded (.rests hanswer)
  | load block => exact discarded (load block)
  | run block => exact discarded (runProgram block)
  | define name arity body plain => exact discarded (registerHostFunction name arity plain)
  | listen listener plain =>
    refine change fun m hm => ?_
    obtain ⟨hm', hs⟩ := hm.relisten (m.listeners.push listener)
      (fun l hmem => (Array.mem_push.mp hmem).elim (hm.hosted.listeners l) fun heq => heq ▸ plain)
      m.notifying
    exact ⟨hm', hs.rests, rfl, rfl⟩
  | getProperty object name =>
    exact discarded (.rests (bind (intern name) fun _ => getById _ _ _))
  | deleteProperty object name =>
    exact discarded (.rests (bind (intern name) fun _ => deleteById _ _))
  | toStringValue value =>
    refine discarded (.rests (bind look fun m => ?_))
    split
    · exact ret _
    · exact newString _
  | installTier =>
    refine change fun m hm => ?_
    obtain ⟨hm', hs⟩ := hm.beside (n := m.installTier) rfl rfl rfl rfl rfl rfl rfl rfl
    exact ⟨hm', hs.rests, rfl, rfl⟩
  | setTimeLimit limit =>
    exact change fun m hm => ⟨hm.setTimeLimit limit, ⟨rfl, rfl⟩, rfl, rfl⟩
  | protect value =>
    refine discarded (.rests (withHeap fun h => ?_))
    unfold Heap.addRoot
    split <;> exact .of_slots rfl rfl
  | unprotect root =>
    have hroot : Restful (ScriptMachine.modifyHeap (·.removeRoot root)) := by
      refine modifyHeap fun h => ?_
      unfold Heap.removeRoot
      split
      · exact .of_slots rfl rfl
      · exact .refl h
    exact .rests hroot

/-- **A machine that a host can get at**: a fresh one, or what a request leaves, whether it runs to its
end or is stopped at any checkpoint. -/
inductive Machine.Reached : Machine → Prop
  /-- A fresh machine. -/
  | fresh {config : Config} {m : Machine} : Machine.new config = .ok m → Reached m
  /-- The state in which a request ends or is stopped. -/
  | request {m : Machine} (request : Request) (pause : Machine → List Value → Bool) (fuel : Nat) :
      Reached m → Reached (leaves (m.evalPausing pause fuel request.perform))

/-- **Reachable machines are orderly**, between requests and in the middle of them. -/
theorem Machine.Reached.orderly (hm : m.Reached) : m.Orderly := by
  induction hm with
  | fresh hnew => exact orderly_new hnew
  | request request pause fuel _ ih =>
    exact (Keeping.request request _ _ (orderly_perform pause fuel) ih).orderly

end ScriptMachine
