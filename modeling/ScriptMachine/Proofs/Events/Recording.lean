import ScriptMachine.Host.Library
import ScriptMachine.Proofs.Events.Invariants

/-! # The recording listener

A listener that writes every event down adds one entry to the journal when it is told of an event, and
changes nothing else (`tellListeners_recording`). What it has heard so far is read off the journal
(`Machine.heard`), unless host functions write events down in its name, or add listeners of their own
(`HostProgram.Discreet`). A program that loads is loaded without a word (`Unheard.load`). -/

namespace ScriptMachine

open Machine

variable {m m' : Machine} {α β : Type} {tag : String}

/-! ### What a listener has heard -/

/-- The event of an entry, if the listener of that name has written it down. -/
def JournalEntry.event? (tag : String) : JournalEntry → Option DebugEvent
  | .event listener told _ => if listener = tag then some told else none
  | _ => none

/-- **What a listener has heard**: the events written down under its name. -/
def Machine.heard (m : Machine) (tag : String) : List DebugEvent :=
  m.journal.toList.filterMap (JournalEntry.event? tag)

theorem Machine.heard_push (m : Machine) (tag : String) (entry : JournalEntry) :
    heard { m with journal := m.journal.push entry } tag =
      m.heard tag ++ (entry.event? tag).toList := by
  unfold heard
  rw [Array.toList_push, List.filterMap_append]
  cases h : entry.event? tag <;> simp [h]

theorem Machine.heard_told (m : Machine) (tag : String) (event : DebugEvent) (text : Option String) :
    heard { m with journal := m.journal.push (.event tag event text) } tag = m.heard tag ++ [event] := by
  rw [heard_push]
  simp [JournalEntry.event?]

/-- **A host program that leaves the listener alone**: it writes no event down under that name, and adds
no listener. -/
inductive HostProgram.Discreet (tag : String) : HostProgram → Prop
  | done (result : Except Failure Value) : Discreet tag (.done result)
  | ask {query : HostQuery} {next : query.Reply → HostProgram} :
      (∀ entry, query = .record entry → entry.event? tag = none) → (∀ reply, Discreet tag (next reply)) →
      Discreet tag (.ask query next)

/-- **Telling the recording listener**: the event is written down, and nothing else happens. -/
theorem tellListeners_recording (event : DebugEvent) (env : Env)
    (hlisteners : m.listeners = #[Listener.recording tag]) (hnotifying : m.notifying = false) :
    ∃ text, tellListeners event env m =
      .ok .undefined { m with journal := m.journal.push (.event tag event text) } := by
  obtain ⟨⟩ := m
  dsimp only at hlisteners hnotifying
  subst hlisteners hnotifying
  rcases event with ⟨kind, function, line, depth, _ | value⟩
  · exact ⟨none, rfl⟩
  · exact ⟨_, rfl⟩

/-! ### Loading -/

/-- The action never succeeds. -/
def Fails (x : MachineM α) : Prop := ∀ env m a m', x env m ≠ .ok a m'

namespace Fails

variable {x : MachineM α} {g : α → MachineM β}

theorem unwind (u : Unwind) : Fails (unwind u : MachineM α) := fun _ _ _ _ h => by cases h

theorem last (hg : ∀ a, Fails (g a)) : Fails (x >>= g) := by
  intro env m b m'' h
  cases hr : x env m with
  | ok a m' =>
    rw [bind_eq_of_ok hr] at h
    exact hg a env m' b m'' h
  | error stop m' =>
    rw [bind_eq_of_error hr] at h
    cases h

theorem raiseError (kind : ErrorKind) (message : String) : Fails (raiseError kind message : MachineM α) :=
  last fun _ => last fun _ => last fun _ => unwind _

theorem propertyFault (fault : PropertyFault) : Fails (propertyFault fault : MachineM α) := by
  cases fault with
  | staleHandle => exact unwind _
  | outOfMemory => exact last fun _ => unwind _
  | _ => exact raiseError _ _

end Fails

/-- **An action of which nothing is heard**, unless it fails. -/
def Unheard (x : MachineM α) : Prop :=
  ∀ env m a m', x env m = .ok a m' → m'.journal = m.journal

namespace Unheard

variable {x : MachineM α} {g : α → MachineM β}

theorem ret (a : α) : Unheard (pure a : MachineM α) := by
  rintro env m _ _ ⟨⟩
  rfl

theorem look : Unheard (get : MachineM Machine) := by
  rintro env m _ _ ⟨⟩
  rfl

/-- An action that never succeeds. -/
theorem never (hx : Fails x) : Unheard x := fun env m a m' h => absurd h (hx env m a m')

theorem bind (hx : Unheard x) (hg : ∀ a, Unheard (g a)) : Unheard (x >>= g) := by
  intro env m b m'' h
  cases hr : x env m with
  | ok a m' =>
    rw [bind_eq_of_ok hr] at h
    exact (hg a env m' b m'' h).trans (hx env m a m' hr)
  | error stop m' =>
    rw [bind_eq_of_error hr] at h
    cases h

theorem ite {c : Prop} [Decidable c] {y : MachineM α} (hx : Unheard x) (hy : Unheard y) :
    Unheard (if c then x else y) := by
  split
  · exact hx
  · exact hy

theorem step {c : Machine → α × Machine} (hc : ∀ m, (c m).2.journal = m.journal) :
    Unheard (modifyGet c : MachineM α) := by
  rintro env m _ _ ⟨⟩
  exact hc m

theorem checkpoint (held : List Value) : Unheard (checkpoint held) := by
  intro env m a m' h
  unfold ScriptMachine.checkpoint at h
  split at h
  · cases h
  · cases h
    rfl

theorem withHeap (c : Heap → α × Heap) : Unheard (withHeap c) := step fun _ => rfl

theorem intern (name : String) : Unheard (intern name) := withHeap _

theorem fatal (failure : Failure) : Unheard (fatal failure : MachineM α) := never (.unwind _)

/-! ### Allocation -/

theorem allocate (shape : ShapeId) (payload : Payload) (hexact : payload.Exact) :
    Unheard (allocate shape payload hexact) := by
  have hcell : Unheard (allocateCell shape payload) := by
    refine bind (checkpoint _) fun _ => bind (withHeap _) fun r => ?_
    cases r with
    | ok id => exact ret _
    | error failure => exact fatal _
  have hcollect : Unheard collectGarbage := step fun m => by
    obtain ⟨forget, -, heq⟩ := collect_frame m
    rw [heq]
  exact bind (checkpoint _) fun _ => bind look fun m =>
    ite (bind (bind hcollect fun _ => ret _) fun _ => hcell) hcell

theorem newObject : Unheard newObject := bind look fun _ => bind (allocate _ _ _) fun _ => ret _

theorem newString (text : String) : Unheard (newString text) :=
  bind look fun _ => bind (allocate _ _ _) fun _ => ret _

theorem runHeap (c : HeapM α) : Unheard (runHeap c) := by
  refine bind (withHeap _) fun r => ?_
  cases r with
  | ok a => exact ret _
  | error fault => exact never (.propertyFault fault)

/-! ### Programs -/

theorem mapM {f : α → MachineM β} (hf : ∀ a, Unheard (f a)) (items : Array α) : Unheard (items.mapM f) := by
  have hlist (items : List α) : Unheard (items.mapM f) := by
    induction items with
    | nil => exact ret _
    | cons a items ih =>
      rw [List.mapM_cons]
      exact bind (hf a) fun _ => bind ih fun _ => ret _
  rw [Array.mapM_eq_mapM_toList, map_eq_pure_bind]
  exact bind (hlist _) fun _ => ret _

theorem constantValue (c : Constant) : Unheard (constantValue c) := by
  cases c with
  | string text => exact newString _
  | _ => exact ret _

theorem newFunctionCell (target : CallTarget) (scope : Option Handle) (name : Option Atom) (arity : UInt32) :
    Unheard (newFunctionCell target scope name arity) := by
  refine bind look fun m => bind (allocate _ _ _) fun function => ?_
  cases target with
  | host _ => exact ret _
  | script _ =>
    refine bind newObject fun prototype => bind (checkpoint _) fun _ => bind look fun _ => ?_
    dsimp only
    split
    · exact bind (runHeap _) fun _ => bind (runHeap _) fun _ => ret _
    · exact bind (runHeap _) fun _ => ret _

mutual

theorem registerCode (block : Block) : Unheard (registerCode block) := by
  cases block with
  | mk name instructions constants identifiers functions scopeLayouts handlers variableIds
      paramCount varCount registerCount needsActivation propertyCacheCount callCacheCount =>
    unfold ScriptMachine.registerCode
    exact bind (registerAll functions) fun _ => bind (mapM intern _) fun _ =>
      bind (mapM constantValue _) fun _ => bind (checkpoint _) fun _ => bind look fun _ =>
      bind (step fun _ => rfl) fun _ => ret _

theorem registerAll (blocks : List Block) : Unheard (registerAll blocks) := by
  cases blocks with
  | nil => exact ret _
  | cons block blocks =>
    unfold ScriptMachine.registerAll
    exact bind (registerCode block) fun _ => bind (registerAll blocks) fun _ => ret _

end

/-- **A program that loads** is loaded without a word. -/
theorem load (block : Block) : Unheard (load block) := by
  unfold ScriptMachine.load
  split
  · exact fatal _
  · refine bind (registerCode block) fun _ => bind ?_ fun _ => bind (newFunctionCell _ _ _ _) fun _ => ret _
    cases block.name with
    | none => exact ret _
    | some name => exact bind (intern name) fun _ => ret _

end Unheard

end ScriptMachine
