import ScriptMachine.Machine.Bootstrap
import ScriptMachine.Proofs.Machine.Anchored
import ScriptMachine.Proofs.Progress.Programs

/-! # Machines that any host can get at

Loading registers a block with complete tables, its nested functions first (`Goes.registerCode`): a block
that passes validation names only identifiers that it has. A host may ask anything of a machine, load and
run programs, and register functions and listeners that do anything (`Demand`). Whatever it does, and
wherever the machine is stopped while it does it, the machine is intact (`Machine.Visited.intact`). -/

namespace ScriptMachine

open Machine

variable {m m' m'' : Machine} {α β : Type}

namespace Machine

/-- The frames stay where they are, and code may be registered. -/
structure Gains (m m' : Machine) : Prop where
  spots : m'.spots = m.spots
  hosts : m'.hosts = m.hosts
  codes : m.codes.size ≤ m'.codes.size

theorem Stands.gains (h : m.Calm m') : m.Gains m' := by
  have hsize := congrArg Array.size h.codes
  simp only [Array.size_map] at hsize
  exact ⟨h.spots, h.hosts, Nat.le_of_eq hsize.symm⟩

theorem Gains.trans (h₁ : m.Gains m') (h₂ : m'.Gains m'') : m.Gains m'' :=
  ⟨h₂.spots.trans h₁.spots, h₂.hosts.trans h₁.hosts, Nat.le_trans h₁.codes h₂.codes⟩

instance : Leaving Gains where
  refl m := (Calm.refl m).gains
  trans _ _ _ := .trans
  hosts _ _ h := h.hosts

end Machine

/-! ### Registering code -/

/-- What is registered for a block. -/
def CodeEntry.fresh (block : Block) (atoms : Array Atom) (values : Array Value) (nested : List CodeId) :
    CodeEntry :=
  let atomAt (index : UInt32) : Atom := atoms.getD index.toNat default
  { block := { block with functions := [] }
    atoms
    constants := values
    functions := nested.toArray
    variableNames := block.variableIds.map atomAt
    scopeLayouts := block.scopeLayouts.map fun layout => (layout.map atomAt).toArray
    caches := .new block.propertyCacheCount.toNat block.callCacheCount.toNat }

/-- **The tables of a valid block are complete**, if there is an atom for each identifier, a value for
each constant and code for each nested function. -/
theorem Machine.complete_fresh {block : Block} {atoms : Array Atom} {values : Array Value}
    {nested : List CodeId} (hb : block.Consistent) (hatoms : atoms.size = block.identifiers.size)
    (hvalues : values.size = block.constants.size) (hlength : nested.length = block.functions.length)
    (hknown : ∀ code ∈ nested, code.index < m.codes.size) :
    m.Complete (.fresh block atoms values nested) where
  consistent := by
    cases block
    exact ⟨_, hlength.symm, hb⟩
  atoms := hatoms
  constants := hvalues
  variableNames := rfl
  scopeLayouts := rfl
  functions code hcode := hknown code (List.mem_toArray.mp hcode)
  compiled _ h := by cases h
  calls cache hcache callee target h := by
    have hnew : cache = .uninitialized := (Array.mem_replicate.mp hcache).2
    rw [hnew] at h
    cases h

namespace Goes

variable {env : Env}

/-- One result for each item. -/
theorem mapM {f : α → MachineM β} (he : env.Faithful) (hm : m.Intact) (hf : ∀ a, Calmly Quiet (f a))
    (items : Array α) : Goes m (items.mapM f env m) (fun r m' => m.Gains m' ∧ r.size = items.size)
      fun u m' => m.Gains m' ∧ (m.Candid → u.Innocent) := by
  have hlist (items : List α) {m : Machine} (hm : m.Intact) : Goes m (items.mapM f env m)
      (fun r m' => m.Gains m' ∧ r.length = items.length)
      fun u m' => m.Gains m' ∧ (m.Candid → u.Innocent) := by
    induction items generalizing m with
    | nil => exact ret hm ⟨refl_of Gains m, rfl⟩
    | cons a items ih =>
      rw [List.mapM_cons]
      refine bind ((hf a env m he hm).mono (fun _ _ _ h => h) fun _ _ _ h => ⟨h.1.calm.gains, h.2⟩) ?_
      intro b m₁ hm₁ hq₁
      have hg₁ := hq₁.calm.gains
      refine bind ((ih hm₁).mono (fun _ _ _ h => h) fun _ _ _ h =>
        ⟨hg₁.trans h.1, fun hc => h.2 (Leaving.candid hg₁ hc)⟩) ?_
      rintro bs m₂ hm₂ ⟨hg₂, hlength⟩
      exact ret hm₂ ⟨hg₁.trans hg₂, by simp [hlength]⟩
  rw [Array.mapM_eq_mapM_toList, map_eq_pure_bind]
  refine bind (hlist items.toList hm) ?_
  rintro bs m₁ hm₁ ⟨hg₁, hlength⟩
  exact ret hm₁ ⟨hg₁, by simpa using hlength⟩

/-- A run that follows one that registers code. -/
theorem grown {x : MachineM α} {Q : α → Machine → Prop} (hg : m.Gains m')
    (hx : Goes m' (x env m') Q fun u m'' => m'.Gains m'' ∧ (m'.Candid → u.Innocent)) :
    Goes m' (x env m') Q fun u m'' => m.Gains m'' ∧ (m.Candid → u.Innocent) :=
  hx.mono (fun _ _ _ h => h) fun _ _ _ h => ⟨hg.trans h.1, fun hc => h.2 (Leaving.candid hg hc)⟩

end Goes

namespace Calmly

theorem constantValue (c : Constant) : Calmly Quiet (constantValue c) := by
  cases c with
  | string text => exact newString text
  | _ => exact ret _

end Calmly

namespace Goes

variable {env : Env}

mutual

/-- **A valid block is registered** with complete tables. -/
theorem registerCode {m : Machine} (he : env.Faithful) (hm : m.Intact) (block : Block) (hb : block.WellFormed) :
    Goes m (registerCode block env m) (fun code m' => m.Gains m' ∧ code.index < m'.codes.size)
      fun u m' => m.Gains m' ∧ (m.Candid → u.Innocent) := by
  cases block with
  | mk name instructions constants identifiers functions scopeLayouts handlers variableIds
      paramCount varCount registerCount needsActivation propertyCacheCount callCacheCount =>
    cases hb with
    | intro hconsistent hnested =>
      unfold ScriptMachine.registerCode
      refine bind (registerAll he hm functions hnested) ?_
      rintro nested m₁ hm₁ ⟨hg₁, hlength, hknown⟩
      refine bind (grown hg₁ (mapM he hm₁ Calmly.intern identifiers)) ?_
      rintro atoms m₂ hm₂ ⟨hg₂, hatoms⟩
      have hcodes₂ := hg₂.codes
      have hg₂ := hg₁.trans hg₂
      refine bind (grown hg₂ (mapM he hm₂ Calmly.constantValue constants)) ?_
      rintro values m₃ hm₃ ⟨hg₃, hvalues⟩
      have hcodes₃ := Nat.le_trans hcodes₂ hg₃.codes
      have hg₃ := hg₂.trans hg₃
      refine pass hm₃ (look ?_)
      let entry := CodeEntry.fresh ⟨name, instructions, constants, identifiers, functions, scopeLayouts,
        handlers, variableIds, paramCount, varCount, registerCount, needsActivation,
        propertyCacheCount, callCacheCount⟩ atoms values nested
      have hcomplete : m₃.Complete entry := complete_fresh hconsistent hatoms hvalues hlength
        fun code hcode => Nat.lt_of_lt_of_le (hknown code hcode) hcodes₃
      refine bind (Q := fun _ m' => m' = { m₃ with codes := m₃.codes.push entry })
        (change hm₃ (Step.code hcomplete).arrives rfl) ?_
      rintro _ _ hm₄ rfl
      refine ret hm₄ ⟨hg₃.trans ⟨rfl, rfl, by simp⟩, by simp⟩

theorem registerAll {m : Machine} (he : env.Faithful) (hm : m.Intact) (blocks : List Block)
    (hb : ∀ block ∈ blocks, block.WellFormed) :
    Goes m (registerAll blocks env m) (fun codes m' => m.Gains m' ∧ codes.length = blocks.length ∧
        ∀ code ∈ codes, code.index < m'.codes.size)
      fun u m' => m.Gains m' ∧ (m.Candid → u.Innocent) := by
  cases blocks with
  | nil => exact ret hm ⟨refl_of Gains m, rfl, by simp⟩
  | cons block blocks =>
    unfold ScriptMachine.registerAll
    refine bind (registerCode he hm block (hb block (by simp))) ?_
    rintro code m₁ hm₁ ⟨hg₁, hcode⟩
    refine bind (grown hg₁ (registerAll he hm₁ blocks fun b h => hb b (by simp [h]))) ?_
    rintro codes m₂ hm₂ ⟨hg₂, hlength, hcodes⟩
    refine ret hm₂ ⟨hg₁.trans hg₂, by simp [hlength], fun c hc => ?_⟩
    rcases List.mem_cons.mp hc with rfl | hc
    · exact Nat.lt_of_lt_of_le hcode hg₂.codes
    · exact hcodes c hc

end

/-- **Loading a program**: an invalid block is refused, and nothing else makes a complaint. -/
theorem load (he : env.Faithful) (hm : m.Intact) (block : Block) :
    Goes m (load block env m) (fun _ m' => m.Gains m')
      fun u m' => m.Gains m' ∧ (block.validate = .ok () → m.Candid → u.Innocent) := by
  unfold ScriptMachine.load
  cases hvalid : block.validate with
  | error defect => exact unwind hm ⟨refl_of Gains m, fun h => by cases h⟩
  | ok _ =>
    have hb := (Block.validate_eq_ok_iff block).mp hvalid
    refine Goes.mono (Q := fun _ m' => m.Gains m')
      (E := fun u m' => m.Gains m' ∧ (m.Candid → u.Innocent)) ?_ (fun _ _ _ h => h)
      fun _ _ _ h => ⟨h.1, fun _ => h.2⟩
    refine bind (registerCode he hm block hb) ?_
    rintro code m₁ hm₁ ⟨hg₁, hcode⟩
    refine bind ((Calmly.internOption block.name env m₁ he hm₁).mono (fun _ _ _ h => h) fun _ _ _ h =>
      ⟨hg₁.trans h.1.calm.gains, fun hc => h.2 (Leaving.candid hg₁ hc)⟩) ?_
    intro name m₂ hm₂ hq₂
    have hg₂ := hg₁.trans hq₂.calm.gains
    have hk : m₂.Knows (.script code) := Nat.lt_of_lt_of_le hcode hq₂.calm.gains.codes
    refine bind ((newFunctionCell he hm₂ hk (.inl rfl) name block.paramCount).mono (fun _ _ _ h => h)
      fun _ _ _ h => ⟨hg₂.trans h.1.gains, fun hc => h.2 (Leaving.candid hg₂ hc)⟩) ?_
    exact fun _ m₃ hm₃ hc => ret hm₃ (hg₂.trans hc.gains)

/-- **Running a program.** -/
theorem runProgram (he : env.Faithful) (hm : m.Intact) (block : Block) :
    Goes m (runProgram block env m) (fun _ m' => m.Gains m')
      fun u m' => m.Gains m' ∧ (block.validate = .ok () → m.Candid → u.Innocent) := by
  refine bind (load he hm block) ?_
  intro program m₁ hm₁ hg₁
  have told {n : Machine} (hn : n.Intact) (kind : EventKind) {E : Unwind → Machine → Prop} :
      Goes n (notify kind env n) (fun _ m' => n.Calm m') E :=
    (notifyAt he hn kind none none).mono (fun _ _ _ h => h) fun _ _ _ h => h.elim
  refine bind (told hm₁ _) ?_
  intro _ m₂ hm₂ hc₂
  have hg₂ := hg₁.trans hc₂.gains
  refine look (bind (Calmly.call program m₂.globalObject #[] env m₂ he hm₂).attempt ?_)
  intro r m₃ hm₃ hr
  refine bind (told hm₃ _) ?_
  intro _ m₄ hm₄ hc₄
  cases r with
  | ok value => exact ret hm₄ ((hg₂.trans hr.gains).trans hc₄.gains)
  | error u =>
    exact unwind hm₄ ⟨(hg₂.trans hr.1.gains).trans hc₄.gains, fun _ hc => hr.2 (Leaving.candid hg₂ hc)⟩

/-- **Registering a host function**, whatever it does. -/
theorem registerHostFunction (he : env.Faithful) (hm : m.Intact) (name : String) (arity : UInt32)
    (run : HostFunction) : Goes m (registerHostFunction name arity run env m) (fun _ _ => True)
      fun u _ => m.Candid → (∀ call, (run call).Candid) → u.Innocent := by
  have hpush {m₁ : Machine} (hc : m.Calm m₁) (entry : HostEntry) (hrun : entry.run = run)
      (hcandid : m.Candid) (h : ∀ call, (run call).Candid) :
      Machine.Candid { m₁ with hosts := m₁.hosts.push entry } := by
    intro e hmem call
    rcases Array.mem_push.mp hmem with hmem | rfl
    · exact hc.candid hcandid e hmem call
    · rw [hrun]
      exact h call
  have hnew : Goes m (newHostFunction name arity run env m)
      (fun _ m' => m.Candid → (∀ call, (run call).Candid) → m'.Candid)
      fun u _ => m.Candid → (∀ call, (run call).Candid) → u.Innocent := by
    refine bind ((Calmly.intern name env m he hm).mono (fun _ _ _ h => h) fun _ _ _ h hc _ => h.2 hc) ?_
    intro atom m₁ hm₁ hq₁
    refine look ?_
    let added : Machine := { m₁ with hosts := m₁.hosts.push { name := atom, arity, run } }
    refine bind (Q := fun _ m' => m' = added) (change hm₁ (Step.host _).arrives rfl) ?_
    rintro _ _ hm₂ rfl
    have hcandid₂ := hpush hq₁.calm { name := atom, arity, run } rfl
    have hk : added.Knows (.host ⟨m₁.hosts.size⟩) := by
      change m₁.hosts.size < (m₁.hosts.push _).size
      simp
    refine bind ((newFunctionCell he hm₂ hk (.inl rfl) (some atom) arity).mono (fun _ _ _ h => h)
      fun _ _ _ h hc hrun => h.2 (hcandid₂ hc hrun)) ?_
    exact fun _ m₃ hm₃ hc₃ => ret hm₃ fun hc hrun => hc₃.candid (hcandid₂ hc hrun)
  refine bind hnew fun value m₁ hm₁ hcandid => ?_
  refine bind ((Calmly.setGlobal name value env m₁ he hm₁).mono (fun _ _ _ h => h)
    fun _ _ _ h hc hrun => h.2 (hcandid hc hrun)) fun _ m₂ hm₂ _ => ret hm₂ trivial

end Goes

/-! ### Demands -/

/-- What any host may do with a machine. -/
inductive Demand where
  /-- Questions and listeners. -/
  | host (program : HostProgram)
  /-- Loading a program. -/
  | load (block : Block)
  /-- Running a program. -/
  | run (block : Block)
  /-- Registering a host function. -/
  | define (name : String) (arity : UInt32) (body : HostFunction)
  /-- Reading a property. -/
  | getProperty (object : Value) (name : String)
  /-- Deleting a property. -/
  | deleteProperty (object : Value) (name : String)
  /-- A value as a string value. -/
  | toStringValue (value : Value)
  /-- Installing the compiler. -/
  | installTier
  /-- Changing the time limit. -/
  | setTimeLimit (limit : Option Nat)
  /-- Protecting a value. -/
  | protect (value : Value)
  /-- Giving up the protection. -/
  | unprotect (root : RootId)

namespace Demand

/-- Does what is demanded. -/
def perform : Demand → MachineM Unit
  | .host program => discard <| runHost program
  | .load block => discard <| ScriptMachine.load block
  | .run block => discard <| runProgram block
  | .define name arity body => discard <| registerHostFunction name arity body
  | .getProperty object name => discard <| ScriptMachine.getProperty object name
  | .deleteProperty object name => discard <| ScriptMachine.deleteProperty object name
  | .toStringValue value => discard <| ScriptMachine.toStringValue value
  | .installTier => modify (·.installTier)
  | .setTimeLimit limit => modify (·.setTimeLimit limit)
  | .protect value => discard <| withHeap (·.addRoot value)
  | .unprotect root => modifyHeap (·.removeRoot root)

/-- The blocks pass validation, and the host functions make up no complaint about the code. -/
def Valid : Demand → Prop
  | .load block | .run block => block.validate = .ok ()
  | .define _ _ body => ∀ call, (body call).Candid
  | _ => True

end Demand

/-- **What a host demands** is a run, and makes no complaint about valid code. -/
theorem Goes.demand {env : Env} (he : env.Faithful) (hm : m.Intact) (demand : Demand) :
    Goes m (demand.perform env m) (fun _ _ => True)
      fun u _ => demand.Valid → m.Candid → u.Innocent := by
  have ignoring {α : Type} {x : MachineM α} {Q : α → Machine → Prop} {E : Unwind → Machine → Prop}
      (hx : Goes m (x env m) Q E) (hE : ∀ u m', E u m' → demand.Valid → m.Candid → u.Innocent) :
      Goes m (discard x env m) (fun _ _ => True) fun u _ => demand.Valid → m.Candid → u.Innocent := by
    change Goes m ((x >>= fun _ => pure ()) env m) _ _
    exact bind (hx.mono (fun _ _ _ h => h) fun u m' _ h => hE u m' h) fun _ m' hm' _ => ret hm' trivial
  have calmly {α : Type} {x : MachineM α} (hx : Calmly Calm x) :=
    ignoring (hx env m he hm) fun _ _ h _ hc => h.2 hc
  have beside {c : Machine → Machine} (h : m.Arrives (c m) ∧ m.Quiet (c m)) :
      Goes m ((modify c : MachineM Unit) env m) (fun _ _ => True)
        fun u _ => demand.Valid → m.Candid → u.Innocent := change hm h.1 trivial
  cases demand with
  | host program => exact ignoring (E := fun _ _ => False) (runHost he hm program) fun _ _ h => h.elim
  | load block => exact ignoring (load he hm block) fun _ _ h => h.2
  | run block => exact ignoring (runProgram he hm block) fun _ _ h => h.2
  | define name arity body =>
    exact ignoring (registerHostFunction he hm name arity body) fun _ _ h hrun hc => h hc hrun
  | getProperty object name => exact calmly (.bind (.quiet (.intern name)) fun _ => .getById _ _ _)
  | deleteProperty object name => exact calmly (.bind (.quiet (.intern name)) fun _ => .deleteById _ _)
  | toStringValue value =>
    refine calmly (.bind .look fun m => ?_)
    split
    · exact .ret _
    · exact .quiet (.newString _)
  | installTier => exact beside (arrives_beside rfl rfl rfl rfl rfl)
  | setTimeLimit limit => exact beside (arrives_beside rfl rfl rfl rfl rfl)
  | protect value =>
    refine calmly (.quiet (.withHeap fun h => ?_))
    unfold Heap.addRoot
    split <;> exact .of_slots rfl rfl
  | unprotect root =>
    change Goes m (ScriptMachine.modifyHeap (·.removeRoot root) env m) _ _
    refine (modifyHeap hm ?_).mono (fun _ _ _ _ => trivial) fun _ _ _ h => h
    unfold Heap.removeRoot
    split
    · exact .of_slots rfl rfl
    · exact .refl _

/-! ### Fresh machines -/

/-- The payload is neither a function nor a scope record. -/
structure Payload.Inert (payload : Payload) : Prop where
  function : ∀ data, payload ≠ .function data
  activation : ∀ record room, payload ≠ .activation record room

theorem Payload.Inert.admits {payload : Payload} (hp : payload.Inert) (m : Machine) :
    m.Admits payload := by
  cases payload with
  | function data => exact absurd rfl (hp.function data)
  | activation record room => exact absurd rfl (hp.activation record room)
  | _ => trivial

namespace Bootstrap

/-- Setting up makes no functions and no scope records. -/
def Lays (x : SetupM α) : Prop :=
  ∀ h : Heap, (∀ id c, h.cell? id = some c → c.payload.Inert) →
    ∀ id c, (leaves (x h)).cell? id = some c → c.payload.Inert

namespace Lays

theorem ret (a : α) : Lays (pure a : SetupM α) := fun _ hh => hh

theorem bind {x : SetupM α} {f : α → SetupM β} (hx : Lays x) (hf : ∀ a, Lays (f a)) :
    Lays (x >>= f) := by
  intro h hh
  have hx := hx h hh
  simp only [Bind.bind, EStateM.bind]
  cases hr : x h with
  | ok a h₁ =>
    rw [hr] at hx
    exact hf a h₁ hx
  | error failure h₁ =>
    rw [hr] at hx
    exact hx

/-- Operations on cells leave the payloads alone. -/
theorem retains {x : SetupM α} (hx : ∀ h : Heap, h.Retains (leaves (x h))) : Lays x := by
  intro h hh id c' hc'
  obtain ⟨c, hc, hsame⟩ := (hx h).cell? hc'
  refine ⟨fun data hp => ?_, fun record room hp => ?_⟩
  · exact (hh id c hc).function data
      (Cell.fixture_eq_function.mp (hsame ▸ Cell.fixture_eq_function.mpr hp))
  · exact (hh id c hc).activation record room
      (Cell.fixture_eq_activation.mp (hsame ▸ Cell.fixture_eq_activation.mpr hp))

theorem intern (name : String) : Lays (intern name) := retains fun _ => .of_slots rfl rfl

theorem root (kind : CellKind) (prototype : Value) : Lays (root kind prototype) :=
  retains fun _ => .of_slots rfl rfl

theorem define (id : Handle) (name : Atom) (value : Value) (attributes : Attributes) :
    Lays (define id name value attributes) := by
  refine retains fun h => ?_
  have := Heap.Retaining.defineProperty id name value attributes h
  unfold Bootstrap.define
  cases hr : Heap.defineProperty id name value attributes h <;> rwa [hr] at this

theorem allocate (shape : ShapeId) {payload : Payload} (hp : payload.Inert) :
    Lays (allocate shape payload) := by
  refine bind (fun h hh id c hc => ?_) fun r => ?_
  · rcases Heap.cell?_allocate_cases hc with hold | hnew
    · exact hh id c hold
    · exact hnew ▸ hp
  · cases r <;> exact fun _ hh => hh

theorem addRoot (v : Value) : Lays (modify fun heap => (heap.addRoot v).2 : SetupM PUnit) := by
  refine retains fun h => ?_
  change h.Retains (h.addRoot v).2
  unfold Heap.addRoot
  split <;> exact .of_slots rfl rfl

theorem forIn {body : α → PUnit → SetupM (ForInStep PUnit)} (hb : ∀ a u, Lays (body a u))
    (items : List α) : Lays (forIn items PUnit.unit body : SetupM PUnit) := by
  induction items with
  | nil => exact ret _
  | cons a items ih =>
    rw [List.forIn_cons]
    refine bind (hb a _) fun r => ?_
    cases r with
    | done u => exact ret _
    | yield u => exact ih

theorem mapM {f : α → SetupM β} (hf : ∀ a, Lays (f a)) (items : List α) : Lays (items.mapM f) := by
  induction items with
  | nil => exact ret _
  | cons a items ih =>
    rw [List.mapM_cons]
    exact bind (hf a) fun _ => bind ih fun _ => ret _

theorem names : Lays names :=
  bind (intern _) fun _ => bind (intern _) fun _ => bind (intern _) fun _ => bind (intern _) fun _ =>
    bind (intern _) fun _ => ret _

theorem errorPrototype (names : Names) (base : Handle) (derived stringShape : ShapeId)
    (kind : ErrorKind) : Lays (errorPrototype names base derived stringShape kind) := by
  have hrest (prototype : Handle) : Lays (do
      let name ← Bootstrap.allocate stringShape (.string kind.name)
      let empty ← Bootstrap.allocate stringShape (.string "")
      Bootstrap.define prototype names.name (.cell name) { dontEnum := true }
      Bootstrap.define prototype names.message (.cell empty) { dontEnum := true }
      return prototype : SetupM Handle) :=
    bind (allocate _ (by constructor <;> simp)) fun _ => bind (allocate _ (by constructor <;> simp))
      fun _ => bind (define _ _ _ _) fun _ => bind (define _ _ _ _) fun _ => ret _
  unfold Bootstrap.errorPrototype
  split
  · exact hrest base
  · exact bind (allocate _ (by constructor <;> simp)) hrest

/-- **The intrinsic objects** are neither functions nor scope records. -/
theorem intrinsics (names : Names) : Lays (intrinsics names) := by
  have object (shape : ShapeId) : Lays (Bootstrap.allocate shape .plain) :=
    allocate shape (by constructor <;> simp)
  unfold Bootstrap.intrinsics
  refine bind (root _ _) fun _ => bind (object _) fun _ => bind (root _ _) fun _ =>
    bind (object _) fun _ => bind (object _) fun _ => bind (object _) fun _ => bind (root _ _) fun _ =>
    bind (root _ _) fun _ => bind (root _ _) fun _ => bind (root _ _) fun _ => bind (object _) fun _ =>
    bind (root _ _) fun _ => bind (mapM (fun kind => errorPrototype _ _ _ _ kind) _) fun _ => ?_
  refine bind (forIn (fun x _ => ?_) _) fun _ => bind (forIn (fun id _ => ?_) _) fun _ => ret _
  · exact bind (intern _) fun _ => bind (define _ _ _ _) fun _ => ret _
  · exact bind (addRoot _) fun _ => ret _

end Lays

end Bootstrap

/-- The cells of a fresh machine are neither functions nor scope records. -/
theorem Machine.inert_new {config : Config} (hm : Machine.new config = .ok m) {id : Handle} {c : Cell}
    (hc : m.heap.cell? id = some c) : c.payload.Inert := by
  unfold Machine.new at hm
  dsimp only at hm
  split at hm
  case h_2 => cases hm
  case h_1 names intrinsics heap hs =>
    obtain rfl := Except.ok.inj hm
    have hlays : Bootstrap.Lays (do
        let names ← Bootstrap.names
        return (names, ← Bootstrap.intrinsics names) : Bootstrap.SetupM (Names × Intrinsics)) :=
      .bind .names fun names => .bind (.intrinsics names) fun _ => .ret _
    let limits : HeapLimits := { threshold := config.gcThresholdBytes, maxBytes := config.maxHeapBytes }
    have hheap := hlays (Heap.new limits) (by simp [Heap.new, Heap.cell?]) id c
    rw [hs] at hheap
    exact hheap hc

/-- **A fresh machine is intact.** -/
theorem Machine.intact_new {config : Config} (hm : Machine.new config = .ok m) : m.Intact := by
  obtain ⟨-, hfounded, hframe⟩ := Machine.new_spec hm
  refine ⟨hfounded.coherent.white, fun _ => hfounded.listed, fun id c hc => (inert_new hm hc).admits m,
    ?_, ?_⟩
  all_goals
    rw [hframe]
    simp

/-! ### Visited machines -/

/-- **A machine that any host can get at**: a fresh one, or what a demand leaves, whether it runs to its
end or is stopped at any checkpoint. -/
inductive Machine.Visited : Machine → Prop
  /-- A fresh machine. -/
  | fresh {config : Config} {m : Machine} : Machine.new config = .ok m → Visited m
  /-- The state in which a demand ends or is stopped. -/
  | demand {m : Machine} (demand : Demand) (pause : Machine → List Value → Bool) (fuel : Nat) :
      Visited m → Visited (leaves (m.evalPausing pause fuel demand.perform))

/-- **Machines are intact**, between demands and in the middle of them. -/
theorem Machine.Visited.intact (hm : m.Visited) : m.Intact := by
  induction hm with
  | fresh hnew => exact intact_new hnew
  | demand demand pause fuel _ ih => exact (Goes.demand (faithful_perform pause fuel) ih demand).intact

end ScriptMachine
