import ScriptMachine.Machine.Perform
import ScriptMachine.Proofs.Machine.PropertyAccess

/-! # Property caches are transparent

What a host can do to the properties of a machine that runs nothing: loading programs, reading and
writing through the sites of their code, defining, deleting, computed writes, new prototypes,
allocations and collections. Every such `Operation` is transparent (`Operation.run_agrees`), and so is
every sequence of them.

The main result is `transcript_eq`: two fresh machines, one with property caches and one without,
leave the same transcript, which has the outcome of every operation and the heap after it. -/

namespace ScriptMachine

open Machine

/-! ### Registered code -/

variable {names : SiteNames} {env : Env} [env.Unwatched] {m : Machine}

theorem Machine.Sound.pushCode (hs : m.Sound names) {entry : CodeEntry} {sites calls : Nat}
    (hnew : entry.caches = .new sites calls) :
    Sound names { m with codes := m.codes.push entry } :=
  ⟨hs.heap, ⟨hs.anchored.intrinsics, hs.anchored.names⟩, hs.quiet, hs.caches.pushCode hnew⟩

theorem CodeEntry.uncached_of_new {entry : CodeEntry} {sites calls : Nat}
    (hnew : entry.caches = .new sites calls) : entry.uncached = entry := by
  cases entry
  simp only at hnew
  subst hnew
  simp [CodeEntry.uncached, CodeCaches.new]

namespace Agrees

variable {α β : Type} {Q : α → Machine → Prop}

omit [env.Unwatched] in
theorem map {x x' : MachineM α} (hx : Agrees names env m x x' Q) (f : α → β) :
    Agrees names env m (f <$> x) (f <$> x') Any := by
  rw [map_eq_pure_bind, map_eq_pure_bind]
  exact bind hx fun _ _ hs _ _ => ret hs trivial

omit [env.Unwatched] in
theorem listMapM {f : α → MachineM β} (hs : m.Sound names)
    (hf : ∀ a (m : Machine), m.Sound names → Agrees names env m (f a) (f a) Any) (l : List α) :
    Agrees names env m (l.mapM f) (l.mapM f) Any := by
  induction l generalizing m with
  | nil => exact ret hs trivial
  | cons a l ih =>
    rw [List.mapM_cons]
    exact bind (hf a m hs) fun _ _ hs₁ _ _ => bind (ih hs₁) fun _ _ hs₂ _ _ => ret hs₂ trivial

omit [env.Unwatched] in
theorem arrayMapM {f : α → MachineM β} (hs : m.Sound names)
    (hf : ∀ a (m : Machine), m.Sound names → Agrees names env m (f a) (f a) Any) (xs : Array α) :
    Agrees names env m (xs.mapM f) (xs.mapM f) Any := by
  rw [Array.mapM_eq_mapM_toList]
  exact map (listMapM hs hf _) _

theorem constantValue (c : Constant) (hs : m.Sound names) :
    Agrees names env m (constantValue c) (constantValue c) Any := by
  cases c with
  | string text => exact newString hs text
  | number _ | boolean _ | null | undefined => exact ret hs trivial

omit [env.Unwatched] in
/-- Registering an entry with empty caches. -/
theorem pushCode (hs : m.Sound names) {entry : CodeEntry} {sites calls : Nat}
    (hnew : entry.caches = .new sites calls) :
    Agrees names env m (modify fun m => { m with codes := m.codes.push entry })
      (modify fun m => { m with codes := m.codes.push entry }) Any := by
  refine update (hs.pushCode hnew) (.refl _) ?_ trivial
  simp only [uncached, Array.map_push, CodeEntry.uncached_of_new hnew]

omit [env.Unwatched] in
mutual

theorem registerCode [env.Unwatched] (block : Block) {m : Machine} (hs : m.Sound names) :
    Agrees names env m (registerCode block) (registerCode block) Any := by
  cases block with
  | mk name instructions constants identifiers functions scopeLayouts handlers variableIds
      paramCount varCount registerCount needsActivation propertyCacheCount callCacheCount =>
    unfold ScriptMachine.registerCode
    refine bind (registerAll functions hs) fun nested m₁ hs₁ _ _ =>
      bind (arrayMapM hs₁ (fun text m hs => (intern hs text).mono fun _ _ _ => trivial) _)
        fun atoms m₂ hs₂ _ _ => bind (arrayMapM hs₂ (fun c m hs => constantValue c hs) _)
          fun values _ hs₃ _ _ => bind (checkpoint hs₃ _) fun _ m₃ hs₃ _ _ => look ?_
    simp only [size_uncached]
    exact bind (pushCode hs₃ rfl) fun _ _ hs₄ _ _ => ret hs₄ trivial

theorem registerAll [env.Unwatched] (blocks : List Block) {m : Machine} (hs : m.Sound names) :
    Agrees names env m (registerAll blocks) (registerAll blocks) Any := by
  cases blocks with
  | nil => exact ret hs trivial
  | cons block blocks =>
    unfold ScriptMachine.registerAll
    exact bind (registerCode block hs) fun code m₁ hs₁ _ _ =>
      bind (registerAll blocks hs₁) fun codes m₂ hs₂ _ _ => ret hs₂ trivial

end

omit [env.Unwatched] in
theorem internOption (name : Option String) (hs : m.Sound names) :
    Agrees names env m (internOption name) (internOption name) Any := by
  cases name with
  | none => exact ret hs trivial
  | some name => exact bind (intern hs name) fun _ _ hs' _ _ => ret hs' trivial

/-- Defining a property under a known name. -/
theorem define (hs : m.Sound names) (id : Handle) {name : Atom} (hk : m.heap.atoms.Knows name)
    (value : Value) (attributes : Attributes) :
    Agrees names env m (ScriptMachine.runHeap (Heap.defineProperty id name value attributes))
      (ScriptMachine.runHeap (Heap.defineProperty id name value attributes)) Any :=
  (runHeap hs ((Heap.defineProperty_changes (P := fun _ => True) ⟨trivial, trivial⟩ trivial hs.heap id hk
    attributes).coherent hs.heap)).mono fun _ _ _ => trivial

theorem newFunctionCell (hs : m.Sound names) (target : CallTarget) (scope : Option Handle)
    (name : Option Atom) (arity : UInt32) :
    Agrees names env m (newFunctionCell target scope name arity)
      (newFunctionCell target scope name arity) Any := by
  unfold ScriptMachine.newFunctionCell
  have hroot := hs.anchored.intrinsics.shaped.function
  refine look (bind (allocate hs rfl hroot (by simp [Intrinsics.objects])) ?_)
  intro function m₁ hs₁ _ _
  cases target with
  | host _ => exact ret hs₁ trivial
  | script _ =>
    refine bind (newObject hs₁) fun prototype _ hs₂ _ _ => bind (checkpoint hs₂ _)
      fun _ m₂ hs₂ _ _ => look ?_
    have hlast : ∀ m₃ : Machine, m₃.Sound names → m₃.heap.atoms.Knows m₂.names.prototype →
        Agrees names env m₃
          (ScriptMachine.runHeap (Heap.defineProperty function m₂.names.prototype prototype
            { dontEnum := true }) >>= fun _ => pure function)
          (ScriptMachine.runHeap (Heap.defineProperty function m₂.names.prototype prototype
            { dontEnum := true }) >>= fun _ => pure function) Any :=
      fun m₃ hs₃ hk => bind (define hs₃ function hk _ _) fun _ _ hs₄ _ _ => ret hs₄ trivial
    cases prototype.cell? with
    | none => exact hlast m₂ hs₂ hs₂.anchored.names.prototype
    | some id =>
      exact bind (define hs₂ id hs₂.anchored.names.constructor _ _) fun _ m₃ hs₃ hext _ =>
        hlast m₃ hs₃ (hext.knows hs₂.anchored.names.prototype)

theorem load (block : Block) (hs : m.Sound names) :
    Agrees names env m (load block) (load block) Any := by
  unfold ScriptMachine.load
  cases block.validate with
  | error _ => exact fail hs _
  | ok _ =>
    exact bind (registerCode block hs) fun code m₁ hs₁ _ _ => bind (internOption block.name hs₁)
      fun name m₂ hs₂ _ _ => bind (newFunctionCell hs₂ _ none name block.paramCount)
        fun _ _ hs₃ _ _ => ret hs₃ trivial

/-! ### Other operations on properties -/

theorem defineProperty (hs : m.Sound names) (object : Value) (name : String) (value : Value)
    (attributes : Attributes) :
    Agrees names env m (defineProperty object name value attributes)
      (defineProperty object name value attributes) Any := by
  unfold ScriptMachine.defineProperty
  refine bind (intern hs name) fun atom m₁ hs₁ _ hk => look ?_
  rw [objectCell?_uncached]
  cases m₁.objectCell? object with
  | none => exact raiseError hs₁ _ _
  | some id => exact define hs₁ id hk.1 value attributes

theorem deleteProperty (hs : m.Sound names) (object : Value) (name : String) :
    Agrees names env m (deleteProperty object name) (deleteProperty object name) Any := by
  refine bind (intern hs name) fun atom m₁ hs₁ _ _ => look ?_
  simp only [liveCell?_uncached, display_uncached]
  cases m₁.liveCell? object with
  | none => exact ite (fun _ => raiseError hs₁ _ _) fun _ => ret hs₁ trivial
  | some id =>
    have hx := Heap.deleteProperty_changes (P := fun _ => True) ⟨trivial, trivial⟩ hs₁.heap id atom
    refine bind (runHeap hs₁ (hx.coherent hs₁.heap)) fun deleted m₂ hs₂ _ _ => look ?_
    simp only [policy_uncached, atomName_uncached]
    exact ite (fun _ => bind (Q := Any) (raiseError hs₂ _ _) fun _ _ hs₃ _ _ => ret hs₃ trivial)
      fun _ => ret hs₂ trivial

theorem setPrototype (hs : m.Sound names) (object prototype : Value) :
    Agrees names env m (setPrototype object prototype) (setPrototype object prototype) Any := by
  refine look ?_
  rw [objectCell?_uncached]
  cases m.objectCell? object with
  | none => exact raiseError hs _ _
  | some id =>
    exact (runHeap hs (Heap.setPrototype_coherent hs.heap id prototype)).mono fun _ _ _ => trivial

/-- An access without a site. -/
theorem noSite (m : Machine) (name : Atom) : SiteFor names m none name := nofun

theorem setProperty (hs : m.Sound names) (object : Value) (name : String) (value : Value) :
    Agrees names env m (setProperty object name value) (setProperty object name value) Any :=
  bind (intern hs name) fun _ m₁ hs₁ _ hk => putById hs₁ object value hk.1 (noSite m₁ _)

omit [env.Unwatched] in
theorem keyAtom (hs : m.Sound names) (key : Value) :
    Agrees names env m (keyAtom key) (keyAtom key) fun atom m' => m'.heap.atoms.Knows atom := by
  unfold ScriptMachine.keyAtom
  refine look ?_
  rw [display_uncached]
  exact (intern hs _).mono fun _ _ h => h.1

theorem putByVal (hs : m.Sound names) (base key value : Value) :
    Agrees names env m (putByVal base key value) (putByVal base key value) Any := by
  have hnamed : Agrees names env m
      (ScriptMachine.keyAtom key >>= fun name => ScriptMachine.putById base name value none)
      (ScriptMachine.keyAtom key >>= fun name => ScriptMachine.putById base name value none) Any :=
    bind (keyAtom hs key) fun atom m₁ hs₁ _ hk => putById hs₁ base value hk (noSite m₁ atom)
  unfold ScriptMachine.putByVal
  refine look ?_
  rw [objectCell?_uncached]
  cases m.objectCell? base with
  | none => exact hnamed
  | some id =>
    cases key.arrayIndex? with
    | none => exact hnamed
    | some index =>
      refine bind (heapWrite hs _ fun h hh _ =>
        Heap.setIndex_changes ⟨trivial, trivial⟩ trivial hh id index) fun outcome m₁ hs₁ _ _ => ?_
      refine ite (fun _ => ?_) fun _ => ret hs₁ trivial
      obtain ⟨hh, he⟩ := hs₁.heap.intern (indexName index)
      exact bind (heapStep (g := (·.internIndex index)) hs₁ hh he) fun name m₂ hs₂ _ _ =>
        refuseWrite hs₂ name

end Agrees

/-! ### Operations and transcripts -/

/-- What a host does to the properties of a machine. Sites have one name each, so an access through a
site does not say it. -/
inductive Operation where
  /-- Loads a program. -/
  | load (block : Block)
  /-- Reads a property through a site. -/
  | getById (base : Value) (code : CodeId) (index : UInt32)
  /-- Writes a property through a site. -/
  | putById (base value : Value) (code : CodeId) (index : UInt32)
  /-- Reads a global through a site. -/
  | getGlobalById (code : CodeId) (index : UInt32)
  /-- Writes a global through a site. -/
  | putGlobalById (value : Value) (code : CodeId) (index : UInt32)
  /-- Defines a property with attributes. -/
  | defineProperty (object : Value) (name : String) (value : Value) (attributes : Attributes)
  /-- Writes a property, possibly the length of an array. -/
  | setProperty (object : Value) (name : String) (value : Value)
  /-- Writes a computed property, possibly an element of an array. -/
  | putByVal (base key value : Value)
  /-- Deletes a property. -/
  | deleteProperty (object : Value) (name : String)
  /-- Replaces a prototype. -/
  | setPrototype (object prototype : Value)
  /-- Allocates an object. -/
  | newObject
  /-- Allocates an array. -/
  | newArray (elements : Elements)
  /-- Allocates a string. -/
  | newString (text : String)
  /-- Allocates an error. -/
  | newError (kind : ErrorKind) (message : String)
  /-- Collects. -/
  | collectGarbage

/-- What an operation returns. -/
inductive Reply where
  /-- Nothing. -/
  | done
  /-- A value. -/
  | value (v : Value)
  /-- Whether a property was deleted. -/
  | deleted (b : Bool)
  /-- What a collection did. -/
  | collected (summary : CollectionSummary)

/-- Runs an operation, with names for the sites. -/
def Operation.run (names : SiteNames) : Operation → MachineM Reply
  | .load block => .value <$> ScriptMachine.load block
  | .getById base code index => do
    let name ← intern (names code index.toNat)
    .value <$> ScriptMachine.getById base name (some (code, index))
  | .putById base value code index => do
    let name ← intern (names code index.toNat)
    (fun _ => .done) <$> ScriptMachine.putById base name value (some (code, index))
  | .getGlobalById code index => do
    let name ← intern (names code index.toNat)
    .value <$> ScriptMachine.getGlobalById name (some (code, index))
  | .putGlobalById value code index => do
    let name ← intern (names code index.toNat)
    (fun _ => .done) <$> ScriptMachine.putGlobalById name value (some (code, index))
  | .defineProperty object name value attributes =>
    (fun _ => .done) <$> ScriptMachine.defineProperty object name value attributes
  | .setProperty object name value =>
    (fun _ => .done) <$> ScriptMachine.setProperty object name value
  | .putByVal base key value => (fun _ => .done) <$> ScriptMachine.putByVal base key value
  | .deleteProperty object name => .deleted <$> ScriptMachine.deleteProperty object name
  | .setPrototype object prototype =>
    (fun _ => .done) <$> ScriptMachine.setPrototype object prototype
  | .newObject => .value <$> ScriptMachine.newObject
  | .newArray elements => .value <$> ScriptMachine.newArray elements
  | .newString text => .value <$> ScriptMachine.newString text
  | .newError kind message => .value <$> ScriptMachine.newError kind message
  | .collectGarbage => .collected <$> ScriptMachine.collectGarbage

/-- A site whose name has been interned. -/
theorem siteFor {code : CodeId} {index : UInt32} {name : Atom}
    (h : m.heap.atoms.get? (names code index.toNat) = some name) :
    Agrees.SiteFor names m (some (code, index)) name := by
  intro code' index' hsite
  obtain ⟨rfl, rfl⟩ := Prod.mk.inj (Option.some.inj hsite)
  exact h

/-- **Every operation is transparent.** -/
theorem Operation.run_agrees (op : Operation) (hs : m.Sound names) :
    Agrees names env m (op.run names) (op.run names) Agrees.Any := by
  cases op with
  | load block => exact (Agrees.load block hs).map _
  | getById base code index =>
    exact (Agrees.intern hs _).bind fun _ _ hs' _ hk =>
      (Agrees.getById hs' base hk.1 (siteFor hk.2)).map _
  | putById base value code index =>
    exact (Agrees.intern hs _).bind fun _ _ hs' _ hk =>
      (Agrees.putById hs' base value hk.1 (siteFor hk.2)).map _
  | getGlobalById code index =>
    exact (Agrees.intern hs _).bind fun _ _ hs' _ hk =>
      (Agrees.getGlobalById hs' hk.1 (siteFor hk.2)).map _
  | putGlobalById value code index =>
    exact (Agrees.intern hs _).bind fun _ _ hs' _ hk =>
      (Agrees.putGlobalById hs' value hk.1 (siteFor hk.2)).map _
  | defineProperty object name value attributes =>
    exact (Agrees.defineProperty hs object name value attributes).map _
  | setProperty object name value => exact (Agrees.setProperty hs object name value).map _
  | putByVal base key value => exact (Agrees.putByVal hs base key value).map _
  | deleteProperty object name => exact (Agrees.deleteProperty hs object name).map _
  | setPrototype object prototype => exact (Agrees.setPrototype hs object prototype).map _
  | newObject => exact (Agrees.newObject hs).map _
  | newArray elements => exact (Agrees.newArray hs elements).map _
  | newString text => exact (Agrees.newString hs text).map _
  | newError kind message => exact (Agrees.newError hs kind message).map _
  | collectGarbage => exact (Agrees.collect hs).map _

/-- How an action ended. -/
def outcome {α : Type} : EStateM.Result Stop Machine α → Except Stop α
  | .ok a _ => .ok a
  | .error stop _ => .error stop

/-- The machine after some operations; one that fails does not end the sequence. -/
def Machine.after (names : SiteNames) (fuel : Nat) (m : Machine) (ops : List Operation) : Machine :=
  ops.foldl (fun m op => leaves (m.eval fuel (op.run names))) m

/-- What some operations leave behind: how each ended, and the heap after it. -/
def Machine.transcript (names : SiteNames) (fuel : Nat) (m : Machine) :
    List Operation → List (Except Stop Reply × Heap)
  | [] => []
  | op :: ops =>
    let result := m.eval fuel (op.run names)
    (outcome result, (leaves result).heap) :: (leaves result).transcript names fuel ops

/-- The environment of an operation. -/
abbrev environment (fuel : Nat) : Env :=
  { reenter := perform (fun _ _ => false) fuel, fuel, pause := fun _ _ => false }

instance (fuel : Nat) : (environment fuel).Unwatched := ⟨fun _ _ => rfl⟩

theorem Machine.Sound.after (hs : m.Sound names) (fuel : Nat) (ops : List Operation) :
    (m.after names fuel ops).heap.atoms.Extends m.heap.atoms := by
  induction ops generalizing m with
  | nil => exact .refl _
  | cons op ops ih =>
    have hop := @Operation.run_agrees names (environment fuel) _ m op hs
    exact (ih hop.sound).trans hop.atoms

/-- **A sequence of operations is transparent**, as long as names can be told apart. -/
theorem Machine.Sound.transcript (hs : m.Sound names) (fuel : Nat) (ops : List Operation)
    (hfit : (m.after names fuel ops).heap.atoms.Fits) :
    m.uncached.transcript names fuel ops = m.transcript names fuel ops := by
  induction ops generalizing m with
  | nil => rfl
  | cons op ops ih =>
    have hop := @Operation.run_agrees names (environment fuel) _ m op hs
    have hsame : m.uncached.eval fuel (op.run names) =
        uncachedResult (m.eval fuel (op.run names)) :=
      hop.same ((hop.sound.after fuel ops).fits hfit)
    have hleaves : leaves (uncachedResult (m.eval fuel (op.run names))) =
        (leaves (m.eval fuel (op.run names))).uncached := by
      cases m.eval fuel (op.run names) <;> rfl
    have houtcome : outcome (uncachedResult (m.eval fuel (op.run names))) =
        outcome (m.eval fuel (op.run names)) := by
      cases m.eval fuel (op.run names) <;> rfl
    have hrest : (leaves (m.eval fuel (op.run names))).uncached.transcript names fuel ops =
        (leaves (m.eval fuel (op.run names))).transcript names fuel ops := ih hop.sound hfit
    simp only [Machine.transcript, hsame, hleaves, houtcome, heap_uncached, hrest]

/-! ### Fresh machines -/

theorem Machine.new_sound {config : Config} (hm : Machine.new config = .ok m) : m.Sound names := by
  obtain ⟨hanchored, hfounded, heq⟩ := Machine.new_spec hm
  refine ⟨hfounded.coherent, hanchored, by rw [heq], ?_⟩
  intro code entry index cache key e hcode
  rw [heq] at hcode
  cases hcode

/-- A fresh machine without caches is the uncached form of one with caches. -/
theorem Machine.new_uncached (config : Config) :
    Machine.new { config with inlineCaching := false } =
      (Machine.new { config with inlineCaching := true }).map Machine.uncached := by
  unfold Machine.new
  dsimp only
  split
  · simp [Except.map, uncached]
  · rfl

/-- **Property caches are transparent.** A fresh machine with caches and one without are both built or
fail alike, and any sequence of operations, with any names for the sites, gives them the same
transcript. Atoms are 32-bit numbers, so a table with more than `2 ^ 32` names gives one atom to two
names, and is left out. -/
theorem transcript_eq (config : Config) (names : SiteNames) (fuel : Nat) (ops : List Operation) :
    match Machine.new { config with inlineCaching := true },
      Machine.new { config with inlineCaching := false } with
    | .ok m, .ok m' => m.transcript names fuel ops = m'.transcript names fuel ops ∨
        UInt32.size < (m.after names fuel ops).heap.atoms.entries.size
    | .error e, .error e' => e = e'
    | _, _ => False := by
  rw [Machine.new_uncached]
  cases hm : Machine.new { config with inlineCaching := true } with
  | error e => rfl
  | ok m =>
    have hs : m.Sound names := Machine.new_sound hm
    rcases Nat.lt_or_ge UInt32.size (m.after names fuel ops).heap.atoms.entries.size with h | h
    · exact .inr h
    · exact .inl (hs.transcript fuel ops h).symm

end ScriptMachine
