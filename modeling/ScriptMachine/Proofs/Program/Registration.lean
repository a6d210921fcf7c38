import ScriptMachine.Proofs.Machine.Access
import ScriptMachine.Proofs.Progress.Requests
import ScriptMachine.Proofs.Scope.Moving

/-! # What a registration leaves

A block is registered after the functions nested in it, so its code comes last (`Block.Entries`). Strings are
allocated on the way, and any of these allocations may be refused. What was registered so far stays then:
the machine has the first of the entries that a registration to the end adds (`registerCode_enrolls`), and
their constants stay roots (`Machine.Adds.constants`). A program that is refused by its validation changes
nothing, and one whose function cell is refused stays registered (`load_enrolls`). A host function is
registered whether its cell is refused or not (`newHostFunction_enrolls`). -/

namespace ScriptMachine

open Machine

variable {m m' m'' : Machine} {α β : Type} {env : Env} {entries entries' : List CodeEntry}

/-! ### Entries -/

namespace Block

mutual

/-- **What is registered for a block** from a place on, and where its own code is: after that of the
functions nested in it. -/
inductive Entries : Nat → Block → CodeId → List CodeEntry → Prop
  /-- With an atom for each identifier and a value for each constant. -/
  | intro {first : Nat} {block : Block} {atoms : Array Atom} {values : Array Value} {nested : List CodeId}
      {entries : List CodeEntry} : AllEntries first block.functions nested entries →
      atoms.size = block.identifiers.size → values.size = block.constants.size →
      Entries first block ⟨first + entries.length⟩ (entries ++ [.fresh block atoms values nested])

/-- What is registered for blocks one after the other. -/
inductive AllEntries : Nat → List Block → List CodeId → List CodeEntry → Prop
  /-- For no block. -/
  | nil {first : Nat} : AllEntries first [] [] []
  /-- For a block and those after it. -/
  | cons {first : Nat} {block : Block} {blocks : List Block} {code : CodeId} {codes : List CodeId}
      {entries entries' : List CodeEntry} : Entries first block code entries →
      AllEntries (first + entries.length) blocks codes entries' →
      AllEntries first (block :: blocks) (code :: codes) (entries ++ entries')

end

/-- The entry of a block may follow those of the functions nested in it. -/
theorem AllEntries.completes {first : Nat} (block : Block) {nested : List CodeId}
    (h : AllEntries first block.functions nested entries) :
    ∃ code rest, block.Entries first code (entries ++ rest) ∧ rest ≠ [] := by
  have hatoms : (Array.replicate block.identifiers.size (default : Atom)).size = block.identifiers.size :=
    Array.size_replicate
  have hvalues : (Array.replicate block.constants.size Value.undefined).size = block.constants.size :=
    Array.size_replicate
  exact ⟨_, _, .intro h hatoms hvalues, List.cons_ne_nil _ _⟩

mutual

theorem exists_entries (first : Nat) (block : Block) :
    ∃ code entries, block.Entries first code entries := by
  cases block with
  | mk name instructions constants identifiers functions scopeLayouts handlers variableIds
      paramCount varCount registerCount needsActivation propertyCacheCount callCacheCount =>
    obtain ⟨nested, entries, hnested⟩ := exists_allEntries first functions
    obtain ⟨code, rest, hblock, -⟩ := hnested.completes ⟨name, instructions, constants, identifiers,
      functions, scopeLayouts, handlers, variableIds, paramCount, varCount, registerCount,
      needsActivation, propertyCacheCount, callCacheCount⟩
    exact ⟨code, _, hblock⟩

theorem exists_allEntries (first : Nat) (blocks : List Block) :
    ∃ codes entries, AllEntries first blocks codes entries := by
  cases blocks with
  | nil => exact ⟨_, _, .nil⟩
  | cons block blocks =>
    obtain ⟨code, entries, hblock⟩ := exists_entries first block
    obtain ⟨codes, entries', hblocks⟩ := exists_allEntries (first + entries.length) blocks
    exact ⟨_, _, .cons hblock hblocks⟩

end

end Block

/-! ### Additions -/

namespace Machine

/-- **These entries are added** to the code, and the host functions stay. -/
structure Adds (m : Machine) (entries : List CodeEntry) (m' : Machine) : Prop where
  codes : m'.codes.toList.map CodeEntry.fixed = (m.codes.toList ++ entries).map CodeEntry.fixed
  hosts : m'.hosts = m.hosts

theorem Adds.refl (m : Machine) : m.Adds [] m := ⟨by rw [List.append_nil], rfl⟩

theorem Adds.trans (h : m.Adds entries m') (h' : m'.Adds entries' m'') :
    m.Adds (entries ++ entries') m'' where
  codes := by rw [h'.codes, List.map_append, h.codes, ← List.map_append, List.append_assoc]
  hosts := h'.hosts.trans h.hosts

theorem Adds.push (m : Machine) (entry : CodeEntry) :
    m.Adds [entry] { m with codes := m.codes.push entry } := ⟨by simp, rfl⟩

/-- After a registration, nothing is added. -/
theorem Adds.still (h : m.Adds entries m') (h' : m'.Adds [] m'') : m.Adds entries m'' :=
  List.append_nil entries ▸ h.trans h'

theorem Adds.size (h : m.Adds entries m') : m'.codes.size = m.codes.size + entries.length := by
  simpa using congrArg List.length h.codes

theorem Stands.adds (h : m.Calm m') : m.Adds [] m' where
  codes := by simpa using congrArg Array.toList h.codes
  hosts := h.hosts

/-- **The constants that are roots** because their code is registered: those of the entries come last. -/
theorem Adds.constants (h : m.Adds entries m') :
    (m'.codes.toList.flatMap fun entry => entry.constants.toList) =
      (m.codes.toList.flatMap fun entry => entry.constants.toList) ++
        entries.flatMap fun entry => entry.constants.toList := by
  have hfixed (entries : List CodeEntry) : (entries.flatMap fun entry => entry.constants.toList) =
      (entries.map CodeEntry.fixed).flatMap fun entry => entry.constants.toList := by
    rw [List.flatMap_map]
    rfl
  rw [← List.flatMap_append, hfixed, h.codes, ← hfixed]

/-- A collection adds nothing. -/
theorem adds_collect (m : Machine) : m.Adds [] m.collect.2 := by
  obtain ⟨forget, hforget, heq⟩ := collect_frame m
  rw [heq]
  refine ⟨?_, rfl⟩
  have hfixed (entry : CodeEntry) : (forget entry).fixed = entry.fixed := by
    rw [hforget]
    rfl
  simp [hfixed, Function.comp_def]

end Machine

/-! ### Actions that register nothing -/

/-- The action adds nothing, however it ends. -/
def Sparing (x : MachineM α) : Prop := ∀ (env : Env) (m : Machine), m.Adds [] (leaves (x env m))

namespace Sparing

theorem ret (a : α) : Sparing (pure a) := fun _ m => .refl m

theorem fatal (failure : Failure) : Sparing (fatal failure : MachineM α) := fun _ m => .refl m

theorem withHeap (f : Heap → α × Heap) : Sparing (withHeap f) := fun _ m =>
  ⟨by rw [List.append_nil]; rfl, rfl⟩

theorem checkpoint (held : List Value) : Sparing (checkpoint held) := by
  intro env m
  unfold ScriptMachine.checkpoint
  split <;> exact .refl m

theorem bind {x : MachineM α} {g : α → MachineM β} (hx : Sparing x) (hg : ∀ a, Sparing (g a)) :
    Sparing (x >>= g) := by
  intro env m
  have hfirst := hx env m
  cases hr : x env m with
  | ok a m' =>
    rw [hr] at hfirst
    rw [bind_eq_of_ok hr]
    exact hfirst.still (hg a env m')
  | error stop m' =>
    rw [hr] at hfirst
    rwa [bind_eq_of_error hr]

theorem look {g : Machine → MachineM α} (hg : ∀ k, Sparing (g k)) : Sparing (get >>= g) :=
  fun env m => hg m env m

theorem allocate (shape : ShapeId) (payload : Payload) (hexact : payload.Exact) :
    Sparing (allocate shape payload hexact) := by
  have hcell : Sparing (allocateCell shape payload) := by
    refine bind (checkpoint _) fun _ => bind (withHeap _) fun r => ?_
    cases r with
    | ok id => exact ret id
    | error failure => exact fatal failure
  have hcollect : Sparing (discard collectGarbage) := fun _ m => adds_collect m
  refine bind (checkpoint _) fun _ => look fun k => ?_
  dsimp only
  split
  · exact bind hcollect fun _ => hcell
  · exact hcell

theorem constantValue (c : Constant) : Sparing (constantValue c) := by
  cases c with
  | string text => exact look fun _ => bind (allocate _ _ _) fun _ => ret _
  | _ => exact ret _

/-- The cell of a host function. -/
theorem newHostCell (host : HostId) (scope : Option Handle) (name : Option Atom) (arity : UInt32) :
    Sparing (newFunctionCell (.host host) scope name arity) :=
  look fun _ => bind (allocate _ _ _) fun _ => ret _

theorem mapM {f : α → MachineM β} (hf : ∀ a, Sparing (f a)) (items : Array α) :
    Sparing (items.mapM f) := by
  have hlist (items : List α) : Sparing (items.mapM f) := by
    induction items with
    | nil => exact ret _
    | cons a items ih =>
      rw [List.mapM_cons]
      exact bind (hf a) fun _ => bind ih fun _ => ret _
  rw [Array.mapM_eq_mapM_toList, map_eq_pure_bind]
  exact bind (hlist items.toList) fun _ => ret _

end Sparing

/-! ### Registrations -/

/-- **How a registration ends.** If it fails, some of what it adds is missing. -/
def Enrolls (m : Machine) (P : α → List CodeEntry → Prop) : EStateM.Result Stop Machine α → Prop
  | .ok a m' => ∃ entries, P a entries ∧ m.Adds entries m'
  | .error _ m' => ∃ a entries rest, P a (entries ++ rest) ∧ rest ≠ [] ∧ m.Adds entries m'

namespace Enrolls

variable {x : MachineM α} {g : α → MachineM β} {P : α → List CodeEntry → Prop}
  {Q : β → List CodeEntry → Prop}

/-- A registration and what follows it. If it fails, what is missing could have been added. -/
theorem bind (hx : Enrolls m P (x env m))
    (hrest : ∀ a entries, P a entries → ∃ b rest, Q b (entries ++ rest))
    (hg : ∀ a entries m', P a entries → m.Adds entries m' → Enrolls m Q (g a env m')) :
    Enrolls m Q ((x >>= g) env m) := by
  cases hr : x env m with
  | ok a m' =>
    rw [hr] at hx
    rw [bind_eq_of_ok hr]
    obtain ⟨entries, ha, hadds⟩ := hx
    exact hg a entries m' ha hadds
  | error stop m' =>
    rw [hr] at hx
    rw [bind_eq_of_error hr]
    obtain ⟨a, entries, missing, ha, hmissing, hadds⟩ := hx
    obtain ⟨b, rest, hb⟩ := hrest a _ ha
    exact ⟨b, entries, missing ++ rest, List.append_assoc .. ▸ hb, by simp [hmissing], hadds⟩

/-- What registers nothing comes between. -/
theorem pass {y : MachineM β} {h : β → MachineM α} (hadds : m.Adds entries m') (hy : Sparing y)
    (hrest : ∃ a rest, P a (entries ++ rest) ∧ rest ≠ [])
    (hh : ∀ b m'', y env m' = .ok b m'' → m.Adds entries m'' → Enrolls m P (h b env m'')) :
    Enrolls m P ((y >>= h) env m') := by
  have hmid := hy env m'
  cases hr : y env m' with
  | ok b m'' =>
    rw [hr] at hmid
    rw [bind_eq_of_ok hr]
    exact hh b m'' hr (hadds.still hmid)
  | error stop m'' =>
    rw [hr] at hmid
    rw [bind_eq_of_error hr]
    obtain ⟨a, rest, ha, hrest⟩ := hrest
    exact ⟨a, entries, rest, ha, hrest, hadds.still hmid⟩

/-- A registration that follows another one. -/
theorem after (hadds : m.Adds entries m') (hx : Enrolls m' P (x env m')) {f : α → β}
    (hQ : ∀ a entries', P a entries' → Q (f a) (entries ++ entries')) :
    Enrolls m Q ((x >>= fun a => pure (f a)) env m') := by
  cases hr : x env m' with
  | ok a m'' =>
    rw [hr] at hx
    rw [bind_eq_of_ok hr]
    obtain ⟨entries', ha, hadds'⟩ := hx
    exact ⟨_, hQ a entries' ha, hadds.trans hadds'⟩
  | error stop m'' =>
    rw [hr] at hx
    rw [bind_eq_of_error hr]
    obtain ⟨a, entries', rest, ha, hrest, hadds'⟩ := hx
    exact ⟨_, _, rest, List.append_assoc .. ▸ hQ a _ ha, hrest, hadds.trans hadds'⟩

end Enrolls

/-- One result for each item. -/
theorem size_mapM {f : α → MachineM β} (items : Array α) {results : Array β}
    (h : items.mapM f env m = .ok results m') : results.size = items.size := by
  have hlist (items : List α) {results : List β} {m m' : Machine}
      (h : items.mapM f env m = .ok results m') : results.length = items.length := by
    induction items generalizing m results with
    | nil =>
      cases h
      rfl
    | cons a items ih =>
      rw [List.mapM_cons] at h
      obtain ⟨b, m₁, -, h⟩ := ok_of_bind h
      obtain ⟨bs, m₂, hbs, h⟩ := ok_of_bind h
      cases h
      simp [ih hbs]
  rw [Array.mapM_eq_mapM_toList, map_eq_pure_bind] at h
  obtain ⟨bs, m₁, hbs, h⟩ := ok_of_bind h
  cases h
  simpa using hlist items.toList hbs

mutual

/-- **The registration of a block**: entries for the functions nested in it and then its own, or the first
of these if it fails. -/
theorem registerCode_enrolls (block : Block) (env : Env) (m : Machine) :
    Enrolls m (block.Entries m.codes.size) (registerCode block env m) := by
  cases block with
  | mk name instructions constants identifiers functions scopeLayouts handlers variableIds
      paramCount varCount registerCount needsActivation propertyCacheCount callCacheCount =>
    unfold registerCode
    let block : Block := ⟨name, instructions, constants, identifiers, functions, scopeLayouts, handlers,
      variableIds, paramCount, varCount, registerCount, needsActivation, propertyCacheCount, callCacheCount⟩
    refine Enrolls.bind (registerAll_enrolls functions env m) (fun nested entries hnested => ?_)
      fun nested entries m₁ hnested hadds₁ => ?_
    · obtain ⟨code, rest, hentries, -⟩ := hnested.completes block
      exact ⟨code, rest, hentries⟩
    have hrest := hnested.completes block
    refine Enrolls.pass hadds₁ (.mapM (fun _ => .withHeap _) identifiers) hrest
      fun atoms m₂ hatoms hadds₂ => ?_
    refine Enrolls.pass hadds₂ (.mapM .constantValue constants) hrest fun values m₃ hvalues hadds₃ => ?_
    refine Enrolls.pass hadds₃ (.checkpoint _) hrest fun _ m₄ _ hadds₄ => ?_
    have hentries : block.Entries m.codes.size ⟨m.codes.size + entries.length⟩
        (entries ++ [.fresh block atoms values nested]) :=
      .intro hnested (size_mapM identifiers hatoms) (size_mapM constants hvalues)
    rw [← hadds₄.size] at hentries
    exact ⟨_, hentries, hadds₄.trans (.push m₄ _)⟩

theorem registerAll_enrolls (blocks : List Block) (env : Env) (m : Machine) :
    Enrolls m (Block.AllEntries m.codes.size blocks) (registerAll blocks env m) := by
  cases blocks with
  | nil => exact ⟨[], .nil, .refl m⟩
  | cons block blocks =>
    unfold registerAll
    refine Enrolls.bind (registerCode_enrolls block env m) (fun code entries hblock => ?_)
      fun code entries m₁ hblock hadds₁ => ?_
    · obtain ⟨codes, entries', hblocks⟩ := Block.exists_allEntries (m.codes.size + entries.length) blocks
      exact ⟨_, _, .cons hblock hblocks⟩
    · refine Enrolls.after hadds₁ (registerAll_enrolls blocks env m₁) fun codes entries' hblocks => ?_
      rw [hadds₁.size] at hblocks
      exact .cons hblock hblocks

end

/-- **Loading a program** registers it. If that fails, the block is invalid and nothing has changed, or
memory has ended and some of the entries are missing, or all are there and the function cell is not. -/
theorem load_enrolls (he : env.Faithful) (hm : m.Intact) (block : Block) :
    Concludes (fun _ m' => ∃ code entries, block.Entries m.codes.size code entries ∧ m.Adds entries m')
      (fun _ m' => (∃ defect, block.validate = .error defect) ∧ m' = m ∨
        ∃ code entries rest, block.Entries m.codes.size code (entries ++ rest) ∧ m.Adds entries m')
      (load block env m) := by
  unfold load
  cases hvalid : block.validate with
  | error defect => exact .inl ⟨⟨defect, rfl⟩, rfl⟩
  | ok _ =>
    have hb := (Block.validate_eq_ok_iff block).mp hvalid
    have hgoes := Goes.registerCode he hm block hb
    have hintact := hgoes.intact
    have hends := hgoes.ends
    have henters := registerCode_enrolls block env m
    dsimp only
    cases hr : registerCode block env m with
    | error stop m₁ =>
      rw [hr] at henters
      rw [bind_eq_of_error hr]
      obtain ⟨code, entries, rest, hentries, -, hadds⟩ := henters
      cases stop with
      | unwound u => exact .inr ⟨code, entries, rest, hentries, hadds⟩
      | exhausted | paused _ => trivial
    | ok code m₁ =>
      rw [hr] at henters hintact hends
      rw [bind_eq_of_ok hr]
      obtain ⟨entries, hentries, hadds⟩ := henters
      have hcell : Goes m₁ ((do
            let name ← internOption block.name
            return .cell (← newFunctionCell (.script code) none name block.paramCount) :
            MachineM Value) env m₁) (fun _ m' => m₁.Calm m') fun _ m' => m₁.Calm m' := by
        refine .bind ((Calmly.internOption block.name env m₁ he hintact).mono (fun _ _ _ h => h)
          fun _ _ _ h => h.1.calm) fun name m₂ hm₂ hq₂ => ?_
        have hk : m₂.Knows (.script code) := hq₂.calm.knows hends.2
        refine .bind ((Goes.newFunctionCell he hm₂ hk (.inl rfl) name block.paramCount).mono
          (fun _ _ _ h => h) fun _ _ _ h => Stands.calm hq₂.calm h.1) fun _ m₃ hm₃ hc₃ => ?_
        exact .ret hm₃ (Stands.calm hq₂.calm hc₃)
      refine (hcell.mono (fun _ m' _ hc => ?_) fun _ m' _ hc => ?_).ends
      · exact ⟨code, entries, hentries, hadds.still hc.adds⟩
      · exact .inr ⟨code, entries, [], (List.append_nil entries).symm ▸ hentries, hadds.still hc.adds⟩

/-- **A host function** is registered, whether its cell is allocated or not. -/
theorem newHostFunction_enrolls (name : String) (arity : UInt32) (run : HostFunction) (env : Env)
    (m : Machine) : (leaves (newHostFunction name arity run env m)).hosts =
        m.hosts.push { name := (m.heap.intern name).1, arity, run } ∧
      (leaves (newHostFunction name arity run env m)).codes.toList.map CodeEntry.fixed =
        m.codes.toList.map CodeEntry.fixed := by
  let added : Machine := { m with
    heap := (m.heap.intern name).2
    hosts := m.hosts.push { name := (m.heap.intern name).1, arity, run } }
  have hcell : Sparing (do
      return .cell (← newFunctionCell (.host ⟨m.hosts.size⟩) none (some (m.heap.intern name).1) arity) :
        MachineM Value) := .bind (.newHostCell _ _ _ _) fun _ => .ret _
  obtain ⟨hcodes, hhosts⟩ := hcell env added
  rw [List.append_nil] at hcodes
  exact ⟨hhosts, hcodes⟩

end ScriptMachine
