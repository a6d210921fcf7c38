import ScriptMachine.Proofs.Failure.Raising
import ScriptMachine.Proofs.Safety.Dangling
import ScriptMachine.Proofs.Scope.Moving

/-! # Names resolve to the innermost binding

For a frame whose scope chain is in order, a name has the value of its innermost binding, and one without a
binding is a reference error; closing block scopes leaves the record of the variables and the captured records
alone; and names mean the same before and after the variables move (`Machine.Resolves`). The scope chains of the
machines that a host can get at are in order, as long as no host asks for variables to be moved inside a block
scope (`names_resolve_innermost`).

There is no reference error where the prototypes of the global object lie in a circle: a name that none of them
has is looked for without end, and nothing else ever comes of it. Programs lay prototypes in no circle; only a
host may have done so. -/

namespace ScriptMachine

open Machine

variable {m m' : Machine} {f : Frame} {blocks outer : List Handle} {env : Env}

namespace Machine

namespace Scopes

/-- **Closing a block scope** takes away its record, and no other. -/
theorem popScope (hs : m.Scopes f blocks outer) (hf : m.frame? = some f) :
    ∃ f', m.popScope.frame? = some f' ∧ f'.activation = f.activation ∧
      m.popScope.Scopes f' (blocks.drop 1) outer := by
  by_cases hd : f.scopeDepth = 0
  · obtain rfl : blocks = [] := List.eq_nil_of_length_eq_zero (by rw [hs.depth, hd]; rfl)
    rw [popScope_of_zero hf hd]
    exact ⟨f, hf, rfl, hs⟩
  · have hclosed : Scopes (m.modifyFrame m.closeScope) _ _ _ := (hs.leaves (sub_one_le hd) f.pc).congr rfl
    have hone : f.scopeDepth.toNat - (f.scopeDepth - 1).toNat = 1 := by
      have hpos : f.scopeDepth.toNat ≠ 0 := fun h => hd (UInt32.toNat_inj.mp h)
      rw [toNat_sub_one hd]
      omega
    rw [hone] at hclosed
    rw [popScope_eq hf hd]
    refine ⟨m.closeScope f, frame?_modifyFrame hf, rfl, ?_⟩
    rw [closeScope_eq hd]
    exact hclosed

/-- **At a handler** the block scopes are open that it expects, if there are so many, and none but records of block
scopes were taken away. -/
theorem resumed (hs : m.Scopes f blocks outer) (handler : Handler) :
    m.Scopes (f.resumed m.heap handler) (blocks.drop (blocks.length - handler.scopeDepth.toNat)) outer := by
  have hleft := hs.leaves (min_le_left f.scopeDepth handler.scopeDepth) handler.target
  rw [resumed_eq]
  have hcount : f.scopeDepth.toNat - (min f.scopeDepth handler.scopeDepth).toNat =
      blocks.length - handler.scopeDepth.toNat := by
    rw [hs.depth, UInt32.toNat_min]
    omega
  rwa [hcount] at hleft

end Scopes

/-- **Names resolve to the innermost binding** in the running frame with such a scope chain. -/
structure Resolves (m : Machine) (f : Frame) (blocks outer : List Handle) : Prop where
  /-- Closing a block scope takes away its record, and no other. -/
  popped : ∃ f', m.popScope.frame? = some f' ∧ f'.activation = f.activation ∧
    m.popScope.Scopes f' (blocks.drop 1) outer
  /-- At a handler the innermost block scopes have been closed, as many as the handler does not expect, and
  nothing else. -/
  handled : ∀ env v target m', enterHandler v env m = .ok (some target) m' → ∃ handler f',
    f.handler? m = some handler ∧ m'.frame? = some f' ∧ f'.activation = f.activation ∧
      m'.Scopes f' (blocks.drop (blocks.length - handler.scopeDepth.toNat)) outer
  /-- A name that is bound has the value of its binding. -/
  bound : m.Fits → ∀ name env b, m.binding? f blocks outer name = some b →
    resolveName name env m = .ok (m.valueAt name b) m
  /-- A name that is not bound is a reference error, which is thrown unless there is no memory for it. -/
  unbound : m.Fits → ∀ name env, m.binding? f blocks outer name = none → ¬m.Endless name →
    resolveName name env m = raiseError .referenceError (m.atomName name ++ " is not defined") env m ∧
      (∀ v m', resolveName name env m ≠ .ok v m') ∧
      (env.Faithful → Goes m (resolveName name env m) (fun _ _ => False)
        fun u m' => m'.heap.Roomy → u.Erring)
  /-- Where it is looked for without end, resolving it never ends. -/
  endless : m.Fits → ∀ name env, m.binding? f blocks outer name = none → m.Endless name →
    resolveName name env m = .error .exhausted m
  /-- A location in a scope record is that of the variable that the name is bound to: it is the one that is read
  and written there. -/
  placed : m.Fits → ∀ name depth index, m.search? name = some (some (.scope depth index)) →
    ∃ id, m.binding? f blocks outer name = some (.slot id index) ∧
      m.scopedVar depth.toUInt32 index.toUInt32 = m.scopeSlot id index ∧
      ∀ v, m.setScopedVar depth.toUInt32 index.toUInt32 v = m.setScopeSlot id index v
  /-- A register is that of the variable of the frame that the name is bound to. -/
  registered : m.Fits → ∀ name r, m.search? name = some (some (.register r)) →
    m.binding? f blocks outer name = some (.own r.toNat)
  /-- Names mean the same after the variables have moved, on request while no block scope is open. -/
  moved : ∀ env a m', (f.activation = none → f.scopeDepth = 0) → tearOffActivation env m = .ok a m' →
    m'.heap.Roomy → ∃ f', f'.activation = some a ∧ m.Remains f blocks outer m' f'
  /-- They also do when the code asks for it. -/
  needed : ∀ env u m', tearOffIfNeeded env m = .ok u m' → m'.heap.Roomy →
    ∃ f', m.Remains f blocks outer m' f'

/-- **In a frame whose scope chain is in order**, names resolve to the innermost binding. -/
theorem Scopes.resolves (hs : m.Scopes f blocks outer) (hm : m.Intact) (hsheltered : m.Sheltered)
    (hr : m.heap.Roomy) (hf : m.frame? = some f) : m.Resolves f blocks outer where
  popped := hs.popScope hf
  handled env v target m' h := by
    rw [enterHandler_eq hf] at h
    cases hhandler : f.handler? m with
    | none =>
      rw [hhandler] at h
      cases h
    | some handler =>
      rw [hhandler] at h
      obtain ⟨-, rfl⟩ := EStateM.Result.ok.inj h
      have hframe := frame?_modifyFrame (g := (·.resumed m.heap handler)) hf
      exact ⟨handler, f.resumed m.heap handler, rfl, hframe, rfl, (hs.resumed handler).congr rfl⟩
  bound hfits name env b hb := (hs.resolveName hf hr hfits name env).1 b hb
  unbound hfits name env hb hends := by
    rw [((hs.resolveName hf hr hfits name env).2 hb).1 hends]
    exact ⟨rfl, Fails.raiseError _ _ env m, fun he => Goes.raiseError_throws he hm _ _⟩
  endless hfits name env hb hendless := ((hs.resolveName hf hr hfits name env).2 hb).2 hendless
  placed hfits name depth index h := hs.placed hf hr hfits h
  registered hfits name r h := hs.registered hf hfits h
  moved env a m' hclosed h hr' := hs.tearOffActivation hsheltered hf hclosed h hr'
  needed env u m' h hr' := hs.tearOffIfNeeded hsheltered hf h hr'

end Machine

/-! ### The result -/

/-- **Names resolve to the innermost binding.** The machines that a host can get at, also in the middle of a run, are
intact and their scope chains are in order, as long as no host asks for variables to be moved inside a block
scope, or gives up the root of the global object, which it was never given. So the chain of each frame is made of
a record for each of its open block scopes, innermost first, the record of its variables if they have moved, and
what its function captured; and in the running frame names resolve to the innermost binding, and the others are
reference errors unless they are looked for without end. None is where prototypes lie in no circle, and so none is
in any machine in which only programs have run, with or without a compiler, wherever it is stopped. -/
theorem names_resolve_innermost :
    (∀ m : Machine, m.Undisturbed → m.Intact ∧ m.Sheltered) ∧
    (∀ m : Machine, m.Intact → m.Sheltered → m.heap.Roomy →
      (∀ f ∈ m.frames, ∃ blocks outer, m.Scopes f blocks outer) ∧
      ∀ f blocks outer, m.frame? = some f → m.Scopes f blocks outer → m.Resolves f blocks outer) ∧
    (∀ m : Machine, m.heap.Acyclic → ∀ name, ¬m.Endless name) ∧
    ∀ config m, Machine.new config = .ok m → ∀ (tier : Bool) earlier block pause fuel,
      let k := leaves ((if tier then m.installTier else m).evalPausing pause fuel (runPrograms earlier block))
      k.Addressable → k.heap.Acyclic ∧ ∀ name, ¬k.Endless name :=
  ⟨fun _ hm => ⟨hm.visited.intact, hm.sheltered⟩, fun _ hm hsheltered hr =>
    ⟨hsheltered.frames hr, fun _ _ _ hf hs => hs.resolves hm hsheltered hr hf⟩, fun _ => not_endless,
    fun _ _ hm tier earlier block pause fuel ha =>
      have hacyclic := acyclic_programs hm tier earlier block pause fuel ha
      ⟨hacyclic, not_endless hacyclic⟩⟩

/-- The shape of scope records. -/
def recordShapes : ShapeTable where
  shapes := #[{ kind := .activation, prototype := .null }]
  roots := Std.HashMap.insert {} (.activation, .null) ⟨0⟩

/-- A global object, a scope record with two variables, and a function that captured it. -/
def nestedHeap : Heap :=
  let h : Heap := { Heap.new {} with shapes := recordShapes, roots := #[some (.cell ⟨0, 0⟩)] }
  let h := (h.allocate ⟨0⟩ .plain).2
  let h := (h.allocate ⟨0⟩ (.activation
    { slots := #[.boolean true, .boolean false], names := #[⟨7⟩, ⟨8⟩], parent := none })).2
  (h.allocate ⟨0⟩ (.function { target := .script ⟨0⟩, scope := some ⟨1, 0⟩, name := none, arity := 1 })).2

/-- A call of the function, with null. -/
def nestedFrame : Frame :=
  { (capturing.frames.getD 0 default) with callee := .cell ⟨2, 0⟩, scope := some ⟨1, 0⟩ }

/-- The function is called; its parameter has the name of the first captured variable. -/
def nested : Machine := { capturing with heap := nestedHeap, frames := #[nestedFrame] }

theorem cells_nested {id : Handle} {c : Cell} (hc : nested.heap.cell? id = some c) :
    c.payload = .function { target := .script ⟨0⟩, scope := some ⟨1, 0⟩, name := none, arity := 1 } ∨
    c.payload = .activation { slots := #[.boolean true, .boolean false], names := #[⟨7⟩, ⟨8⟩], parent := none } ∨
    c.payload = .plain := by
  rcases Heap.cell?_allocate_cases hc with hold | hnew
  · rcases Heap.cell?_allocate_cases hold with hold | hnew
    · rcases Heap.cell?_allocate_cases hold with hold | hnew
      · simp [Heap.new, Heap.cell?] at hold
      · exact .inr (.inr hnew)
    · exact .inr (.inl hnew)
  · exact .inl hnew

theorem intact_nested : nested.Intact := by
  have hempty : Heap.Built { Heap.new {} with shapes := recordShapes, roots := #[some (.cell ⟨0, 0⟩)] } :=
    .other (.new {}) rfl rfl rfl rfl
  have hheap : nestedHeap.Regular := (Heap.Built.allocate _ _ (.allocate _ _ (.allocate _ _ hempty
    fun _ => by decide) fun _ => by decide) fun _ => by decide).regular
  have hanchors : nested.Anchors (some ⟨1, 0⟩) := by
    rintro - id h
    obtain rfl := Option.some.inj h
    exact Option.isSome_iff_exists.mp (by decide +kernel)
  refine ⟨hheap.white, fun _ => hheap.listed, fun id c hc => ?_, fun f hf => ?_, fun entry hentry => ?_⟩
  · rcases cells_nested hc with hp | hp | hp
    · rw [hp]
      exact ⟨Nat.zero_lt_one, hanchors⟩
    · rw [hp]
      exact fun _ _ h => by cases h
    · rw [hp]
      trivial
  · obtain rfl := List.mem_singleton.mp (Array.mem_def.mp hf)
    exact ⟨Nat.zero_lt_one, hanchors, (fun _ _ h => by cases h), .zero _ _⟩
  · obtain rfl := List.mem_singleton.mp (Array.mem_def.mp hentry)
    exact complete_fresh (Block.checkOwn_eq_ok_iff.mp (by decide)) rfl rfl rfl (by simp)

theorem scopes_nested : nested.Scopes nestedFrame [] [⟨1, 0⟩] := by
  have hcaptured : nested.captured nestedFrame = some ⟨1, 0⟩ := by decide +kernel
  have hline : nested.heap.Line [⟨1, 0⟩] (some ⟨1, 0⟩) := ⟨rfl, none, by decide +kernel, rfl⟩
  exact ⟨rfl, hcaptured ▸ hline, hline⟩

theorem rooted_nested : nested.Rooted where
  listed := Heap.exists_rooted (fun _ h => by cases h) List.nodup_nil
  global := by decide +kernel
  issued := issued_of_live (by decide +kernel)
  shape := by
    refine ⟨{ kind := .activation, prototype := .null }, ⟨?_, List.not_mem_nil, rfl, rfl⟩, rfl, rfl⟩
    have hshapes : nestedHeap.shapes = recordShapes := by
      unfold nestedHeap
      rw [(Heap.allocate_frame _ _ _).1, (Heap.allocate_frame _ _ _).1, (Heap.allocate_frame _ _ _).1]
    change nestedHeap.shapes.roots[(CellKind.activation, Value.null)]? = some ⟨0⟩
    rw [hshapes]
    exact Std.HashMap.getElem?_insert_self

theorem sheltered_nested : nested.Sheltered := by
  have hintact := intact_nested
  have hframe {f : Frame} (hf : f ∈ nested.frames) : f = nestedFrame := List.mem_singleton.mp (Array.mem_def.mp hf)
  have hlive : nested.heap.isLive ⟨2, 0⟩ = true := by decide +kernel
  refine ⟨⟨hintact.white, hintact.listed, ?_, fun id c hc data name hp hname => ?_, fun v hv => ?_,
    fun entry hentry cache hcache callee target hmem => ?_⟩, hintact.registered, rooted_nested,
    fun f hf hd => ?_, fun _ id data hd => ?_, fun _ f hf => ?_⟩
  · have hatoms : nestedHeap.atoms = {} := by
      unfold nestedHeap
      rw [(Heap.allocate_frame _ _ _).2.1, (Heap.allocate_frame _ _ _).2.1, (Heap.allocate_frame _ _ _).2.1]
      rfl
    change nestedHeap.atoms.Ordered
    rw [hatoms]
    exact .empty
  · rcases cells_nested hc with hc | hc | hc
    all_goals
      rw [hc] at hp
      cases hp
    cases hname
  · obtain ⟨f, hf, rfl⟩ := List.mem_map.mp hv
    obtain rfl := hframe (Array.mem_toList_iff.mp (List.mem_reverse.mp hf))
    exact ⟨⟨2, 0⟩, rfl, issued_of_live hlive⟩
  · -- the code has no call sites
    obtain rfl := List.mem_singleton.mp (Array.mem_def.mp hentry)
    cases Array.mem_def.mp hcache
  · obtain rfl := hframe hf
    exact absurd rfl hd
  · obtain ⟨c, hc, hp⟩ := Heap.function?_eq_some.mp hd
    rcases cells_nested hc with hc | hc | hc
    all_goals
      rw [hc] at hp
      cases hp
    exact ⟨_, scopes_nested.line⟩
  · obtain rfl := hframe hf
    exact ⟨_, _, scopes_nested⟩

theorem fits_nested : nested.Fits where
  records id record hrecord := by
    obtain ⟨c, room, hc, hp⟩ := scopeRecord?_eq_some.mp hrecord
    rcases cells_nested hc with hc | hc | hc
    all_goals
      rw [hc] at hp
      cases hp
    decide
  codes entry hentry := by
    obtain rfl := List.mem_singleton.mp (Array.mem_def.mp hentry)
    decide +kernel

/-- The parameter of the function hides the captured variable of the same name, and the other captured variable is
found, one link further up once the parameter has moved to the heap. -/
theorem names_resolve_innermost_nested :
    let env : Env := { reenter := perform (fun _ _ => false) 0, fuel := 0, pause := fun _ _ => false }
    ∃ (a : Handle) (m' : Machine), nested.Intact ∧ nested.Sheltered ∧ nested.heap.Roomy ∧ nested.Fits ∧
      nested.frame? = some nestedFrame ∧ nested.Scopes nestedFrame [] [⟨1, 0⟩] ∧
      tearOffActivation env nested = .ok a m' ∧
      (nested.search? ⟨7⟩ = some (some (.register 0)) ∧ resolveName ⟨7⟩ env nested = .ok .null nested) ∧
      (nested.search? ⟨8⟩ = some (some (.scope 0 1)) ∧
        resolveName ⟨8⟩ env nested = .ok (.boolean false) nested) ∧
      (m'.search? ⟨7⟩ = some (some (.register 0)) ∧ resolveName ⟨7⟩ env m' = .ok .null m') ∧
      (m'.search? ⟨8⟩ = some (some (.scope 1 1)) ∧ resolveName ⟨8⟩ env m' = .ok (.boolean false) m') ∧
      resolveName ⟨9⟩ env nested =
        raiseError .referenceError (nested.atomName ⟨9⟩ ++ " is not defined") env nested := by
  intro env
  have hroomy : nested.heap.Roomy := show nested.heap.slots.size < 2 ^ 32 by decide +kernel
  have hresolves : nested.Resolves nestedFrame [] [⟨1, 0⟩] :=
    (names_resolve_innermost.2.1 nested intact_nested sheltered_nested hroomy).2 _ _ _ rfl scopes_nested
  have hr := eq_of_result? (show result? (tearOffActivation env nested) = some ⟨3, 0⟩ by decide +kernel)
  let m' := leaves (tearOffActivation env nested)
  obtain ⟨f', -, hremains⟩ := hresolves.moved env _ m' (fun _ => rfl) hr
    (show m'.heap.slots.size < 2 ^ 32 by decide +kernel)
  have hseven : nested.binding? nestedFrame [] [⟨1, 0⟩] ⟨7⟩ = some (.own 0) := by decide +kernel
  have height : nested.binding? nestedFrame [] [⟨1, 0⟩] ⟨8⟩ = some (.slot ⟨1, 0⟩ 1) := by decide +kernel
  have hnine : nested.binding? nestedFrame [] [⟨1, 0⟩] ⟨9⟩ = none := by decide +kernel
  have hends : nested.heap.hasProperty? nested.intrinsics.global ⟨9⟩ = some false := by decide +kernel
  have hnull : resolveName ⟨7⟩ env nested = .ok .null nested := hresolves.bound fits_nested _ env _ hseven
  have hfalse : resolveName ⟨8⟩ env nested = .ok (.boolean false) nested :=
    (hresolves.bound fits_nested _ env _ height).trans (congrArg (EStateM.Result.ok · nested) (by decide +kernel))
  refine ⟨_, m', intact_nested, sheltered_nested, hroomy, fits_nested, rfl, scopes_nested, hr,
    ⟨by decide +kernel, hnull⟩, ⟨by decide +kernel, hfalse⟩, ⟨by decide +kernel, ?_⟩, ⟨by decide +kernel, ?_⟩,
    (hresolves.unbound fits_nested _ env hnine fun h => by cases (endless_iff.mp h).symm.trans hends).1⟩
  · exact (hremains.resolved fits_nested _ env _).mpr hnull
  · exact (hremains.resolved fits_nested _ env _).mpr hfalse

end ScriptMachine
