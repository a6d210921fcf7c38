import ScriptMachine.Proofs.Safety.Dangling
import ScriptMachine.Proofs.Stack.Requests
import ScriptMachine.Proofs.Tandem.Interpreter

/-! # Programs of two runs

A program whose instructions name one property at each site is registered alike in twin machines, since
its names get the same atoms there; so it runs alike (`Meets.runProgram`). Nested activities have less
fuel, and are in tandem by induction on the fuel (`tandem_perform`). -/

namespace ScriptMachine

open Machine

variable {ρ ρ' : Pairing} {m m' k k' : Machine} {env env' : Env}

/-- **One name at each site**: the instructions of a block that share a property site look up the same
name, and so do those of the functions in it. -/
inductive Block.SitesAgree : Block → Prop
  | block {b : Block} :
      (∀ i ∈ b.instructions, ∀ j ∈ b.instructions, ∀ site x y, i.opcode.propertySite? = some (site, x) →
        j.opcode.propertySite? = some (site, y) → b.identifiers[x.toNat]? = b.identifiers[y.toNat]?) →
      (∀ f ∈ b.functions, SitesAgree f) → SitesAgree b

/-- Names that were interned one after the other have one atom each. -/
theorem CodeEntry.Lawful.interned {entry : CodeEntry} {b : Block} {t : AtomTable} (hb : b.SitesAgree)
    (hinstructions : entry.block.instructions = b.instructions)
    (hatoms : List.Forall₂ (fun text a => t.get? text = some a) b.identifiers.toList entry.atoms.toList)
    (hcompiled : entry.compiled = none) : entry.Lawful := by
  have htext {i : Nat} {a : Atom} (h : entry.atoms[i]? = some a) :
      ∃ text, b.identifiers[i]? = some text ∧ t.get? text = some a := by
    have hrel := (Aligned.ofList (r := fun text a => t.get? text = some a) hatoms) i
    simp only [Array.toArray_toList] at hrel
    rw [h] at hrel
    rcases Option.rel_iff.mp hrel with ⟨-, h⟩ | ⟨text, a', htext, ha, hget⟩
    · cases h
    · obtain rfl := Option.some.inj ha
      exact ⟨text, htext, hget⟩
  refine ⟨?_, fun l h => ?_⟩
  · rintro index name name' ⟨i, hi, site, x, hx, rfl, hname⟩ ⟨j, hj, site', y, hy, hsite, hname'⟩
    obtain rfl := UInt32.toNat_inj.mp hsite
    rw [hinstructions] at hi hj
    cases hb with
    | block hsites _ =>
      obtain ⟨text, ht, hget⟩ := htext hname
      obtain ⟨text', ht', hget'⟩ := htext hname'
      rw [hsites i hi j hj _ x y hx hy, ht'] at ht
      obtain rfl := Option.some.inj ht
      exact Option.some.inj (hget.symm.trans hget')
  · rw [hcompiled] at h
    cases h

namespace Machine.Twins

/-- **New code** in both machines. -/
theorem pushCode (ht : m.Twins ρ m') {entry entry' : CodeEntry} {sites calls : Nat}
    (hs : Safe { m with codes := m.codes.push entry })
    (hs' : Safe { m' with codes := m'.codes.push entry' }) (he : entry.Twins ρ entry')
    (hnew : entry.caches = .new sites calls) (hnew' : entry'.caches = .new sites calls) :
    Twins ρ { m with codes := m.codes.push entry } { m' with codes := m'.codes.push entry' } := by
  have hnamed {m : Machine} {entry : CodeEntry} (hr : m.Remembers m.SiteNamed)
      (hnew : entry.caches = .new sites calls) :
      Remembers { m with codes := m.codes.push entry }
        (SiteNamed { m with codes := m.codes.push entry }) := by
    refine (hr.pushCode hnew).mono fun code index name hn => hn.codes fun e hcode => ⟨e, ?_, rfl, rfl⟩
    have hlt := (Array.getElem?_eq_some_iff.mp hcode).1
    unfold Machine.code? at hcode ⊢
    rw [Array.getElem?_push, if_neg (Nat.ne_of_lt hlt), hcode]
  have hknown {m : Machine} {entry : CodeEntry} {ids : List Handle} (hr : m.Recognizes ids)
      (hnew : entry.caches = .new sites calls) :
      Recognizes { m with codes := m.codes.push entry } ids := by
    intro e he cache hcache callee target hmem
    rcases Array.mem_push.mp he with he | rfl
    · exact hr e he cache hcache callee target hmem
    · -- the call sites of new code remember nothing
      rw [hnew] at hcache
      rw [(Array.mem_replicate.mp hcache).2] at hmem
      cases hmem
  exact { ht with
    safe := hs, safe' := hs'
    recalled := hnamed ht.recalled hnew
    recalled' := hnamed ht.recalled' hnew'
    known := hknown ht.known hnew
    known' := hknown ht.known' hnew'
    calm := ⟨ht.calm.interrupt, ht.calm.limit, ht.calm.parked⟩
    calm' := ⟨ht.calm'.interrupt, ht.calm'.limit, ht.calm'.parked⟩
    codes := ht.codes.push he }

/-- Another level of nesting. -/
theorem renest (ht : m.Twins ρ m') (depth depth' : Nat) {watchdog watchdog' : Watchdog}
    (hw : watchdog.limit = none) (hw' : watchdog'.limit = none) :
    Twins ρ { m with reentryDepth := depth, watchdog }
      { m' with reentryDepth := depth', watchdog := watchdog' } := by
  have hsafe {m : Machine} (hs : m.Safe) (reentryDepth : Nat) (watchdog : Watchdog) :
      Safe { m with reentryDepth, watchdog } :=
    hs.rehold rfl rfl rfl rfl rfl rfl hs.parked (fun _ hv => hs.holds_root hv) fun _ hv =>
      hs.holds_word hv
  exact { ht with
    safe := hsafe ht.safe depth watchdog
    safe' := hsafe ht.safe' depth' watchdog'
    recalled := Remembers.rest (k := { m with reentryDepth := depth, watchdog }) ht.recalled rfl (.refl _)
    recalled' := Remembers.rest (k := { m' with reentryDepth := depth', watchdog := watchdog' })
      ht.recalled' rfl (.refl _)
    calm := ⟨ht.calm.interrupt, hw, ht.calm.parked⟩
    calm' := ⟨ht.calm'.interrupt, hw', ht.calm'.parked⟩ }

end Machine.Twins

namespace Meets

/-! ### Registered code -/

/-- **Names** get the same atoms. -/
theorem internAll (ht : m.Twins ρ m') (names : Array String) :
    Meets ρ (fun _ as k bs _ => bs = as ∧ (∀ a ∈ as, k.heap.atoms.Knows a) ∧
        List.Forall₂ (fun text a => k.heap.atoms.get? text = some a) names.toList as.toList)
      (names.mapM ScriptMachine.intern env m) (names.mapM ScriptMachine.intern env' m') := by
  have hlist (names : List String) {m m' : Machine} {ρ : Pairing} (ht : m.Twins ρ m') :
      Meets ρ (fun _ as k bs _ => bs = as ∧ m.Grows k ∧ (∀ a ∈ as, k.heap.atoms.Knows a) ∧
          List.Forall₂ (fun text a => k.heap.atoms.get? text = some a) names as)
        (names.mapM ScriptMachine.intern env m) (names.mapM ScriptMachine.intern env' m') := by
    induction names generalizing m m' ρ with
    | nil => exact ret ht ⟨rfl, .refl m, List.forall_mem_nil _, List.Forall₂.nil⟩
    | cons text names ih =>
      rw [List.mapM_cons]
      obtain ⟨hordered, hextends, hget⟩ := AtomTable.intern_spec ht.safe.heap.atoms text
      refine bind ((intern ht text).alsoLeft (P := fun a _ => a = (m.heap.intern text).1)
        fun h => (EStateM.Result.ok.inj h).1.symm) ?_
      rintro ρ₁ _ k a _ - hk ⟨⟨rfl, hknows, hheap, -⟩, ha⟩
      have hkg : m.Grows k := by
        rw [hheap]
        exact ⟨Nat.le_refl _, hextends⟩
      have hfound : k.heap.atoms.get? text = some a := by
        rw [hheap, ha]
        exact hget
      refine bind (ih hk) ?_
      rintro ρ₂ _ n as n' - hn ⟨rfl, hg, hall, has⟩
      refine ret hn ⟨rfl, hkg.trans hg, ?_, .cons ?_ has⟩
      · exact List.forall_mem_cons.mpr ⟨hg.atoms.knows hknows, hall⟩
      · exact hg.atoms.get? hk.safe.heap.atoms hn.safe.heap.atoms hfound
  rw [Array.mapM_eq_mapM_toList, map_eq_pure_bind]
  refine bind (hlist names.toList ht) ?_
  rintro ρ₁ _ k as k' - hk ⟨rfl, -, hall, has⟩
  exact ret hk ⟨rfl, by simpa using hall, has⟩

theorem constantValue (he : env.Tandem env') (ht : m.Twins ρ m') (c : Constant) :
    Meets ρ (fun ρ v _ w _ => ρ.Matches v w) (constantValue c env m) (constantValue c env' m') := by
  cases c with
  | string text => exact (newString he ht text).mono fun _ _ _ _ _ h => h.same
  | number n => exact ret ht (.word (Value.cell?_number n))
  | boolean b => exact ret ht (.word (Value.cell?_boolean b))
  | null => exact ret ht (.word (by decide))
  | undefined => exact ret ht (.word (by decide))

/-- **The values of constants**, which are held. -/
theorem constantValues (he : env.Tandem env') (ht : m.Twins ρ m') (constants : Array Constant) :
    Meets ρ (fun ρ vs k ws k' => (Aligned ρ.Matches vs ws ∧ (∀ v ∈ vs, k.Holds v) ∧ ∀ w ∈ ws, k'.Holds w) ∧
        m.Grows k)
      (constants.mapM ScriptMachine.constantValue env m)
      (constants.mapM ScriptMachine.constantValue env' m') := by
  have hlist (constants : List Constant) {m m' : Machine} {ρ : Pairing} (ht : m.Twins ρ m') :
      Meets ρ (fun ρ vs _ ws _ => List.Forall₂ ρ.Matches vs ws)
        (constants.mapM ScriptMachine.constantValue env m)
        (constants.mapM ScriptMachine.constantValue env' m') := by
    induction constants generalizing m m' ρ with
    | nil => exact ret ht .nil
    | cons c constants ih =>
      rw [List.mapM_cons]
      refine bind (constantValue he ht c) fun ρ₁ v k w k' _ hk hv => ?_
      exact bind (ih hk) fun ρ₂ vs n ws n' hle hn hvs => ret hn (.cons (hv.mono hle) hvs)
  have hruns {env : Env} {m : Machine} (hs : m.Safe) : Runs env m
      (constants.mapM ScriptMachine.constantValue) fun vs k => ∀ v ∈ vs, k.Holds v := by
    refine (Runs.mapM (P := fun v m => v ∈ m.anchors ∨ v.cell? = none)
      (fun _ hsteady h => h.imp_left (hsteady.anchors _)) (fun c m hs => Runs.constantValue hs c)
      constants hs).monoSafe ?_
    rintro vs k hk ⟨-, hvs⟩ v hv
    rcases hvs v hv with h | h
    · exact (hk.guards h).holds
    · exact holds_of_not_cell h
  have hmain : Meets ρ (fun ρ vs _ ws _ => Aligned ρ.Matches vs ws)
      (constants.mapM ScriptMachine.constantValue env m)
      (constants.mapM ScriptMachine.constantValue env' m') := by
    rw [Array.mapM_eq_mapM_toList, map_eq_pure_bind]
    exact bind (hlist constants.toList ht) fun _ _ _ _ _ _ hk h => ret hk (.ofList h)
  exact (hmain.also (Runs.result (hruns ht.safe)) (Runs.result (hruns ht.safe'))).alsoLeft
    (Runs.grown (hruns ht.safe))

mutual

/-- **Code is registered alike.** -/
theorem registerCode (he : env.Tandem env') (block : Block) (hb : block.SitesAgree) {ρ : Pairing}
    {m m' : Machine} (ht : m.Twins ρ m') :
    Meets ρ Same (registerCode block env m) (registerCode block env' m') := by
  cases block with
  | mk name instructions constants identifiers functions scopeLayouts handlers variableIds
      paramCount varCount registerCount needsActivation propertyCacheCount callCacheCount =>
    unfold ScriptMachine.registerCode
    have hfunctions : ∀ f ∈ functions, f.SitesAgree := by
      cases hb with
      | block _ h => exact h
    refine bind (registerAll he functions hfunctions ht) ?_
    rintro ρ₁ _ k nested k' - hk rfl
    refine bind (internAll hk identifiers) ?_
    rintro ρ₂ _ k₂ atoms k₂' - hk₂ ⟨rfl, hknows, hatoms⟩
    refine bind (constantValues he hk₂ constants) ?_
    rintro ρ₃ values k₃ values' k₃' - hk₃ ⟨⟨hvalues, hheld, hheld'⟩, hg⟩
    have hknows₃ : ∀ a ∈ atoms, k₃.heap.atoms.Knows a := fun a ha => hg.atoms.knows (hknows a ha)
    have hknows₃' : ∀ a ∈ atoms, k₃'.heap.atoms.Knows a := by
      rw [hk₃.heap.atoms]
      exact hknows₃
    refine pass he fun _ _ => look ?_
    refine bind (Q := fun _ _ _ _ _ => True) (update (hk₃.pushCode
      (hk₃.safe.pushCode rfl hknows₃ rfl hheld) (hk₃.safe'.pushCode rfl hknows₃' rfl hheld')
      ⟨rfl, hvalues, .interned hb rfl hatoms rfl, .interned hb rfl hatoms rfl⟩ rfl rfl) trivial) fun _ _ _ _ _ _ hn _ => ret hn ?_
    unfold Same
    rw [hk₃.codes.size]

/-- Code blocks one after the other. -/
theorem registerAll (he : env.Tandem env') (blocks : List Block) (hb : ∀ b ∈ blocks, b.SitesAgree)
    {ρ : Pairing} {m m' : Machine} (ht : m.Twins ρ m') :
    Meets ρ Same (registerAll blocks env m) (registerAll blocks env' m') := by
  cases blocks with
  | nil => exact ret ht rfl
  | cons block blocks =>
    unfold ScriptMachine.registerAll
    refine bind (registerCode he block (hb block (by simp)) ht) ?_
    rintro ρ₁ _ k code k' - hk rfl
    refine bind (registerAll he blocks (fun b h => hb b (List.mem_cons_of_mem _ h)) hk) ?_
    rintro ρ₂ _ n codes n' - hn rfl
    exact ret hn rfl

end

/-! ### Programs -/

/-- **Loading a program.** -/
theorem load (he : env.Tandem env') (ht : m.Twins ρ m') {block : Block} (hb : block.SitesAgree) :
    Meets ρ Vals (load block env m) (load block env' m') := by
  unfold ScriptMachine.load
  cases block.validate with
  | error defect => exact failed ht _
  | ok _ =>
    refine bind (registerCode he block hb ht) ?_
    rintro ρ₁ _ k code k' - hk rfl
    refine bind (internOption hk block.name) ?_
    rintro ρ₂ _ n name n' - hn ⟨rfl, -⟩
    exact bind (newFunctionCell he hn (.script code) name block.paramCount .none
      (fun _ h => by cases h) fun _ h => by cases h) fun _ _ _ _ _ _ hx hv => ret hx (hv.both hx)

/-- **Calls from the host.** -/
theorem enter (he : env.Tandem env') (ht : m.Twins ρ m') (ho : m.Orderly)
    (hd : m'.reentryDepth = m.reentryDepth) {body body' : MachineM Value}
    (hbody : ∀ {k k' : Machine}, k.Twins ρ k' → k.Orderly → k.heap = m.heap → k'.heap = m'.heap →
      Meets ρ Vals (body env k) (body' env' k')) :
    Meets ρ Vals (enter body env m) (enter body' env' m') := by
  have limitless {m : Machine} (hc : m.Uninterrupted) (c : Prop) [Decidable c] :
      (if c then m.watchdog.arm else m.watchdog).limit = none ∧
        (if c then m.watchdog.disarm else m.watchdog).limit = none := by
    constructor <;> split <;> exact hc.limit
  have leave {ρ : Pairing} {k k' : Machine} (hk : k.Twins ρ k') :
      Meets ρ (fun _ _ n _ n' => n.heap = k.heap ∧ n'.heap = k'.heap)
        ((modify fun m => { m with
            reentryDepth := m.reentryDepth - 1
            watchdog := if m.reentryDepth = 1 then m.watchdog.disarm else m.watchdog } :
          MachineM PUnit) env k)
        ((modify fun m => { m with
            reentryDepth := m.reentryDepth - 1
            watchdog := if m.reentryDepth = 1 then m.watchdog.disarm else m.watchdog } :
          MachineM PUnit) env' k') :=
    update (hk.renest _ _ (limitless hk.calm _).2 (limitless hk.calm' _).2) ⟨rfl, rfl⟩
  have hmax : m'.config.maxReentryDepth = m.config.maxReentryDepth :=
    (congrArg Config.maxReentryDepth ht.config :)
  refine look ?_
  rw [hd, hmax]
  refine ite Iff.rfl (fun _ => raiseError he ht _ rfl) fun hdeep => ?_
  obtain ⟨hok, -⟩ := ho.renest (m.reentryDepth + 1)
    (if m.reentryDepth = 0 then m.watchdog.arm else m.watchdog) (by omega)
  refine bind (Q := fun ρ' _ k _ k' => (ρ' = ρ ∧ k.Orderly) ∧ k.heap = m.heap ∧ k'.heap = m'.heap)
    (update (ht.renest _ _ (limitless ht.calm _).1 (limitless ht.calm' _).1) ⟨⟨rfl, hok⟩, rfl, rfl⟩) ?_
  rintro _ _ k _ k' - hk ⟨⟨rfl, hok⟩, hheap, hheap'⟩
  refine attempt (hbody hk hok hheap hheap') ?_ ?_ (fun _ _ hl => .memory hl) fun _ _ hl => .memory hl
  · intro ρ₁ v n w n' _ hn hv
    refine bind (leave hn) ?_
    rintro ρ₂ _ x _ x' hle hx ⟨hheap, hheap'⟩
    refine ret hx ?_
    unfold Vals
    rw [hheap, hheap']
    exact hv.mono hle
  · intro ρ₁ u n u' n' _ hn hu
    refine bind (leave hn) ?_
    rintro ρ₂ _ x _ x' hle hx ⟨hheap, hheap'⟩
    refine raised hx ?_
    rw [hheap, hheap']
    exact hu.mono hle

/-- **Programs run alike.** -/
theorem runProgram (he : env.Tandem env') (ht : m.Twins ρ m') (ho : m.Orderly) (ho' : m'.Orderly)
    (hd : m'.reentryDepth = m.reentryDepth) {block : Block} (hb : block.SitesAgree) :
    Meets ρ Vals (runProgram block env m) (runProgram block env' m') := by
  refine bind ((load he ht hb).also (Proceeds.result (Keeping.load block env m he.orderly ho))
    (Proceeds.result (Keeping.load block env' m' he.orderly' ho'))) ?_
  rintro ρ₁ program k program' k' - hk ⟨hv, ⟨hok, -, -, hd₁⟩, -, -, -, hd₁'⟩
  rw [bind_eq_of_ok (notify_quiet hk.safe.listeners _), bind_eq_of_ok (notify_quiet hk.safe'.listeners _)]
  refine look ?_
  have hglobal : Heap.Both ρ₁ k.heap k'.heap k.globalObject k'.globalObject := by
    unfold globalObject
    rw [hk.intrinsics]
    exact (hk.intrinsic (by simp [Intrinsics.objects])).both hk
  have operands {n : Machine} {program global : Value} (hp : n.Holds program) (hg : n.Holds global) :
      Runs.Operands n program global #[] false := by
    refine ⟨fun v hv => ?_, fun h => by cases h⟩
    simp only [List.mem_cons, List.not_mem_nil, or_false] at hv
    rcases hv with rfl | rfl
    · exact hp
    · exact hg
  have hended {ρ : Pairing} {n n' : Machine} (hn : n.Twins ρ n') :
      ScriptMachine.notify .didExecuteProgram env n = .ok () n ∧
        ScriptMachine.notify .didExecuteProgram env' n' = .ok () n' :=
    ⟨notify_quiet hn.safe.listeners _, notify_quiet hn.safe'.listeners _⟩
  refine attempt (enter he hk hok (by rw [hd₁, hd₁', hd]) fun {n n'} hn hon hheap hheap' => ?_) ?_ ?_
    (fun _ n hl => ?_) fun _ n hl => ?_
  · have hp : Heap.Both ρ₁ n.heap n'.heap program program' := by
      rw [hheap, hheap']
      exact hv
    have hg : Heap.Both ρ₁ n.heap n'.heap k.globalObject k'.globalObject := by
      rw [hheap, hheap']
      exact hglobal
    exact callValue he hn hon none ⟨hp.same, hg.same, .empty, operands hp.holds.1 hg.holds.1,
      operands hp.holds.2 hg.holds.2⟩
  · intro ρ₂ v n w n' _ hn hv
    rw [bind_eq_of_ok (hended hn).1, bind_eq_of_ok (hended hn).2]
    exact ret hn hv
  · intro ρ₂ u n u' n' _ hn hu
    rw [bind_eq_of_ok (hended hn).1, bind_eq_of_ok (hended hn).2]
    exact raised hn hu
  · rw [bind_eq_of_ok (notify_quiet hl _)]
    exact .memory hl
  · rw [bind_eq_of_ok (notify_quiet hl _)]
    exact .memory hl

/-! ### Activities -/

/-- No host function is called. -/
theorem runHostFunction (ht : m.Twins ρ m') (function : HostId) (call call' : HostCall) :
    Meets ρ Vals (runHostFunction function call env m) (runHostFunction function call' env' m') := by
  refine look ?_
  rw [ht.safe.hosts, ht.safe'.hosts]
  exact failed ht _

end Meets

/-- **Nested activities are in tandem**, whatever the fuel. -/
theorem tandem_perform {pause : Machine → List Value → Bool}
    (hspare : ∀ m held, pause m held = false ↔ m.Spare) (fuel : Nat) :
    Env.Tandem { reenter := perform pause fuel, fuel, pause }
      { reenter := perform pause fuel, fuel, pause } := by
  induction fuel with
  | zero =>
    exact ⟨rfl, hspare, hspare, sound_perform pause 0, sound_perform pause 0, orderly_perform pause 0,
      orderly_perform pause 0, fun _ _ _ => .exhausted, fun _ _ _ _ => .exhausted⟩
  | succ fuel ih =>
    exact ⟨rfl, hspare, hspare, sound_perform pause _, sound_perform pause _, orderly_perform pause _,
      orderly_perform pause _, fun ht ho hf => Meets.runFrame ih ht ho hf,
      fun function call call' ht => Meets.runHostFunction ht function call call'⟩

end ScriptMachine
