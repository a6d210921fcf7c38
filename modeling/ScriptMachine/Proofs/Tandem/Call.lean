import ScriptMachine.Proofs.Tandem.Functions

/-! # Calls of two runs

Calls in twin machines find the same targets, since call caches are right about live callees, whatever
else they remember (`resolveCallee_found`), and push frames that are twins. Code is compiled after the same number of calls, and to the same tier
code, which leaves out the constants that are cells (`CodeEntry.Twins.lower`). What a nested activity does
is assumed of the environments (`Env.Tandem`). -/

namespace ScriptMachine

open Machine

variable {α β : Type} {ρ : Pairing} {m m' k k' : Machine} {v w callee callee' this this' : Value}
  {args args' : Array Value} {env env' : Env} {site : Site} {a b : Handle} {f f' : Frame}

/-! ### Compilation -/

namespace Block

variable {t t' : CodeTables}

theorem lowerOpcode_congr (hi : t'.identifier = t.identifier)
    (hc : ∀ i, (t'.constant i).isCell = (t.constant i).isCell ∧
      ((t.constant i).isCell = false → t'.constant i = t.constant i)) (opcode : Opcode) :
    lowerOpcode t' opcode = lowerOpcode t opcode := by
  have ha : lowerOpcode.atom t' = lowerOpcode.atom t := by
    funext i
    unfold lowerOpcode.atom
    rw [hi]
  cases opcode with
  | loadConst dst index =>
    obtain ⟨hcell, hword⟩ := hc index
    simp only [lowerOpcode, hcell]
    cases hx : (t.constant index).isCell with
    | true => rfl
    | false => rw [hword hx]
  | _ => simp only [lowerOpcode, ha]

/-- **Lowering** uses the identifiers and the constants that are no cells. -/
theorem lower_congr (b : Block) (h : lowerOpcode t' = lowerOpcode t) : b.lower t' = b.lower t := by
  have hat : b.lowerAt t' = b.lowerAt t := by
    funext pc opcode
    unfold lowerAt
    rw [h]
  have hfrom (fuel pc : Nat) (acc : Lowered) :
      b.lowerFrom t' fuel pc acc = b.lowerFrom t fuel pc acc := by
    induction fuel generalizing pc acc with
    | zero => rfl
    | succ fuel ih =>
      unfold lowerFrom
      rw [hat]
      simp only [ih]
  unfold lower
  simp only [hfrom]

end Block

theorem CodeEntry.Twins.lower {entry entry' : CodeEntry} (h : entry.Twins ρ entry') :
    entry'.lower = entry.lower := by
  unfold CodeEntry.lower
  rw [h.block]
  refine Block.lower_congr _ (funext (Block.lowerOpcode_congr ?_ fun i => ?_))
  · unfold CodeEntry.tables
    rw [h.atoms]
  · have hm : ρ.Matches (entry.constants.getD i.toNat .undefined)
        (entry'.constants.getD i.toNat .undefined) := h.constants.getD _ (.word (by simp))
    refine ⟨hm.isCell, fun hc => hm.eq_of_left ?_⟩
    simpa [Value.cell?, CodeEntry.tables] using hc

/-! ### Call sites -/

namespace Machine

/-- A call site that remembers a callee changes nothing else. -/
theorem cacheTarget_frame (m : Machine) (site : Site) (callee : Handle) (target : CallTarget) :
    ∃ codes, m.cacheTarget site callee target = { m with codes } ∧
      Aligned (fun entry entry' => { entry' with caches := entry.caches } = entry) m.codes codes := by
  have hsame : Aligned (fun entry entry' : CodeEntry => { entry' with caches := entry.caches } = entry)
      m.codes m.codes := .refl fun _ _ => rfl
  unfold Machine.cacheTarget
  split
  case isTrue => exact ⟨m.codes, rfl, hsame⟩
  case isFalse =>
    cases site with
    | none => exact ⟨m.codes, rfl, hsame⟩
    | some site =>
      refine ⟨_, rfl, fun i => ?_⟩
      rw [Array.getElem?_modify]
      cases m.codes[i]? with
      | none => split <;> exact .none
      | some entry => split <;> exact .some rfl

theorem cacheTarget_none (m : Machine) (callee : Handle) (target : CallTarget) :
    m.cacheTarget none callee target = m := by
  unfold Machine.cacheTarget
  split <;> rfl

theorem Remembers.cacheTarget (hr : m.Remembers m.SiteNamed) (site : Site) (callee : Handle)
    (target : CallTarget) : (m.cacheTarget site callee target).Remembers
      (m.cacheTarget site callee target).SiteNamed := by
  unfold Machine.cacheTarget
  split
  case isTrue => exact hr
  case isFalse =>
    cases site with
    | none => exact hr
    | some site => exact hr.recode fun _ => ⟨rfl, rfl, rfl⟩

/-- **A live function is found** with its target, whatever its call site remembers. -/
theorem Recognizes.resolveCallee_found {ids : List Handle} (hr : m.Recognizes ids)
    (hlive : m.heap.isLive a = true) {d : FunctionData} (hd : m.functionData? (.cell a) = some d)
    (site : Site) (isConstruct : Bool) :
    ∃ site', resolveCallee (.cell a) site isConstruct env m =
      .ok (a, d.target) (m.cacheTarget site' a d.target) := by
  unfold resolveCallee
  rw [get_bind]
  simp only [Value.cell?_cell]
  cases hc : m.cachedTarget? site a with
  | some target =>
    obtain ⟨d', hd', rfl⟩ := hr.cachedTarget? hlive hc
    obtain rfl := Option.some.inj (hd.symm.trans hd')
    refine ⟨none, ?_⟩
    rw [cacheTarget_none]
    rfl
  | none =>
    refine ⟨site, ?_⟩
    simp only [Option.map_none, hd]
    rfl

/-- **What is live and no function** is refused, whatever the call site remembers. -/
theorem Recognizes.resolveCallee_refused {ids : List Handle} (hr : m.Recognizes ids)
    (hlive : v.Live m.heap) (hd : m.functionData? v = none) (site : Site) (isConstruct : Bool) :
    resolveCallee v site isConstruct env m = raiseError .typeError (m.display v ++ " is not "
      ++ if isConstruct then "a constructor" else "a function") env m := by
  unfold resolveCallee
  rw [get_bind]
  cases hv : v.cell? with
  | none => rfl
  | some id =>
    have hnone : m.cachedTarget? site id = none := by
      cases hc : m.cachedTarget? site id with
      | none => rfl
      | some target =>
        obtain ⟨d, hd', -⟩ := hr.cachedTarget? (hlive id hv) hc
        rw [← Value.cell?_eq_some.mp hv, hd] at hd'
        cases hd'
    simp only [hnone, Option.map_none, hd]

end Machine

namespace Machine.Twins

/-- A call that is counted. -/
theorem countCall (ht : m.Twins ρ m') (code : CodeId) (callCount : UInt32) :
    (m.modifyCode code fun e => { e with callCount }).Twins ρ
      (m'.modifyCode code fun e => { e with callCount }) := by
  have safe {m : Machine} (hs : m.Safe) : (m.modifyCode code fun e => { e with callCount }).Safe := by
    refine (hs.retable ?_ ?_ ?_).1
    · exact fun _ => rfl
    · exact fun _ => rfl
    · exact fun _ hc _ => ⟨hc.atoms, hc.compiled⟩
  refine ht.modifyCode (safe ht.safe) (safe ht.safe') (fun _ => ⟨rfl, rfl, rfl⟩)
    (fun _ => ⟨rfl, rfl, rfl⟩) fun e e' _ _ he => ⟨?_, he.constants,
      he.lawful.congr rfl rfl rfl rfl, he.lawful'.congr rfl rfl rfl rfl⟩
  exact (congrArg (fun e : CodeEntry => { e with callCount }) he.same :)

/-- Code that has been compiled. -/
theorem compile (ht : m.Twins ρ m') {code : CodeId} {callCount : UInt32} {compiled : Option Lowered}
    (hs : (m.modifyCode code fun e => { e with callCount, compiled, tierAttempted := true }).Safe)
    (hs' : (m'.modifyCode code fun e => { e with callCount, compiled, tierAttempted := true }).Safe)
    (hl : ∀ e l, m.code? code = some e → compiled = some l → e.lower = .ok l) :
    (m.modifyCode code fun e => { e with callCount, compiled, tierAttempted := true }).Twins ρ
      (m'.modifyCode code fun e => { e with callCount, compiled, tierAttempted := true }) := by
  refine ht.modifyCode hs hs' (fun _ => ⟨rfl, rfl, rfl⟩) (fun _ => ⟨rfl, rfl, rfl⟩)
    fun e e' hx hy he => ⟨?_, he.constants, ⟨he.lawful.single, fun l h => hl e l hx h⟩,
      ⟨he.lawful'.single, fun l h => he.lower.trans (hl e l hx h)⟩⟩
  exact (congrArg (fun e : CodeEntry => { e with callCount, compiled, tierAttempted := true }) he.same :)

/-- **Code becomes hot at the same time**, and compiles to the same tier code. -/
theorem tierUp (ht : m.Twins ρ m') :
    m'.tierUp.1 = m.tierUp.1 ∧ m.tierUp.2.Twins ρ m'.tierUp.2 := by
  have hs := ht.safe.tierUp.1
  have hs' := ht.safe'.tierUp.1
  unfold Machine.tierUp at hs hs' ⊢
  rcases Option.rel_iff.mp ht.frame? with ⟨hx, hy⟩ | ⟨f, f', hx, hy, hf⟩
  · rw [hx, hy]
    exact ⟨rfl, ht⟩
  rw [hx] at hs ⊢
  rw [hy] at hs' ⊢
  dsimp only at hs hs' ⊢
  rw [hf.code] at hs' ⊢
  rcases Option.rel_iff.mp (ht.code? f.code) with ⟨hc, hc'⟩ | ⟨e, e', hc, hc', he⟩
  · rw [hc, hc']
    exact ⟨rfl, ht⟩
  rw [hc] at hs ⊢
  rw [hc'] at hs' ⊢
  dsimp only at hs hs' ⊢
  rw [(congrArg CodeEntry.compiled he.same :)] at hs' ⊢
  cases hcompiled : e.compiled with
  | some lowered => exact ⟨rfl, ht⟩
  | none =>
    rw [hcompiled] at hs hs'
    dsimp only at hs hs' ⊢
    rw [(congrArg CodeEntry.callCount he.same :)] at hs' ⊢
    have htier := ht.tier
    cases hstats : m.tier with
    | none =>
      rw [hstats, Option.isSome_none, Option.isSome_eq_false_iff, Option.isNone_iff_eq_none] at htier
      rw [htier]
      exact ⟨rfl, ht.countCall _ _⟩
    | some stats =>
      rw [hstats] at hs htier
      obtain ⟨stats', hstats'⟩ := Option.isSome_iff_exists.mp htier
      rw [hstats'] at hs' ⊢
      dsimp only at hs hs' ⊢
      rw [(congrArg CodeEntry.tierAttempted he.same :), ht.tierUpThreshold, he.lower] at hs' ⊢
      split
      case isTrue => exact ⟨rfl, ht.countCall _ _⟩
      case isFalse hhot =>
        rw [if_neg hhot] at hs hs'
        have hcounted : Twins ρ { m with tier := some (stats.count e.lower) }
            { m' with tier := some (stats'.count e.lower) } := ht.withTier rfl
        refine ⟨rfl, hcounted.compile hs hs' fun e₁ l h hl => ?_⟩
        obtain rfl := Option.some.inj (hc.symm.trans h)
        exact CodeEntry.lower_of_tierCode? hl

/-! ### Frames -/

/-- Protecting a value of each machine. -/
theorem protect (ht : m.Twins ρ m') (hv : m.Holds v) (hw : m'.Holds w) :
    Twins ρ { m with heap := m.heap.pushTemporary v } { m' with heap := m'.heap.pushTemporary w } := by
  have hsheds (m : Machine) (v : Value) : m.Sheds { m with heap := m.heap.pushTemporary v } := by
    refine .beside ?_ ?_
    all_goals unfold Heap.pushTemporary; split
    · exact .congr rfl rfl rfl rfl rfl
    · exact .refl _
    · rfl
    · rfl
  have hrecalled {m : Machine} {named : CodeId → Nat → Atom → Prop} (hr : m.Remembers named)
      (v : Value) : Remembers { m with heap := m.heap.pushTemporary v } named := by
    unfold Heap.pushTemporary
    split
    · exact hr.temporaries _
    · exact hr
  exact ht.sheds (hsheds m v) (hsheds m' w) (ht.safe.changes (.single (.protect hv)))
    (ht.safe'.changes (.single (.protect hw))) (hrecalled ht.recalled v) (hrecalled ht.recalled' w)

theorem scopeAround (ht : m.Twins ρ m') (hb : Heap.Both ρ m.heap m'.heap (.cell a) (.cell b)) :
    Option.Rel ρ.Pairs (m.scopeAround a) (m'.scopeAround b) := by
  unfold Machine.scopeAround
  rcases Option.rel_iff.mp (ht.functionData? hb) with ⟨hx, hy⟩ | ⟨d, d', hx, hy, -, hs⟩
  · rw [hx, hy]
    exact .none
  · rw [hx, hy]
    exact hs

/-- The running frames are popped. -/
theorem unframed (ht : m.Twins ρ m') (hs : (m.unframed f).Safe) (hs' : (m'.unframed f').Safe)
    (hf : f.Twins ρ f') : (m.unframed f).Twins ρ (m'.unframed f') := by
  refine ht.reframe hs hs' ?_ ht.capacity ht.frames.pop
  change Aligned _ (m.registers.registers.shrink f.base) (m'.registers.registers.shrink f'.base)
  rw [hf.base]
  exact ht.registers.shrink _

/-- **Handlers are found at the same places.** -/
theorem findHandler (ht : m.Twins ρ m') :
    m'.findHandler.1 = m.findHandler.1 ∧ m.findHandler.2.Twins ρ m'.findHandler.2 := by
  have hpops (count : List Nat) {m m' : Machine} (ht : m.Twins ρ m') :
      (count.foldl (fun m _ => m.popScope) m).Twins ρ (count.foldl (fun m _ => m.popScope) m') := by
    induction count generalizing m m' with
    | nil => exact ht
    | cons _ count ih => exact ih ht.popScope
  unfold Machine.findHandler
  rcases Option.rel_iff.mp ht.frame? with ⟨hx, hy⟩ | ⟨f, f', hx, hy, hf⟩
  · rw [hx, hy]
    exact ⟨rfl, ht⟩
  rw [hx, hy]
  dsimp only
  rw [hf.code]
  rcases Option.rel_iff.mp (ht.code? f.code) with ⟨hc, hc'⟩ | ⟨e, e', hc, hc', he⟩
  · rw [hc, hc']
    exact ⟨rfl, ht⟩
  rw [hc, hc']
  dsimp only
  rw [he.block, hf.pc]
  cases e.block.handlerFor? (f.pc - min f.pc 1) with
  | none => exact ⟨rfl, ht⟩
  | some handler =>
    dsimp only
    rw [hf.scopeDepth]
    exact ⟨rfl, (hpops _ ht).setPc _⟩

/-! ### Call caches -/

/-- **Call sites remember callees**, one in each machine, or none. -/
theorem cacheTarget (ht : m.Twins ρ m') (site site' : Site) {target target' : CallTarget}
    (hk : m.heap.Recognizes (ρ.map Prod.fst) a target)
    (hk' : m'.heap.Recognizes (ρ.map Prod.snd) b target') :
    (m.cacheTarget site a target).Twins ρ (m'.cacheTarget site' b target') := by
  have hs := (ht.safe.cacheTarget site a target).1
  have hs' := (ht.safe'.cacheTarget site' b target').1
  have hr := ht.recalled.cacheTarget site a target
  have hr' := ht.recalled'.cacheTarget site' b target'
  have hn := ht.known.cacheTarget site hk
  have hn' := ht.known'.cacheTarget site' hk'
  obtain ⟨codes, heq, hcodes⟩ := cacheTarget_frame m site a target
  obtain ⟨codes', heq', hcodes'⟩ := cacheTarget_frame m' site' b target'
  rw [heq] at hs hr hn ⊢
  rw [heq'] at hs' hr' hn' ⊢
  exact { ht with
    safe := hs, safe' := hs'
    recalled := hr, recalled' := hr'
    known := hn, known' := hn'
    calm := ⟨ht.calm.interrupt, ht.calm.limit, ht.calm.parked⟩
    calm' := ⟨ht.calm'.interrupt, ht.calm'.limit, ht.calm'.parked⟩
    codes := ht.codes.transport hcodes hcodes' fun _ _ _ _ he => he.recache }

end Machine.Twins

/-! ### Registers -/

theorem RegisterFile.fill_aligned {r : Value → Value → Prop} {file file' : RegisterFile}
    (h : Aligned r file.registers file'.registers) (base : Nat) {values values' : Array Value}
    (hv : Aligned r values values') :
    Aligned r (file.fill base values).registers (file'.fill base values').registers := by
  have hl := hv.toList
  obtain ⟨values⟩ := values
  obtain ⟨values'⟩ := values'
  dsimp only at hl
  clear hv
  have cons (file : RegisterFile) (base : Nat) (value : Value) (values : List Value) :
      file.fill base ⟨value :: values⟩ = (file.set base value).fill (base + 1) ⟨values⟩ := by
    simp [RegisterFile.fill]
  induction hl generalizing file file' base with
  | nil => exact h
  | cons hr _ ih =>
    rw [cons, cons]
    exact ih (h.set base hr) _

/-! ### Pushing and popping in actions -/

theorem checkInterrupt_quiet (hc : m.Uninterrupted) : checkInterrupt env m = .ok () m := by
  unfold ScriptMachine.checkInterrupt
  rw [get_bind]
  simp only [hc.interrupt, Bool.false_eq_true, if_false]
  have htick {g : Machine → Bool × Machine} (hg : g m = (false, m)) :
      (modifyGet g : MachineM Bool) env m = .ok false m := by rw [modifyGet_run, hg]
  refine (bind_eq_of_ok (htick ?_)).trans rfl
  unfold Watchdog.tick
  rw [hc.limit]

theorem notify_quiet (hl : m.listeners = #[]) (kind : EventKind) : notify kind env m = .ok () m :=
  notifyAt_quiet hl _ _ _

/-- **Popping a frame**, when nobody listens. -/
theorem popFrame_eq (hl : m.listeners = #[]) : popFrame env m = match m.frame? with
    | none => .ok none m
    | some f => .ok (some f) (m.unframed f) := by
  unfold ScriptMachine.popFrame
  rw [get_bind]
  cases hf : m.frame? with
  | none =>
    rw [if_pos (by rw [frame?_eq_none.mp hf]; rfl)]
    rfl
  | some f =>
    have hne : ¬m.frames.isEmpty = true := fun h => by
      rw [frame?_eq_none.mpr (Array.isEmpty_iff.mp h)] at hf
      cases hf
    have hback : m.frames.back? = some f := hf
    rw [if_neg hne, bind_eq_of_ok (notify_quiet hl _), modifyGet_run, hback]
    rfl

/-- Popping frames, when nobody listens. -/
theorem popFrames_quiet (env : Env) (hl : m.listeners = #[]) (count : Nat) :
    ∃ k, popFrames count env m = .ok () k ∧ k.listeners = #[] := by
  induction count generalizing m with
  | zero => exact ⟨m, rfl, hl⟩
  | succ count ih =>
    obtain ⟨r, k, hpop, hk⟩ : ∃ r k, popFrame env m = .ok r k ∧ k.listeners = #[] := by
      rw [popFrame_eq hl]
      cases m.frame? with
      | none => exact ⟨none, m, rfl, hl⟩
      | some f => exact ⟨some f, m.unframed f, rfl, hl⟩
    have hdiscard : discard popFrame env m = .ok () k := by
      change (popFrame >>= fun _ => pure ()) env m = _
      rw [bind_eq_of_ok hpop]
      rfl
    obtain ⟨n, hpops, hn⟩ := ih hk
    exact ⟨n, by unfold ScriptMachine.popFrames; rw [bind_eq_of_ok hdiscard, hpops], hn⟩

/-- Popping frames does not hold up what escapes. -/
theorem Escapes.popFramesTo {bytes : Nat} (hl : m.listeners = #[]) (depth : Nat) :
    Escapes ((do
      ScriptMachine.popFramesTo depth
      unwind (.fatal (.outOfMemory bytes)) : MachineM α) env m) := by
  obtain ⟨k, hpops, hk⟩ := popFrames_quiet env hl (m.frames.size - depth)
  have hpop : ScriptMachine.popFramesTo depth env m = .ok () k := hpops
  rw [bind_eq_of_ok hpop]
  exact .memory hk

namespace Meets

variable {Q : Pairing → α → Machine → β → Machine → Prop}

/-- **A frame is pushed**, or an error is raised. -/
theorem pushFrame (he : env.Tandem env') (ht : m.Twins ρ m') (code : CodeId)
    (returnRegister : Option Register) (isConstruct entryBoundary : Bool)
    (hf : Heap.Both ρ m.heap m'.heap (.cell a) (.cell b)) (hthis : Heap.Both ρ m.heap m'.heap this this')
    (hargs : Aligned (Heap.Both ρ m.heap m'.heap) args args') :
    Meets ρ (fun _ _ _ _ _ => True)
      (pushFrame a code this args returnRegister isConstruct entryBoundary env m)
      (pushFrame b code this' args' returnRegister isConstruct entryBoundary env' m') := by
  have hruns : Runs env m
      (ScriptMachine.pushFrame a code this args returnRegister isConstruct entryBoundary) _ :=
    .pushFrame ht.safe code returnRegister entryBoundary hf.holds.1 hthis.holds.1
      (hargs.forall_left fun _ _ h => h.holds.1)
  have hruns' : Runs env' m'
      (ScriptMachine.pushFrame b code this' args' returnRegister isConstruct entryBoundary) _ :=
    .pushFrame ht.safe' code returnRegister entryBoundary hf.holds.2 hthis.holds.2
      (hargs.forall_right fun _ _ h => h.holds.2)
  have hs := hruns.safe
  have hs' := hruns'.safe
  have hmatch : Aligned ρ.Matches args args' := hargs.mono fun _ _ h => h.same
  have hextra (count : Nat) : Aligned ρ.Matches (extraArguments args count)
      (extraArguments args' count) := by
    unfold extraArguments
    rw [hargs.size]
    exact hmatch.extract _ _
  have hsize : m'.registers.registers.size = m.registers.registers.size := ht.registers.size.symm
  unfold ScriptMachine.pushFrame RegisterFile.hasRoom at hs hs' ⊢
  rw [get_bind] at hs hs' ⊢
  rw [get_bind]
  dsimp only at hs hs' ⊢
  rw [hsize, ht.capacity, ← ht.frames.size, ht.maxCallDepth] at hs' ⊢
  rcases Option.rel_iff.mp (ht.code? code) with ⟨hx, hy⟩ | ⟨e, e', hx, hy, hentry⟩
  all_goals
    rw [hx] at hs ⊢
    rw [hy] at hs' ⊢
    dsimp only at hs hs' ⊢
  on_goal 2 => simp only [hentry.block] at hs' ⊢
  all_goals
    refine ite Iff.rfl (fun _ => raiseError he ht _ rfl) fun hroom => ?_
    rw [if_neg hroom] at hs hs'
    refine .ok (List.Subset.refl ρ) (ht.reframe hs hs' ?_ ?_ ?_) trivial
    · unfold RegisterFile.size
      rw [hsize]
      exact RegisterFile.fill_aligned (ht.registers.append (.replicate _ (.word (by simp)))) _
        (hmatch.extract _ _)
    · rw [(RegisterFile.fill_spec _ _ _).2.1, (RegisterFile.fill_spec _ _ _).2.1]
      exact ht.capacity
    · refine ht.frames.push ⟨?_, hextra _, hf.same, hthis.same, ht.scopeAround hf, .none⟩
      unfold RegisterFile.size
      rw [hsize, hargs.size]

/-- **The running frames are popped.** -/
theorem popFrame (ht : m.Twins ρ m') :
    Meets ρ (fun ρ' r k r' k' => k.heap = m.heap ∧ k'.heap = m'.heap ∧
        Option.Rel (fun f f' => f.Twins ρ' f' ∧ Heap.Both ρ' k.heap k'.heap f.this f'.this) r r')
      (popFrame env m) (popFrame env' m') := by
  have hs : Runs env m ScriptMachine.popFrame _ := .popFrame ht.safe
  have hs' : Runs env' m' ScriptMachine.popFrame _ := .popFrame ht.safe'
  have hsafe := hs.safe
  have hsafe' := hs'.safe
  rw [popFrame_eq ht.safe.listeners] at hsafe ⊢
  rw [popFrame_eq ht.safe'.listeners] at hsafe' ⊢
  rcases Option.rel_iff.mp ht.frame? with ⟨hx, hy⟩ | ⟨f, f', hx, hy, hf⟩
  · rw [hx, hy]
    exact .ok (List.Subset.refl ρ) ht ⟨rfl, rfl, .none⟩
  · rw [hx] at hsafe ⊢
    rw [hy] at hsafe' ⊢
    have held {m : Machine} (hs : m.Safe) {f : Frame} (hf : m.frame? = some f) : m.Holds f.this :=
      hs.holds_frames f (frame?_mem hf) _ (mem_frameRoots.mpr (.inr (.inl rfl)))
    exact .ok (List.Subset.refl ρ) (ht.unframed hsafe hsafe' hf)
      ⟨rfl, rfl, .some ⟨hf, ht.both hf.this (held ht.safe hx) (held ht.safe' hy)⟩⟩

theorem popFrames (ht : m.Twins ρ m') (count : Nat) :
    Meets ρ (fun _ _ k _ k' => k.heap = m.heap ∧ k'.heap = m'.heap) (popFrames count env m)
      (popFrames count env' m') := by
  induction count generalizing m m' ρ with
  | zero => exact ret ht ⟨rfl, rfl⟩
  | succ count ih =>
    refine bind (discarded (popFrame ht)) ?_
    rintro ρ₁ _ k _ k' - hk ⟨-, -, hheap, hheap', -⟩
    exact (ih hk).mono fun _ _ _ _ _ h => ⟨h.1.trans hheap, h.2.trans hheap'⟩

theorem popFramesTo (ht : m.Twins ρ m') (depth : Nat) :
    Meets ρ (fun _ _ k _ k' => k.heap = m.heap ∧ k'.heap = m'.heap) (popFramesTo depth env m)
      (popFramesTo depth env' m') := by
  refine look ?_
  rw [← ht.frames.size]
  exact popFrames ht _

/-- **The frames that return a value** are popped. -/
theorem finishReturn (ht : m.Twins ρ m') (hb : Heap.Both ρ m.heap m'.heap v w) :
    Meets ρ (fun ρ r k r' k' => Vals ρ r.1 k r'.1 k' ∧ r'.2 = r.2) (finishReturn v env m)
      (finishReturn w env' m') := by
  have live {h : Heap} {v : Value} (u : Value) (hv : v.Live h) : v.Live (h.pushTemporary u) := by
    unfold Heap.pushTemporary
    split <;> exact hv
  refine bind (Q := fun ρ _ k _ k' => Vals ρ v k w k') (update (ht.protect hb.holds.1 hb.holds.2)
    ⟨hb.same, live _ hb.left, live _ hb.right⟩) fun ρ₁ _ k _ k' _ hk hb => ?_
  refine bind (popFrame hk) ?_
  rintro ρ₂ r n r' n' hle hn ⟨hheap, hheap', hr⟩
  have hb : Vals ρ₂ v n w n' := by
    unfold Vals
    rw [hheap, hheap']
    exact hb.mono hle
  cases hr with
  | none => exact ret hn ⟨hb, rfl⟩
  | @some f f' hf =>
    refine look (ret hn ⟨?_, hf.1.returnRegister⟩)
    unfold constructResult isObject
    rw [hf.1.isConstruct]
    rcases hn.objectCell? hb with ⟨hx, hy⟩ | ⟨a, b, -, -, hx, hy, -⟩
    · rw [hx, hy]
      cases f.isConstruct
      · exact hb
      · exact hf.2
    · rw [hx, hy]
      cases f.isConstruct <;> exact hb

/-! ### Handlers -/

/-- **An exception is delivered** to the same handler, or there is none. -/
theorem enterHandler (ht : m.Twins ρ m') (hb : Heap.Both ρ m.heap m'.heap v w) :
    Meets ρ (fun ρ r k r' k' => Vals ρ v k w k' ∧ r' = r) (enterHandler v env m)
      (enterHandler w env' m') := by
  have hs : Runs env m (ScriptMachine.enterHandler v) _ := .enterHandler ht.safe hb.holds.1
  have hs' : Runs env' m' (ScriptMachine.enterHandler w) _ := .enterHandler ht.safe' hb.holds.2
  have hsafe := hs.safe
  have hsafe' := hs'.safe
  have hheap := ht.safe.findHandler.2
  have hheap' := ht.safe'.findHandler.2
  obtain ⟨hsame, hk⟩ := ht.findHandler
  unfold ScriptMachine.enterHandler at hsafe hsafe' ⊢
  rw [modifyGet_run] at hsafe hsafe' ⊢
  rw [modifyGet_run]
  cases hx : m.findHandler with
  | mk target k =>
    cases hy : m'.findHandler with
    | mk target' k' =>
      rw [hx] at hsame hk hheap hsafe
      rw [hy] at hsame hk hheap' hsafe'
      dsimp only at hsame hk hheap hheap'
      subst hsame
      have hvals : Vals ρ v k w k' := by
        unfold Vals
        rw [hheap, hheap']
        exact hb
      cases target' with
      | none => exact .ok (List.Subset.refl ρ) hk ⟨hvals, rfl⟩
      | some target =>
        exact .ok (List.Subset.refl ρ) (hk.withPending hsafe hsafe' (.some hb.same)) ⟨hvals, rfl⟩

theorem takeException (ht : m.Twins ρ m') :
    Meets ρ Vals (takeException env m) (takeException env' m') := by
  have hruns : Runs env m ScriptMachine.takeException _ := .takeException ht.safe
  have hruns' : Runs env' m' ScriptMachine.takeException _ := .takeException ht.safe'
  have hs := hruns.safe
  have hs' := hruns'.safe
  have held {m : Machine} (hs : m.Safe) : m.Holds (m.pendingException.getD .undefined) := by
    cases hp : m.pendingException with
    | none => exact holds_of_not_cell (by simp)
    | some v => exact hs.holds_root (mem_roots.mpr (.inr (.inr (.inl hp))))
  refine .ok (List.Subset.refl ρ) (ht.withPending hs hs' .none) ?_
  exact ht.both (ht.pending.getD (.word (by simp))) (held ht.safe) (held ht.safe')

/-! ### Calls -/

/-- **Callees are found alike.** -/
theorem resolveCallee (he : env.Tandem env') (ht : m.Twins ρ m') (site : Site) (isConstruct : Bool)
    (hb : Heap.Both ρ m.heap m'.heap callee callee') :
    Meets ρ (fun _ r k r' k' => (∃ a b target, callee = .cell a ∧ callee' = .cell b ∧
        r = (a, target) ∧ r' = (b, target)) ∧ (m.Steady k ∧ k.heap = m.heap) ∧
        m'.Steady k' ∧ k'.heap = m'.heap)
      (resolveCallee callee site isConstruct env m) (resolveCallee callee' site isConstruct env' m') := by
  have hmain : Meets ρ (fun _ r _ r' _ => r'.2 = r.2) (ScriptMachine.resolveCallee callee site isConstruct
      env m) (ScriptMachine.resolveCallee callee' site isConstruct env' m') := by
    rcases Option.rel_iff.mp (ht.functionData? hb) with ⟨hx, hy⟩ | ⟨d, d', hx, hy, hd, -⟩
    · rw [ht.known.resolveCallee_refused hb.left hx, ht.known'.resolveCallee_refused hb.right hy]
      exact raiseError he ht _ (by rw [ht.display hb])
    · have htarget : d'.target = d.target := (congrArg FunctionData.target hd :)
      obtain ⟨hsame, hleft, hright⟩ := hb
      cases hsame with
      | word hv =>
        unfold Machine.functionData? Heap.cellOf? at hx
        rw [hv] at hx
        cases hx
      | @cell a b hp =>
        obtain ⟨s, hs⟩ := ht.known.resolveCallee_found (Heap.live_cell.mp hleft) hx site isConstruct
        obtain ⟨s', hs'⟩ := ht.known'.resolveCallee_found (Heap.live_cell.mp hright) hy site isConstruct
        have hknown := recognizes_function (List.mem_map_of_mem (f := Prod.fst) hp) hx
        have hknown' := recognizes_function (List.mem_map_of_mem (f := Prod.snd) hp) hy
        rw [hs, hs']
        exact .ok (List.Subset.refl ρ) (ht.cacheTarget s s' hknown hknown') htarget
  refine (hmain.also (Runs.result (Runs.resolveCallee ht.safe)) (Runs.result
    (Runs.resolveCallee ht.safe'))).mono ?_
  rintro _ ⟨a, target⟩ k ⟨b, _⟩ k' ⟨rfl, ⟨ha, hk⟩, hb, hk'⟩
  exact ⟨⟨a, b, _, ha, hb, rfl, rfl⟩, hk, hk'⟩

/-- **The new objects of a construction.** -/
theorem constructReceiver (he : env.Tandem env') (ht : m.Twins ρ m') (hk : Guarded ρ m m' (.cell a) (.cell b)) :
    Meets ρ (fun ρ v k w k' => Vals ρ v k w k' ∧ (∀ x, m.Guards x → k.Holds x) ∧
        ∀ x, m'.Guards x → k'.Holds x)
      (constructReceiver a env m) (constructReceiver b env' m') := by
  have hmain : Meets ρ Vals (ScriptMachine.constructReceiver a env m)
      (ScriptMachine.constructReceiver b env' m') := by
    obtain ⟨_, c, c', hb', -, hp, hc, hc'⟩ := (hk.both ht).cell (Value.cell?_cell a)
    obtain rfl := Value.cell_inj.mp hb'
    obtain ⟨prototype, prototype', hread, hread', hprototype⟩ := ht.getProperty? hp hc hc' m.names.prototype
    have hguards : m.Guards prototype := ht.safe.guards_property hk.left hread
    have hguards' : m'.Guards prototype' := ht.safe'.guards_property hk.right hread'
    unfold ScriptMachine.constructReceiver
    refine look ?_
    rw [ht.names, hread, hread']
    simp only [settled_some, pure_bind]
    rcases ht.objectCell? hprototype with ⟨hx, hy⟩ | ⟨o, o', -, -, hx, hy, -⟩
    · rw [hx, hy]
      exact made_vals (newObject he ht)
    · rw [hx, hy]
      have hroot := (ShapeTable.root_spec ht.safe.heap.shapes .object prototype).2
      have hroot' := (ShapeTable.root_spec ht.safe'.heap.shapes .object prototype').2
      dsimp only
      rw [bind_eq_of_ok (rootShape_run _ _ env m), bind_eq_of_ok (rootShape_run _ _ env' m')]
      have ha : Allocates { m with heap := (m.heap.rootShape .object prototype).2 }
          (m.heap.rootShape .object prototype).1 .plain prototype :=
        ⟨hroot, hguards.rootShape ht.safe _ _, hprototype.left, by simp [Payload.references]⟩
      have ha' : Allocates { m' with heap := (m'.heap.rootShape .object prototype').2 }
          (m'.heap.rootShape .object prototype').1 .plain prototype' :=
        ⟨hroot', hguards'.rootShape ht.safe' _ _, hprototype.right, by simp [Payload.references]⟩
      exact bind (allocate he (ht.rootShape .object prototype prototype') ha ha' hprototype.same .plain)
        fun ρ₁ id n id' n' _ hn hm => ret hn (hm.vals hn)
  refine (hmain.also (Runs.result (Runs.constructReceiver ht.safe hk.left))
    (Runs.result (Runs.constructReceiver ht.safe' hk.right))).mono ?_
  exact fun _ _ _ _ _ h => ⟨h.1, h.2.1.2, h.2.2.2⟩

end Meets

/-- **The operands of two calls.** -/
structure Calling (ρ : Pairing) (m m' : Machine) (callee callee' this this' : Value)
    (args args' : Array Value) (isConstruct : Bool) : Prop where
  target : ρ.Matches callee callee'
  receiver : ρ.Matches this this'
  arguments : Aligned ρ.Matches args args'
  left : Runs.Operands m callee this args isConstruct
  right : Runs.Operands m' callee' this' args' isConstruct

namespace Meets

variable {R : Pairing → α → Machine → β → Machine → Prop} {isConstruct : Bool}

/-- **What two calls do before anything runs**, when their callees have been found. -/
theorem callReady (he : env.Tandem env') (ht : m.Twins ρ m') (ho : m.Orderly)
    (hc : Calling ρ m m' (.cell a) (.cell b) this this' args args' isConstruct)
    {next : Value → MachineM α} {next' : Value → MachineM β}
    (hnext : ∀ ρ' this k this' k', ρ ⊆ ρ' → k.Twins ρ' k' → k.Orderly → m.Still k →
      Heap.Both ρ' k.heap k'.heap (.cell a) (.cell b) → Heap.Both ρ' k.heap k'.heap this this' →
      Aligned (Heap.Both ρ' k.heap k'.heap) args args' →
      Meets ρ' R (next this env k) (next' this' env' k')) :
    Meets ρ R ((do
        let this ← ScriptMachine.receiver a this isConstruct
        checkpoint (.cell a :: .cell a :: this :: args.toList)
        next this) env m)
      ((do
        let this ← ScriptMachine.receiver b this' isConstruct
        checkpoint (.cell b :: .cell b :: this :: args'.toList)
        next' this) env' m') := by
  have hgo {ρ₁ : Pairing} {k k' : Machine} {u u' : Value} (hle : ρ ⊆ ρ₁) (hk : k.Twins ρ₁ k')
      (hok : k.Orderly) (hs : m.Still k) (hu : Heap.Both ρ₁ k.heap k'.heap u u')
      (hguarded : ∀ v ∈ .cell a :: args.toList, k.Holds v)
      (hguarded' : ∀ v ∈ .cell b :: args'.toList, k'.Holds v) :
      Meets ρ₁ R ((do
          checkpoint (.cell a :: .cell a :: u :: args.toList)
          next u) env k)
        ((do
          checkpoint (.cell b :: .cell b :: u' :: args'.toList)
          next' u') env' k') := by
    refine pass he fun _ _ => hnext ρ₁ u k u' k' hle hk hok hs ?_ hu ?_
    · exact hk.both (hc.target.mono hle) (hguarded _ (by simp)) (hguarded' _ (by simp))
    · refine (hc.arguments.mono fun _ _ h => h.mono hle).both (fun v hv => ?_) fun v hv => ?_
      · exact hguarded v (by simp [hv]) hk.heap.addressable
      · exact hguarded' v (by simp [hv]) hk.heap.addressable'
  have sub {x y v : Value} {l : List Value} (hv : v ∈ x :: l) : v ∈ x :: y :: l :=
    List.cons_subset_cons x (List.subset_cons_self y l) hv
  unfold ScriptMachine.receiver
  cases isConstruct with
  | false =>
    have hthis := ht.both hc.receiver (hc.left.holds this (by simp)) (hc.right.holds this' (by simp))
    exact hgo (List.Subset.refl _) ht ho (.refl m) hthis (fun v hv => hc.left.holds v (sub hv))
      fun v hv => hc.right.holds v (sub hv)
  | true =>
    have hguarded : Guarded ρ m m' (.cell a) (.cell b) :=
      ⟨hc.target, hc.left.guards rfl _ (by simp), hc.right.guards rfl _ (by simp)⟩
    refine bindOrderly he ho (Keeping.constructReceiver a) (constructReceiver he ht hguarded) ?_
    rintro ρ₁ u k u' k' hle hk hok hs ⟨hu, hleft, hright⟩
    exact hgo hle hk hok hs hu (fun v hv => hleft v (hc.left.guards rfl v (sub hv)))
      fun v hv => hright v (hc.right.guards rfl v (sub hv))

/-- **The callees of two calls.** -/
theorem callFound (he : env.Tandem env') (ht : m.Twins ρ m') (ho : m.Orderly) (site : Site)
    (hc : Calling ρ m m' callee callee' this this' args args' isConstruct)
    {next : Handle × CallTarget → MachineM α} {next' : Handle × CallTarget → MachineM β}
    (hnext : ∀ ρ' a b target k k', callee = .cell a → callee' = .cell b → ρ ⊆ ρ' → k.Twins ρ' k' →
      k.Orderly → m.Still k → Calling ρ' k k' (.cell a) (.cell b) this this' args args' isConstruct →
      Meets ρ' R (next (a, target) env k) (next' (b, target) env' k')) :
    Meets ρ R ((ScriptMachine.resolveCallee callee site isConstruct >>= next) env m)
      ((ScriptMachine.resolveCallee callee' site isConstruct >>= next') env' m') := by
  have hb := ht.both hc.target (hc.left.holds callee (by simp)) (hc.right.holds callee' (by simp))
  refine bindOrderly he ho Keeping.resolveCallee (resolveCallee he ht site isConstruct hb) ?_
  rintro ρ₁ _ k _ k' hle hk hok hstill
    ⟨⟨a, b, target, rfl, rfl, rfl, rfl⟩, ⟨hsteady, hheap⟩, hsteady', hheap'⟩
  exact hnext ρ₁ a b target k k' rfl rfl hle hk hok hstill
    ⟨hc.target.mono hle, hc.receiver.mono hle, hc.arguments.mono fun _ _ h => h.mono hle,
      hc.left.congr hsteady hheap, hc.right.congr hsteady' hheap'⟩

theorem invokeHost (he : env.Tandem env') (ht : m.Twins ρ m') (function : HostId) :
    Meets ρ Vals (invokeHost function callee this args isConstruct env m)
      (invokeHost function callee' this' args' isConstruct env' m') :=
  bind ((he.host function _ _ ht).alsoLeft (Runs.result (he.sound.host function _ ht.safe)))
    fun _ _ _ _ _ _ _ h => h.2.elim

/-- **Calls in loops of their own.** -/
theorem callValue (he : env.Tandem env') (ht : m.Twins ρ m') (ho : m.Orderly) (site : Site)
    (hc : Calling ρ m m' callee callee' this this' args args' isConstruct) :
    Meets ρ Vals (callValue callee this args isConstruct site env m)
      (callValue callee' this' args' isConstruct site env' m') := by
  refine callFound he ht ho site hc ?_
  rintro ρ₁ a b target k k' rfl rfl - hk hok - hc
  refine callReady he hk hok hc fun ρ₂ this n this' n' _ hn hon _ hf hthis hargs => ?_
  cases target with
  | host host => exact invokeHost he hn host
  | script code =>
    have hpush := pushFrame he hn code none isConstruct true hf hthis hargs
    refine bind (hpush.alsoLeft (Proceeds.result (Proceeds.pushFrame he.orderly hon a code this args
      none isConstruct true))) ?_
    rintro ρ₃ _ x _ x' - hx ⟨-, hox, -, f, hframes, -⟩
    refine he.frame hx hox ?_
    rw [hframes]
    simp

/-- **What happens when frames have been pushed.** -/
theorem functionEntry (ht : m.Twins ρ m') :
    Meets ρ Same (functionEntry env m) (functionEntry env' m') := by
  unfold ScriptMachine.functionEntry
  rw [bind_eq_of_ok (notify_quiet ht.safe.listeners _), bind_eq_of_ok (notify_quiet ht.safe'.listeners _),
    bind_eq_of_ok (checkInterrupt_quiet ht.calm), bind_eq_of_ok (checkInterrupt_quiet ht.calm')]
  exact step (List.Subset.refl ρ) ht.tierUp.2 ht.tierUp.1

end Meets

end ScriptMachine
