import ScriptMachine.Proofs.Safety.Scope
import ScriptMachine.Proofs.Tandem.Property

/-! # Registers and scopes of two runs

The registers of twin machines hold values that match, and their scope chains lead along pairs. A walk up
a chain is cut off at the size of the heap, which may differ; but each link leads to older pairs, so a
chain is over before (`Machine.Twins.scopeUp?`). -/

namespace ScriptMachine

open Machine

variable {α β : Type} {ρ ρ' older : Pairing} {m m' k k' : Machine} {v w v' w' : Value} {env env' : Env}
  {site : Site} {name : Atom} {a b : Handle} {f f' : Frame}

/-- **Scopes of two runs**, both live. -/
def Heap.Linked (ρ : Pairing) (h h' : Heap) (scope scope' : Option Handle) : Prop :=
  Option.Rel (fun a b => Heap.Both ρ h h' (.cell a) (.cell b)) scope scope'

theorem Heap.Linked.pairs {h h' : Heap} {scope scope' : Option Handle}
    (hl : Heap.Linked ρ h h' scope scope') : Option.Rel ρ.Pairs scope scope' :=
  hl.mono fun a b hb => by
    obtain ⟨_, -, -, hb', -, hp, -, -⟩ := hb.cell (Value.cell?_cell a)
    obtain rfl := Value.cell_inj.mp hb'
    exact hp

/-- **Scope records of two runs.** -/
structure ScopeRecord.Twins (ρ older : Pairing) (h h' : Heap) (record record' : ScopeRecord) : Prop where
  names : record'.names = record.names
  slots : Aligned (Heap.Both ρ h h') record.slots record'.slots
  parent : Heap.Linked older h h' record.parent record'.parent

theorem Frame.Twins.update (h : f.Twins ρ f') {pc pc' scopeDepth scopeDepth' : UInt32}
    {scope scope' activation activation' : Option Handle} (hpc : pc' = pc)
    (hd : scopeDepth' = scopeDepth) (hs : Option.Rel ρ.Pairs scope scope')
    (ha : Option.Rel ρ.Pairs activation activation') :
    Frame.Twins ρ { f with pc, scope, activation, scopeDepth }
      { f' with pc := pc', scope := scope', activation := activation', scopeDepth := scopeDepth' } := by
  subst hpc hd
  exact ⟨(congrArg (fun g : Frame => { g with pc := pc', scope, activation, scopeDepth := scopeDepth' })
    h.same :), h.extraArgs, h.callee, h.this, hs, ha⟩

theorem Frame.Twins.redirects (h : f.Twins ρ f') (r : Register) :
    Option.Rel ρ.Pairs (f.redirects r) (f'.redirects r) := by
  unfold Frame.redirects
  rw [h.varCount]
  split
  · exact h.activation
  · exact .none

namespace Machine.Twins

/-! ### Frames -/

/-- The same change of the running frames. -/
theorem modifyFrame (ht : m.Twins ρ m') {g g' : Frame → Frame} (hs : (m.modifyFrame g).Safe)
    (hs' : (m'.modifyFrame g').Safe)
    (hg : ∀ f f', m.frame? = some f → m'.frame? = some f' → f.Twins ρ f' → (g f).Twins ρ (g' f')) :
    (m.modifyFrame g).Twins ρ (m'.modifyFrame g') := by
  refine ht.reframe hs hs' ht.registers ht.capacity ?_
  rw [← ht.frames.size]
  refine ht.frames.modify _ fun f f' hx hy hf => hg f f' (Array.back?_eq_getElem?.trans hx) ?_ hf
  exact Array.back?_eq_getElem?.trans (ht.frames.size ▸ hy)

theorem setPc (ht : m.Twins ρ m') (pc : UInt32) : (m.setPc pc).Twins ρ (m'.setPc pc) :=
  ht.modifyFrame (ht.safe.setPc pc) (ht.safe'.setPc pc) fun _ _ _ _ hf =>
    hf.update rfl hf.scopeDepth hf.scope hf.activation

/-- What frames refer to is live. -/
theorem frame_linked (ht : m.Twins ρ m') (hf : m.frame? = some f) (hf' : m'.frame? = some f')
    {scope scope' : Option Handle} (hs : Option.Rel ρ.Pairs scope scope')
    (hv : ∀ v, scope.map Value.cell = some v → v ∈ frameRoots f)
    (hv' : ∀ v, scope'.map Value.cell = some v → v ∈ frameRoots f') :
    Heap.Linked ρ m.heap m'.heap scope scope' := by
  cases hs with
  | none => exact .none
  | some hp =>
    exact .some (ht.both (.cell hp) (ht.safe.guards_frame (frame?_mem hf) (hv _ rfl)).holds
      (ht.safe'.guards_frame (frame?_mem hf') (hv' _ rfl)).holds)

theorem scope_linked (ht : m.Twins ρ m') (hf : m.frame? = some f) (hf' : m'.frame? = some f')
    (h : f.Twins ρ f') : Heap.Linked ρ m.heap m'.heap f.scope f'.scope :=
  ht.frame_linked hf hf' h.scope (fun _ hv => mem_frameRoots.mpr (.inr (.inr (.inl hv))))
    fun _ hv => mem_frameRoots.mpr (.inr (.inr (.inl hv)))

theorem activation_linked (ht : m.Twins ρ m') (hf : m.frame? = some f) (hf' : m'.frame? = some f')
    (h : f.Twins ρ f') : Heap.Linked ρ m.heap m'.heap f.activation f'.activation :=
  ht.frame_linked hf hf' h.activation (fun _ hv => mem_frameRoots.mpr (.inr (.inr (.inr (.inl hv)))))
    fun _ hv => mem_frameRoots.mpr (.inr (.inr (.inr (.inl hv))))

/-! ### Scope records -/

/-- The scope records of twin cells. -/
theorem record (ht : m.Twins ρ m') {c c' : Cell} (hcell : c.Twins ρ older m.heap.shapes m'.heap.shapes c')
    (hc : m.heap.cell? a = some c) (hc' : m'.heap.cell? b = some c') :
    Option.Rel (ScopeRecord.Twins ρ older m.heap m'.heap) (m.scopeRecord? a) (m'.scopeRecord? b) := by
  unfold scopeRecord? Cell.scope?
  rw [hc, hc']
  dsimp only
  have hpay := hcell.payload
  cases hp : c.payload <;> cases hp' : c'.payload <;> rw [hp, hp'] at hpay <;> cases hpay
  case activation.activation names slots slots' parent parent' hslots hparent =>
    have held {m : Machine} {a : Handle} {c : Cell} {record : ScopeRecord} {room : Nat} {v : Value}
        (hcl : m.Clean) (hc : m.heap.cell? a = some c) (hp : c.payload = .activation record room)
        (hv : v ∈ record.slots ∨ record.parent.map Value.cell = some v) : v.Live m.heap := by
      refine hcl.closed.held a c v hc (.inr ?_)
      rw [hp]
      simpa [Payload.references, Option.mem_toList] using hv
    refine .some ⟨rfl, hslots.both (fun v hv => held ht.clean hc hp (.inl hv))
      (fun v hv => held ht.clean' hc' hp' (.inl hv)), ?_⟩
    cases hparent with
    | none => exact .none
    | some hq =>
      exact .some ⟨.cell hq, held ht.clean hc hp (.inr rfl), held ht.clean' hc' hp' (.inr rfl)⟩
  all_goals exact .none

theorem scopeRecord? (ht : m.Twins ρ m') (hb : Heap.Both ρ m.heap m'.heap (.cell a) (.cell b)) :
    Option.Rel (ScopeRecord.Twins ρ ρ m.heap m'.heap) (m.scopeRecord? a) (m'.scopeRecord? b) := by
  obtain ⟨_, c, c', hb', -, hp, hc, hc'⟩ := hb.cell (Value.cell?_cell a)
  obtain rfl := Value.cell_inj.mp hb'
  exact ht.record (ht.heap.twin hp hc hc') hc hc'

theorem scopeSlot (ht : m.Twins ρ m') (hb : Heap.Both ρ m.heap m'.heap (.cell a) (.cell b)) (index : Nat) :
    Heap.Both ρ m.heap m'.heap (m.scopeSlot a index) (m'.scopeSlot b index) := by
  unfold Machine.scopeSlot
  rcases Option.rel_iff.mp (ht.scopeRecord? hb) with ⟨hx, hy⟩ | ⟨r, r', hx, hy, hr⟩
  · rw [hx, hy]
    exact .word (by simp)
  · rw [hx, hy]
    exact hr.slots.getD index (.word (by simp))

theorem setScopeSlot (ht : m.Twins ρ m') (hb : ρ.Pairs a b) (index : Nat)
    (hv : Heap.Both ρ m.heap m'.heap v w) :
    (m.setScopeSlot a index v).Twins ρ (m'.setScopeSlot b index w) :=
  ht.changes (setScopeSlot_changes ht.safe a index hv.holds.1)
    (setScopeSlot_changes ht.safe' b index hv.holds.2) (.mapScope _ a _) (.mapScope _ b _)
    (ht.heap.setVariable hb index hv.same)

/-! ### Registers -/

/-- **Registers of the running frames.** -/
theorem register (ht : m.Twins ρ m') (r : Register) : Guarded ρ m m' (m.register r) (m'.register r) := by
  refine ⟨?_, ht.safe.guards_register r, ht.safe'.guards_register r⟩
  unfold Machine.register
  rcases Option.rel_iff.mp ht.frame? with ⟨hx, hy⟩ | ⟨f, f', hx, hy, hf⟩
  · rw [hx, hy]
    exact .word (by simp)
  · rw [hx, hy]
    dsimp only
    have hlinked := ht.frame_linked hx hy (hf.redirects r) (fun v hv => ?_) fun v hv => ?_
    · rcases Option.rel_iff.mp hlinked with ⟨hr, hr'⟩ | ⟨a, b, hr, hr', hb⟩
      · rw [hr, hr', hf.base]
        exact ht.registers.getD _ (.word (by simp))
      · rw [hr, hr']
        exact (ht.scopeSlot hb _).same
    all_goals
      unfold Frame.redirects at hv
      split at hv
      · exact mem_frameRoots.mpr (.inr (.inr (.inr (.inl hv))))
      · cases hv

theorem setRegister (ht : m.Twins ρ m') (r : Register) (hv : Heap.Both ρ m.heap m'.heap v w) :
    (m.setRegister r v).Twins ρ (m'.setRegister r w) := by
  have hs := (ht.safe.setRegister r hv.holds.1).1
  have hs' := (ht.safe'.setRegister r hv.holds.2).1
  unfold Machine.setRegister at hs hs' ⊢
  rcases Option.rel_iff.mp ht.frame? with ⟨hx, hy⟩ | ⟨f, f', hx, hy, hf⟩
  · rw [hx, hy]
    exact ht
  · rw [hx] at hs ⊢
    rw [hy] at hs' ⊢
    dsimp only at hs hs' ⊢
    rcases Option.rel_iff.mp (hf.redirects r) with ⟨hr, hr'⟩ | ⟨a, b, hr, hr', hp⟩
    · rw [hr] at hs ⊢
      rw [hr'] at hs' ⊢
      refine ht.reframe hs hs' ?_ ht.capacity ht.frames
      rw [hf.base]
      exact ht.registers.set _ hv.same
    · rw [hr, hr']
      exact ht.setScopeSlot hp _ hv

/-! ### Scope chains -/

/-- A walk of so many links that is cut off only where there are no more of them. -/
def Cut (h : Heap) (ids : List Handle) (depth count : Nat) : Prop :=
  count = depth ∨ count ≤ depth ∧ h.Enough ids count

theorem Cut.step {h : Heap} {ids rest : List Handle} {depth count : Nat}
    (hc : Cut h ids (depth + 1) count)
    (hrest : ∀ {fuel}, h.Enough ids fuel → ∃ n, fuel = n + 1 ∧ h.Enough rest n) :
    ∃ n, count = n + 1 ∧ Cut h rest depth n := by
  rcases hc with rfl | ⟨hle, hn⟩
  · exact ⟨depth, rfl, .inl rfl⟩
  · obtain ⟨n, rfl, hn₁⟩ := hrest hn
    exact ⟨n, rfl, .inr ⟨by omega, hn₁⟩⟩

/-- **A walk up a scope chain.** -/
theorem scopeUp? (ht : m.Twins ρ m') {older : Pairing} (hs : older <:+ ρ) {depth count count' : Nat}
    (hn : Cut m.heap (older.map Prod.fst) depth count)
    (hn' : Cut m'.heap (older.map Prod.snd) depth count') {scope scope' : Option Handle}
    (hl : Heap.Linked older m.heap m'.heap scope scope') :
    Heap.Linked ρ m.heap m'.heap (m.scopeUp? count scope) (m'.scopeUp? count' scope') := by
  have hnone (m : Machine) (n : Nat) : m.scopeUp? n none = none := by cases n <;> rfl
  cases hl with
  | none =>
    rw [hnone, hnone]
    exact .none
  | @some a b hb =>
    cases depth with
    | zero =>
      obtain rfl : count = 0 := by rcases hn with h | h <;> omega
      obtain rfl : count' = 0 := by rcases hn' with h | h <;> omega
      exact .some ⟨hb.same.mono hs.subset, hb.left, hb.right⟩
    | succ depth =>
      obtain ⟨_, c, c', hb', -, hp, hc, hc'⟩ := hb.cell (Value.cell?_cell a)
      obtain rfl := Value.cell_inj.mp hb'
      obtain ⟨rest, hs', hlt, hcell, hrest, hrest'⟩ := ht.heap.link hs hp hc hc'
      obtain ⟨n, rfl, hn₁⟩ := hn.step hrest
      obtain ⟨n', rfl, hn₁'⟩ := hn'.step hrest'
      simp only [Machine.scopeUp?]
      rcases Option.rel_iff.mp (ht.record hcell hc hc') with ⟨hx, hy⟩ | ⟨r, r', hx, hy, hr⟩
      · rw [hx, hy]
        exact .none
      · rw [hx, hy]
        exact ht.scopeUp? hs' hn₁ hn₁' hr.parent
termination_by older.length

theorem scopeAt? (ht : m.Twins ρ m') (depth : UInt32) :
    Heap.Linked ρ m.heap m'.heap (m.scopeAt? depth) (m'.scopeAt? depth) := by
  have cut {h : Heap} {ids : List Handle} (hn : h.Enough ids (h.slots.size + 1)) :
      Cut h ids depth.toNat (min depth.toNat (h.slots.size + 1)) := by
    rcases Nat.le_total depth.toNat (h.slots.size + 1) with hle | hle
    · exact .inl (Nat.min_eq_left hle)
    · rw [Nat.min_eq_right hle]
      exact .inr ⟨hle, hn⟩
  obtain ⟨hn, hn'⟩ := ht.heap.enough (Nat.le_succ _) (Nat.le_succ _)
  unfold Machine.scopeAt?
  rcases Option.rel_iff.mp ht.frame? with ⟨hx, hy⟩ | ⟨f, f', hx, hy, hf⟩
  · rw [hx, hy]
    exact .none
  · rw [hx, hy]
    exact ht.scopeUp? (List.suffix_refl ρ) (cut hn) (cut hn') (ht.scope_linked hx hy hf)

/-- **Variables of outer scopes.** -/
theorem scopedVar (ht : m.Twins ρ m') (depth index : UInt32) :
    Heap.Both ρ m.heap m'.heap (m.scopedVar depth index) (m'.scopedVar depth index) := by
  unfold Machine.scopedVar
  rcases Option.rel_iff.mp (ht.scopeAt? depth) with ⟨hx, hy⟩ | ⟨a, b, hx, hy, hb⟩
  · rw [hx, hy]
    exact .word (by simp)
  · rw [hx, hy]
    exact ht.scopeSlot hb _

theorem setScopedVar (ht : m.Twins ρ m') (depth index : UInt32) (hv : Heap.Both ρ m.heap m'.heap v w) :
    (m.setScopedVar depth index v).Twins ρ (m'.setScopedVar depth index w) := by
  unfold Machine.setScopedVar
  rcases Option.rel_iff.mp (ht.scopeAt? depth) with ⟨hx, hy⟩ | ⟨a, b, hx, hy, hb⟩
  · rw [hx, hy]
    exact ht
  · rw [hx, hy]
    obtain ⟨_, -, -, hb', -, hp, -, -⟩ := hb.cell (Value.cell?_cell a)
    obtain rfl := Value.cell_inj.mp hb'
    exact ht.setScopeSlot hp _ hv

theorem popScope (ht : m.Twins ρ m') : m.popScope.Twins ρ m'.popScope := by
  have hs := ht.safe.popScope
  have hs' := ht.safe'.popScope
  unfold Machine.popScope at hs hs' ⊢
  rcases Option.rel_iff.mp ht.frame? with ⟨hx, hy⟩ | ⟨f, f', hx, hy, hf⟩
  · rw [hx, hy]
    exact ht
  · rw [hx] at hs ⊢
    rw [hy] at hs' ⊢
    dsimp only at hs hs' ⊢
    rw [hf.scopeDepth] at hs' ⊢
    by_cases hd : f.scopeDepth = 0
    · rw [if_pos hd, if_pos hd]
      exact ht
    · rw [if_neg hd] at hs hs' ⊢
      rw [if_neg hd]
      refine ht.modifyFrame hs hs' fun g g' hg hg' htw => ?_
      obtain rfl := Option.some.inj (hx.symm.trans hg)
      obtain rfl := Option.some.inj (hy.symm.trans hg')
      refine hf.update hf.pc (by rw [hf.scopeDepth]) ?_ hf.activation
      rcases Option.rel_iff.mp (ht.scope_linked hx hy hf) with ⟨hx, hy⟩ | ⟨a, b, hx, hy, hb⟩
      · rw [hx, hy]
        exact .none
      · rw [hx, hy]
        dsimp only
        rcases Option.rel_iff.mp (ht.scopeRecord? hb) with ⟨hx, hy⟩ | ⟨r, r', hx, hy, hr⟩
        · rw [hx, hy]
          exact .none
        · rw [hx, hy]
          exact hr.parent.pairs

/-! ### Names -/

/-- **Searches of two runs.** -/
inductive Found (ρ : Pairing) (h h' : Heap) : ScopeSearch → ScopeSearch → Prop
  | found (depth index : Nat) : Found ρ h h' (.found depth index) (.found depth index)
  | next (depth : Nat) {scope scope' : Option Handle} : Heap.Linked ρ h h' scope scope' →
      Found ρ h h' (.next depth scope) (.next depth scope')
  | broken : Found ρ h h' .broken .broken

theorem searchRecords (ht : m.Twins ρ m') (name : Atom) (count depth : Nat) {scope scope' : Option Handle}
    (hl : Heap.Linked ρ m.heap m'.heap scope scope') :
    Found ρ m.heap m'.heap (m.searchRecords name count depth scope)
      (m'.searchRecords name count depth scope') := by
  induction count generalizing depth scope scope' with
  | zero => exact .next depth hl
  | succ count ih =>
    cases hl with
    | none => exact .broken
    | some hb =>
      simp only [Machine.searchRecords]
      rcases Option.rel_iff.mp (ht.scopeRecord? hb) with ⟨hx, hy⟩ | ⟨r, r', hx, hy, hr⟩
      · rw [hx, hy]
        exact .broken
      · rw [hx, hy]
        dsimp only
        rw [hr.names]
        cases r.names.findIdx? (· == name) with
        | some index => exact .found depth index
        | none => exact ih _ hr.parent

/-- **A search up to the end** of a scope chain. -/
theorem searchChain (ht : m.Twins ρ m') (name : Atom) {older : Pairing} (hs : older <:+ ρ)
    {fuel fuel' : Nat} (hn : m.heap.Enough (older.map Prod.fst) fuel)
    (hn' : m'.heap.Enough (older.map Prod.snd) fuel') (depth : Nat) {scope scope' : Option Handle}
    (hl : Heap.Linked older m.heap m'.heap scope scope') :
    Found ρ m.heap m'.heap (m.searchChain name fuel depth scope)
      (m'.searchChain name fuel' depth scope') := by
  have hnone (m : Machine) (n : Nat) : m.searchChain name n depth none = .next depth none := by
    cases n <;> rfl
  cases hl with
  | none =>
    rw [hnone, hnone]
    exact .next depth .none
  | @some a b hb =>
    obtain ⟨_, c, c', hb', -, hp, hc, hc'⟩ := hb.cell (Value.cell?_cell a)
    obtain rfl := Value.cell_inj.mp hb'
    obtain ⟨rest, hs', hlt, hcell, hrest, hrest'⟩ := ht.heap.link hs hp hc hc'
    obtain ⟨n, rfl, hn₁⟩ := hrest hn
    obtain ⟨n', rfl, hn₁'⟩ := hrest' hn'
    simp only [Machine.searchChain]
    rcases Option.rel_iff.mp (ht.record hcell hc hc') with ⟨hx, hy⟩ | ⟨r, r', hx, hy, hr⟩
    · rw [hx, hy]
      exact .broken
    · rw [hx, hy]
      dsimp only
      rw [hr.names]
      cases r.names.findIdx? (· == name) with
      | some index => exact .found depth index
      | none => exact ht.searchChain name hs' hn₁ hn₁' _ hr.parent
termination_by older.length

theorem capturedScope (ht : m.Twins ρ m') (hx : m.frame? = some f) (hy : m'.frame? = some f')
    (hf : f.Twins ρ f') (depth : Nat) {scope scope' : Option Handle}
    (hl : Heap.Linked ρ m.heap m'.heap scope scope') :
    (m'.capturedScope f' depth scope').1 = (m.capturedScope f depth scope).1 ∧
      Heap.Linked ρ m.heap m'.heap (m.capturedScope f depth scope).2
        (m'.capturedScope f' depth scope').2 := by
  unfold Machine.capturedScope
  rcases Option.rel_iff.mp (ht.activation_linked hx hy hf) with ⟨ha, ha'⟩ | ⟨a, b, ha, ha', hb⟩
  · rw [ha, ha']
    exact ⟨rfl, hl⟩
  · rw [ha, ha']
    dsimp only
    have hsame : scope = some a ↔ scope' = some b := by
      cases hl with
      | none => simp
      | some hc =>
        simpa using (ht.heap.value_iff hc.same hb.same)
    by_cases h : scope = some a
    · rw [if_pos h, if_pos (hsame.mp h)]
      refine ⟨rfl, ?_⟩
      rcases Option.rel_iff.mp (ht.scopeRecord? hb) with ⟨hx, hy⟩ | ⟨r, r', hx, hy, hr⟩
      · rw [hx, hy]
        exact .none
      · rw [hx, hy]
        exact hr.parent
    · rw [if_neg h, if_neg fun h' => h (hsame.mpr h')]
      exact ⟨rfl, hl⟩

/-- **Names are bound to the same places.** -/
theorem search? (ht : m.Twins ρ m') (name : Atom) : m'.search? name = m.search? name := by
  unfold Machine.search?
  rcases Option.rel_iff.mp ht.frame? with ⟨hx, hy⟩ | ⟨f, f', hx, hy, hf⟩
  · rw [hx, hy]
  · rw [hx, hy]
    dsimp only
    rw [hf.scopeDepth, hf.code]
    have hsearch := ht.searchRecords name f.scopeDepth.toNat 0 (ht.scope_linked hx hy hf)
    generalize m.searchRecords name f.scopeDepth.toNat 0 f.scope = r at hsearch
    generalize m'.searchRecords name f.scopeDepth.toNat 0 f'.scope = r' at hsearch
    cases hsearch with
    | found | broken => rfl
    | @next depth scope scope' hl =>
      dsimp only
      obtain ⟨hdepth, hcaptured⟩ := ht.capturedScope hx hy hf depth hl
      obtain ⟨hn, hn'⟩ := ht.heap.enough (Nat.le_succ _) (Nat.le_succ _)
      have hchain := ht.searchChain name (List.suffix_refl ρ) hn hn' (m.capturedScope f depth scope).1
        hcaptured
      have hglobal : m'.heap.hasProperty? m'.intrinsics.global name =
          m.heap.hasProperty? m.intrinsics.global name := by
        have hmem : m.intrinsics.global ∈ m.intrinsics.objects := by simp [Intrinsics.objects]
        obtain ⟨_, c, c', hb, -, hp, hc, hc'⟩ := ((ht.intrinsic hmem).both ht).cell (Value.cell?_cell _)
        obtain rfl := Value.cell_inj.mp hb
        rw [ht.intrinsics]
        obtain ⟨found, hfound, hfound'⟩ :=
          ht.heap.hasProperty? ht.clean.closed ht.clean'.closed hp hc hc' name
        rw [hfound, hfound']
      rw [hdepth, hglobal]
      generalize m.searchChain name (m.heap.slots.size + 1) _ _ = r at hchain ⊢
      generalize m'.searchChain name (m'.heap.slots.size + 1) _ _ = r' at hchain ⊢
      rcases Option.rel_iff.mp (ht.code? f.code) with ⟨hx, hy⟩ | ⟨e, e', hx, hy, he⟩
      · rw [hx, hy]
        cases hchain <;> rfl
      · rw [hx, hy]
        dsimp only
        rw [he.variableNames]
        cases hchain <;> rfl

end Machine.Twins

namespace Meets

/-! ### Opening scopes -/

theorem currentFrame (ht : m.Twins ρ m') :
    Meets ρ (fun ρ' f k f' k' => ρ' = ρ ∧ k = m ∧ k' = m' ∧ f.Twins ρ f' ∧ m.frame? = some f ∧
      m'.frame? = some f')
      (currentFrame env m) (currentFrame env' m') := by
  refine look ?_
  rcases Option.rel_iff.mp ht.frame? with ⟨hx, hy⟩ | ⟨f, f', hx, hy, hf⟩
  · rw [hx, hy]
    exact failed ht _
  · rw [hx, hy]
    exact ret ht ⟨rfl, rfl, rfl, hf, rfl, rfl⟩

/-- A new scope record. -/
theorem newScope (he : env.Tandem env') (ht : m.Twins ρ m') (names : Array Atom)
    {slots slots' : Array Value} {parent parent' : Option Handle}
    (hslots : Aligned ρ.Matches slots slots') (hparent : Option.Rel ρ.Pairs parent parent')
    (hv : ∀ v ∈ slots, m.Guards v) (hv' : ∀ v ∈ slots', m'.Guards v)
    (hp : ∀ v, parent.map Value.cell = some v → m.Guards v)
    (hp' : ∀ v, parent'.map Value.cell = some v → m'.Guards v) :
    Meets ρ (fun ρ a k b k' => Made m m' ρ (.cell a) k (.cell b) k')
      ((ScriptMachine.allocate m.intrinsics.activationShape (.activation ⟨slots, names, parent⟩)) env m)
      ((ScriptMachine.allocate m'.intrinsics.activationShape (.activation ⟨slots', names, parent'⟩)) env'
        m') := by
  have allocates {m : Machine} {slots : Array Value} {parent : Option Handle} (hs : m.Safe)
      (hv : ∀ v ∈ slots, m.Guards v) (hp : ∀ v, parent.map Value.cell = some v → m.Guards v) :
      Allocates m m.intrinsics.activationShape (.activation ⟨slots, names, parent⟩) .null := by
    refine ⟨hs.anchored.intrinsics.shaped.activation, guards_of_not_cell (by simp),
      fun _ h => by simp at h, fun v hmem => ?_⟩
    simp only [Payload.references, List.mem_append, Array.mem_toList_iff, Option.mem_toList] at hmem
    exact hmem.elim (hv v) (hp v)
  exact allocate he ht (allocates ht.safe hv hp) (allocates ht.safe' hv' hp') (.word (by simp))
    (.activation hslots hparent)

/-- Entering scope records that are live. -/
theorem enterScope (ht : m.Twins ρ m') (hb : Heap.Both ρ m.heap m'.heap (.cell a) (.cell b))
    {g g' : Frame → Frame} (hg : ∀ f v, v ∈ frameRoots (g f) → v ∈ frameRoots f ∨ v = .cell a)
    (hg' : ∀ f v, v ∈ frameRoots (g' f) → v ∈ frameRoots f ∨ v = .cell b)
    (htwins : ∀ f f', f.Twins ρ f' → (g f).Twins ρ (g' f')) :
    Meets ρ (fun ρ _ k _ k' => Heap.Both ρ k.heap k'.heap (.cell a) (.cell b))
      ((modify (·.modifyFrame g) : MachineM PUnit) env m)
      ((modify (·.modifyFrame g') : MachineM PUnit) env' m') :=
  have hs : Runs env m (modify (·.modifyFrame g)) _ := .enterScope ht.safe hb.holds.1 hg
  have hs' : Runs env' m' (modify (·.modifyFrame g')) _ := .enterScope ht.safe' hb.holds.2 hg'
  update (ht.modifyFrame hs.safe hs'.safe fun f f' _ _ => htwins f f') hb

theorem tearOffActivation (he : env.Tandem env') (ht : m.Twins ρ m') :
    Meets ρ (fun ρ a k b k' => Vals ρ (.cell a) k (.cell b) k') (tearOffActivation env m)
      (tearOffActivation env' m') := by
  refine bind (currentFrame ht) ?_
  rintro ρ f k f' k' - ht ⟨rfl, rfl, rfl, hf, hx, hy⟩
  rcases Option.rel_iff.mp (ht.activation_linked hx hy hf) with ⟨ha, ha'⟩ | ⟨a, b, ha, ha', hb⟩
  · have hslots : Aligned ρ.Matches
        ((Array.range f.varCount.toNat).map fun i => k.registers.get (f.base + i))
        ((Array.range f'.varCount.toNat).map fun i => k'.registers.get (f'.base + i)) := by
      rw [hf.varCount, hf.base]
      exact (Aligned.refl (r := Eq) fun _ _ => rfl).map fun i _ h => h ▸
        ht.registers.getD _ (.word (by simp))
    have guards {m : Machine} (hs : m.Safe) (f : Frame) (v : Value)
        (hv : v ∈ (Array.range f.varCount.toNat).map fun i => m.registers.get (f.base + i)) :
        m.Guards v := by
      obtain ⟨i, -, rfl⟩ := Array.mem_map.mp hv
      exact hs.guards_registers _
    have hmade (names : Array Atom) := newScope he ht names hslots hf.scope
      (guards ht.safe f) (guards ht.safe' f') (Runs.guards_scope ht.safe hx)
      (Runs.guards_scope ht.safe' hy)
    rw [ha, ha']
    refine look ?_
    have hrest (names : Array Atom) : Meets ρ (fun ρ a k b k' => Vals ρ (.cell a) k (.cell b) k')
        ((do
          let activation ← ScriptMachine.allocate k.intrinsics.activationShape (.activation
            ⟨(Array.range f.varCount.toNat).map fun i => k.registers.get (f.base + i), names, f.scope⟩)
          modify fun m : Machine => m.modifyFrame fun f =>
            { f with activation := some activation, scope := some activation }
          return activation) env k)
        ((do
          let activation ← ScriptMachine.allocate k'.intrinsics.activationShape (.activation
            ⟨(Array.range f'.varCount.toNat).map fun i => k'.registers.get (f'.base + i), names,
              f'.scope⟩)
          modify fun m : Machine => m.modifyFrame fun f =>
            { f with activation := some activation, scope := some activation }
          return activation) env' k') := by
      refine bind (hmade names) fun ρ₁ a n b n' _ hn hm => ?_
      have hb := hm.vals hn
      obtain ⟨_, -, -, hb', -, hp, -, -⟩ := hb.cell (Value.cell?_cell a)
      obtain rfl := Value.cell_inj.mp hb'
      have roots {f : Frame} {a : Handle} {v : Value} (hmem : v ∈ frameRoots
          { f with activation := some a, scope := some a }) : v ∈ frameRoots f ∨ v = .cell a := by
        rw [mem_frameRoots] at hmem ⊢
        rcases hmem with h | h | h | h | h
        · exact .inl (.inl h)
        · exact .inl (.inr (.inl h))
        · exact .inr (Option.some.inj h).symm
        · exact .inr (Option.some.inj h).symm
        · exact .inl (.inr (.inr (.inr (.inr h))))
      refine bind (enterScope hn hb (fun _ _ => roots) (fun _ _ => roots) fun f f' hf =>
        hf.update hf.pc hf.scopeDepth (.some hp) (.some hp)) fun ρ₂ _ n₂ _ n₂' _ hn₂ hb₂ => ret hn₂ hb₂
    rw [hf.code]
    rcases Option.rel_iff.mp (ht.code? f.code) with ⟨hx, hy⟩ | ⟨e, e', hx, hy, he⟩
    · rw [hx, hy]
      exact hrest _
    · rw [hx, hy]
      dsimp only
      rw [he.variableNames]
      exact hrest _
  · rw [ha, ha']
    exact ret ht hb

theorem tearOffIfNeeded (he : env.Tandem env') (ht : m.Twins ρ m') :
    Meets ρ (fun _ _ _ _ _ => True) (tearOffIfNeeded env m) (tearOffIfNeeded env' m') := by
  refine bind (currentFrame ht) ?_
  rintro ρ f k f' k' - ht ⟨rfl, rfl, rfl, hf, -, -⟩
  refine look ?_
  rw [hf.code]
  rcases Option.rel_iff.mp (ht.code? f.code) with ⟨hx, hy⟩ | ⟨e, e', hx, hy, hentry⟩
  · rw [hx, hy]
    exact ret ht trivial
  · rw [hx, hy]
    refine ite (by rw [hentry.block]) (fun _ => ?_) fun _ => ret ht trivial
    exact bind (tearOffActivation he ht) fun _ _ _ _ _ _ hk _ => ret hk trivial

/-- **Opening a block scope.** -/
theorem pushScope (he : env.Tandem env') (ht : m.Twins ρ m') (layout : UInt32) :
    Meets ρ (fun _ _ _ _ _ => True) (pushScope layout env m) (pushScope layout env' m') := by
  refine bind (tearOffIfNeeded he ht) fun ρ₁ _ k _ k' _ ht _ => bind (currentFrame ht) ?_
  rintro ρ f k f' k' - ht ⟨rfl, rfl, rfl, hf, hx, hy⟩
  have hrest {names names' : Array Atom} (hnames : names = names') : Meets ρ (fun _ _ _ _ _ => True)
      ((do
        let scope ← ScriptMachine.allocate k.intrinsics.activationShape (.activation
          ⟨Array.replicate names.size .undefined, names, f.scope⟩)
        modify fun m : Machine => m.modifyFrame fun f =>
          { f with scope := some scope, scopeDepth := f.scopeDepth + 1 }) env k)
      ((do
        let scope ← ScriptMachine.allocate k'.intrinsics.activationShape (.activation
          ⟨Array.replicate names'.size .undefined, names', f'.scope⟩)
        modify fun m : Machine => m.modifyFrame fun f =>
          { f with scope := some scope, scopeDepth := f.scopeDepth + 1 }) env' k') := by
    subst hnames
    have guards {m : Machine} (v : Value) (hv : v ∈ Array.replicate names.size Value.undefined) :
        m.Guards v := by
      rw [Array.mem_replicate] at hv
      exact guards_of_not_cell (by simp [hv.2])
    refine bind (newScope he ht names (.replicate _ (.word (by simp))) hf.scope guards guards
      (Runs.guards_scope ht.safe hx) (Runs.guards_scope ht.safe' hy)) fun ρ₁ a n b n' _ hn hm => ?_
    have hb := hm.vals hn
    obtain ⟨_, -, -, hb', -, hp, -, -⟩ := hb.cell (Value.cell?_cell a)
    obtain rfl := Value.cell_inj.mp hb'
    have roots {f : Frame} {a : Handle} {v : Value} (hmem : v ∈ frameRoots
        { f with scope := some a, scopeDepth := f.scopeDepth + 1 }) :
        v ∈ frameRoots f ∨ v = .cell a := by
      rw [mem_frameRoots] at hmem ⊢
      rcases hmem with h | h | h | h
      · exact .inl (.inl h)
      · exact .inl (.inr (.inl h))
      · exact .inr (Option.some.inj h).symm
      · exact .inl (.inr (.inr (.inr h)))
    exact (enterScope hn hb (fun _ _ => roots) (fun _ _ => roots) fun f f' hf =>
      hf.update hf.pc (by rw [hf.scopeDepth]) (.some hp) hf.activation).mono fun _ _ _ _ _ _ => trivial
  refine look (hrest ?_)
  rw [hf.code]
  rcases Option.rel_iff.mp (ht.code? f.code) with ⟨hx, hy⟩ | ⟨e, e', hx, hy, hentry⟩
  · rw [hx, hy]
  · rw [hx, hy]
    dsimp only
    rw [hentry.scopeLayouts]

/-- **The value a name is bound to.** -/
theorem resolveName (he : env.Tandem env') (ht : m.Twins ρ m') (name : Atom) :
    Meets ρ Vals (resolveName name env m) (resolveName name env' m') := by
  refine look ?_
  rw [ht.search?]
  cases m.search? name with
  | none => exact .exhausted
  | some location =>
    simp only [settled_some, pure_bind]
    cases location with
    | none => exact raiseError he ht _ (by rw [ht.atomName])
    | some location =>
      cases location with
      | register r => exact ret ht ((ht.register r).both ht)
      | scope depth index => exact ret ht (ht.scopedVar _ _)
      | global =>
        have hmem : m.intrinsics.global ∈ m.intrinsics.objects := by simp [Intrinsics.objects]
        obtain ⟨_, c, c', hb, -, hp, hc, hc'⟩ := ((ht.intrinsic hmem).both ht).cell (Value.cell?_cell _)
        obtain rfl := Value.cell_inj.mp hb
        dsimp only
        rw [ht.intrinsics]
        obtain ⟨x, y, hx, hy, hxy⟩ := ht.getProperty? hp hc hc' name
        rw [hx, hy]
        exact ret ht hxy

/-- **An array of the arguments.** -/
theorem argumentsObject (he : env.Tandem env') (ht : m.Twins ρ m') :
    Meets ρ Vals (argumentsObject env m) (argumentsObject env' m') := by
  refine bind (currentFrame ht) ?_
  rintro ρ f k f' k' - ht ⟨rfl, rfl, rfl, hf, hx, hy⟩
  have hrest (declared : Nat) : Meets ρ Vals
      (ScriptMachine.newArray ⟨((Array.range declared).map fun i => k.register i.toUInt32) ++ f.extraArgs,
        extendedCapacity declared f.extraArgs.size⟩ env k)
      (ScriptMachine.newArray ⟨((Array.range declared).map fun i => k'.register i.toUInt32) ++ f'.extraArgs,
        extendedCapacity declared f'.extraArgs.size⟩ env' k') := by
    have guards {m : Machine} (hs : m.Safe) {f : Frame} (hf : m.frame? = some f) (v : Value)
        (hv : v ∈ ((Array.range declared).map fun i => m.register i.toUInt32) ++ f.extraArgs) :
        m.Guards v := by
      rcases Array.mem_append.mp hv with hv | hv
      · obtain ⟨i, -, rfl⟩ := Array.mem_map.mp hv
        exact hs.guards_register _
      · exact hs.guards_frame (frame?_mem hf) (mem_frameRoots.mpr (.inr (.inr (.inr (.inr hv)))))
    refine made_vals (newArray he ht (.append ?_ hf.extraArgs) (guards ht.safe hx) (guards ht.safe' hy))
    exact (Aligned.refl (r := Eq) fun _ _ => rfl).map fun i _ h => h ▸ (ht.register _).same
  refine look ?_
  rw [hf.code]
  rcases Option.rel_iff.mp (ht.code? f.code) with ⟨hx, hy⟩ | ⟨e, e', hx, hy, hentry⟩
  · rw [hx, hy]
    exact hrest _
  · rw [hx, hy]
    dsimp only
    rw [hentry.block, hf.argc]
    exact hrest _

end Meets

end ScriptMachine
