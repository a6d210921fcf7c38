import ScriptMachine.Proofs.Heap.Edits
import ScriptMachine.Proofs.Heap.Issue
import ScriptMachine.Proofs.Heap.Storage
import ScriptMachine.Proofs.Tandem.Layout

/-! # Heaps of two runs

Two heaps are twins (`Heap.Twins`) under a pairing of the handles that were issued if the cells of a pair
are twins wherever both are still live: laid out alike, with matching values. A collection of one of the
heaps takes cells away and leaves the rest as it was, so the heaps stay twins whenever either of them
collects (`Twins.sheds`).

The prototype of a cell and the scope around it are found among the older pairs, since both were there
when the cell was made. So the chains that the operations follow come to an end. -/

namespace ScriptMachine

/-- **Payloads of two runs**; the scopes they lie in are among the older pairs. -/
inductive Payload.Twins (ρ older : Pairing) : Payload → Payload → Prop
  | plain : Twins ρ older .plain .plain
  | array {e e' : Elements} : Aligned ρ.Matches e.items e'.items →
      Twins ρ older (.array e) (.array e')
  | string (data : StringData) : Twins ρ older (.string data) (.string data)
  | function {target : CallTarget} {name : Option Atom} {arity : UInt32} {scope scope' : Option Handle} :
      Option.Rel older.Pairs scope scope' →
      Twins ρ older (.function ⟨target, scope, name, arity⟩) (.function ⟨target, scope', name, arity⟩)
  | activation {names : Array Atom} {slots slots' : Array Value} {parent parent' : Option Handle}
      {room room' : Nat} : Aligned ρ.Matches slots slots' → Option.Rel older.Pairs parent parent' →
      Twins ρ older (.activation ⟨slots, names, parent⟩ room) (.activation ⟨slots', names, parent'⟩ room')

/-- **Cells of two runs**, with the shapes of their tables; the prototype is among the older pairs. -/
structure Cell.Twins (ρ older : Pairing) (t t' : ShapeTable) (c c' : Cell) : Prop where
  layout : (t.get c.shape).Alike (t'.get c'.shape)
  prototype : older.Matches (t.get c.shape).prototype (t'.get c'.shape).prototype
  slots : Aligned ρ.Matches c.slots c'.slots
  payload : c.payload.Twins ρ older c'.payload

/-- **Heaps of two runs.** -/
structure Heap.Twins (ρ : Pairing) (h h' : Heap) : Prop where
  fitted : h.Fitted
  fitted' : h'.Fitted
  addressable : h.slots.size ≤ 2 ^ 32
  addressable' : h'.slots.size ≤ 2 ^ 32
  registered : h.Registered (ρ.map Prod.fst)
  registered' : h'.Registered (ρ.map Prod.snd)
  atoms : h'.atoms = h.atoms
  cells : ∀ {newer older : Pairing} {a b : Handle} {c c' : Cell}, ρ = newer ++ (a, b) :: older →
    h.cell? a = some c → h'.cell? b = some c' → c.Twins ρ older h.shapes h'.shapes c'

variable {ρ ρ' older older' : Pairing}

/-! ### Cells -/

section Cells

variable {p p' : Payload} {t t' u u' : ShapeTable} {c c' : Cell}

theorem Payload.Twins.mono (h : p.Twins ρ older p') (hρ : ρ ⊆ ρ') (ho : older ⊆ older') :
    p.Twins ρ' older' p' := by
  cases h with
  | plain => exact .plain
  | array h => exact .array (h.mono fun _ _ h => h.mono hρ)
  | string data => exact .string data
  | function h => exact .function (h.mono fun _ _ h => h.mono ho)
  | activation h hp => exact .activation (h.mono fun _ _ h => h.mono hρ) (hp.mono fun _ _ h => h.mono ho)

theorem Payload.Twins.kind (h : p.Twins ρ older p') : p'.kind = p.kind := by cases h <;> rfl

namespace Cell.Twins

theorem mono (h : c.Twins ρ older t t' c') (hρ : ρ ⊆ ρ') (ho : older ⊆ older') :
    c.Twins ρ' older' t t' c' :=
  ⟨h.layout, h.prototype.mono ho, h.slots.mono fun _ _ h => h.mono hρ, h.payload.mono hρ ho⟩

theorem kind (h : c.Twins ρ older t t' c') : c'.kind = c.kind := h.payload.kind

/-- Only the shapes of the cells count. -/
theorem congr (h : c.Twins ρ older t t' c') (hget : u.get c.shape = t.get c.shape)
    (hget' : u'.get c'.shape = t'.get c'.shape) : c.Twins ρ older u u' c' := by
  obtain ⟨hl, hp, hs, hd⟩ := h
  rw [← hget, ← hget'] at hl hp
  exact ⟨hl, hp, hs, hd⟩

theorem lookup? (h : c.Twins ρ older t t' c') (name : Atom) :
    t'.lookup? c'.shape name = t.lookup? c.shape name := h.layout.lookup? name

theorem slot (h : c.Twins ρ older t t' c') (offset : Nat) :
    ρ.Matches (c.slot offset) (c'.slot offset) := h.slots.getD offset (.word (by simp))

theorem text? (h : c.Twins ρ older t t' c') : c'.text? = c.text? := by
  obtain ⟨shape, slots, capacity, p⟩ := c
  obtain ⟨shape', slots', capacity', p'⟩ := c'
  have := h.payload
  cases this <;> rfl

theorem ensureSlots (hs : Aligned ρ.Matches c.slots c'.slots) (count : Nat) :
    Aligned ρ.Matches (c.ensureSlots count).slots (c'.ensureSlots count).slots := by
  unfold Cell.ensureSlots
  rw [hs.size]
  split
  · exact hs
  · exact hs.append (.replicate _ (.word (by simp)))

/-- Writing a slot. -/
theorem setSlot (hs : Aligned ρ.Matches c.slots c'.slots) (offset : Nat) {v v' : Value}
    (hv : ρ.Matches v v') :
    Aligned ρ.Matches (c.setSlot offset v).slots (c'.setSlot offset v').slots :=
  (ensureSlots hs (offset + 1)).set offset hv

end Cell.Twins

end Cells

/-! ### Pairs -/

namespace Heap.Twins

variable {h h' k k' : Heap} {a a' b b' : Handle} {c c' : Cell} {v v' w w' : Value}

/-- A handle has one partner. -/
theorem right_unique (ht : Twins ρ h h') (hp : ρ.Pairs a b) (hp' : ρ.Pairs a b') : b = b' := by
  have := List.inj_on_of_nodup_map ht.registered.nodup hp hp' rfl
  exact (Prod.mk.inj this).2

theorem left_unique (ht : Twins ρ h h') (hp : ρ.Pairs a b) (hp' : ρ.Pairs a' b) : a = a' := by
  have := List.inj_on_of_nodup_map ht.registered'.nodup hp hp' rfl
  exact (Prod.mk.inj this).1

theorem pair_iff (ht : Twins ρ h h') (hp : ρ.Pairs a b) (hp' : ρ.Pairs a' b') : a = a' ↔ b = b' := by
  constructor
  · rintro rfl
    exact ht.right_unique hp hp'
  · rintro rfl
    exact ht.left_unique hp hp'

/-- Values that match are the same where their partners are. -/
theorem value_iff (ht : Twins ρ h h') (hv : ρ.Matches v v') (hw : ρ.Matches w w') :
    v = w ↔ v' = w' := by
  cases hv with
  | word hv =>
    cases hw with
    | word => rfl
    | cell =>
      constructor <;> rintro rfl <;> rw [Value.cell?_cell] at hv <;> cases hv
  | cell hv =>
    cases hw with
    | word hw =>
      constructor <;> rintro rfl <;> rw [Value.cell?_cell] at hw <;> cases hw
    | cell hw =>
      rw [Value.cell_inj, Value.cell_inj]
      exact ht.pair_iff hv hw

/-- The twin cells of a pair. -/
theorem cell (ht : Twins ρ h h') (hp : ρ.Pairs a b) (hc : h.cell? a = some c)
    (hc' : h'.cell? b = some c') : ∃ newer older, ρ = newer ++ (a, b) :: older ∧
      c.Twins ρ older h.shapes h'.shapes c' := by
  obtain ⟨newer, older, hsplit⟩ := List.append_of_mem hp
  exact ⟨newer, older, hsplit, ht.cells hsplit hc hc'⟩

theorem twin (ht : Twins ρ h h') (hp : ρ.Pairs a b) (hc : h.cell? a = some c)
    (hc' : h'.cell? b = some c') : c.Twins ρ ρ h.shapes h'.shapes c' := by
  obtain ⟨newer, older, rfl, hcell⟩ := ht.cell hp hc hc'
  exact hcell.mono (List.Subset.refl _) fun _ hq => List.mem_append_right _ (List.mem_cons_of_mem _ hq)

end Heap.Twins

/-! ### One heap changes -/

/-- **What is left of a heap**: cells as they were, under shapes as they were. -/
structure Heap.Sheds (h k : Heap) : Prop where
  fitted : h.Fitted → k.Fitted
  size : h.Fitted → k.slots.size = h.slots.size
  registered : ∀ ids, h.Registered ids → k.Registered ids
  cells : ∀ id c, h.Fitted → k.cell? id = some c →
    h.cell? id = some c ∧ k.shapes.get c.shape = h.shapes.get c.shape

namespace Heap

variable {h h' k k' : Heap} {a b id : Handle}

theorem Registered.retains {ids : List Handle} (hr : h.Registered ids) (hk : h.Retains k) :
    k.Registered ids where
  white := hk.white hr.white
  listed := hk.listed hr.listed
  nodup := hr.nodup
  spent id hid := by
    rw [isLive_outline hk.outline]
    exact (hr.spent id hid).imp_right fun hs => hs.outline hk.outline hk.free
  issued id hl := hr.issued id (by rwa [isLive_outline hk.outline] at hl)

/-- The register after an edit. -/
theorem Registered.edit {ids : List Handle} (hr : h.Registered ids) (he : Edit id h k) :
    k.Registered ids := by
  cases he with
  | intern name => exact hr.retains (.of_slots rfl rfl)
  | count => exact hr.retains (retains_refreshFootprint h id)
  | @rewrite c t f =>
    have ho := outline_modifyCell { h with shapes := t } id f
    refine ⟨AllWhite.modifyCell (h := { h with shapes := t }) (hr.white.congr rfl) f,
      FreeListed.modifyCell (h := { h with shapes := t }) (hr.listed.congr rfl rfl) f, hr.nodup,
      fun other hid => ?_, fun other hl => hr.issued other ?_⟩
    · rw [isLive_outline (h := h) ho]
      exact (hr.spent other hid).imp_right fun hs => hs.outline ho rfl
    · rwa [isLive_outline (h := h) ho] at hl

theorem Registered.edits {ids : List Handle} (hr : h.Registered ids) (he : Edits id h k) :
    k.Registered ids := by
  induction he with
  | refl => exact hr
  | tail _ hstep ih => exact ih.edit hstep

theorem Sheds.refl (h : Heap) : h.Sheds h :=
  ⟨fun hf => hf, fun _ => rfl, fun _ hr => hr, fun _ _ _ hc => ⟨hc, rfl⟩⟩

/-- What is neither slots nor shapes nor counts does not matter. -/
theorem Sheds.congr (hs : k.slots = h.slots) (hl : k.freeList = h.freeList)
    (hshapes : k.shapes = h.shapes) (hb : k.liveBytes = h.liveBytes) (hc : k.liveCells = h.liveCells) :
    h.Sheds k where
  fitted hf := (Refits.congr hs hl hshapes hb hc hf).1
  size _ := by rw [hs]
  registered _ hr := hr.retains (.of_slots hs hl)
  cells id c _ hc := by
    rw [cell?_congr hs] at hc
    exact ⟨hc, by rw [hshapes]⟩

/-- **A collection** leaves cells as they were. -/
theorem Sheds.collect (h : Heap) (values : List Value) (words : List UInt64) :
    h.Sheds (h.collect values words).2 where
  fitted hf := hf.collect values words
  size hf := by
    have hm := mark_marking hf.housed.white (h.allRoots values words)
    change ((h.mark (h.allRoots values words)).sweep.2.slots).size = _
    rw [sweep_slots, Array.size_map, ← hm.slots, Array.size_map]
  registered _ hr := hr.collect values words
  cells _ _ hf hc := ⟨((cell?_collect hf.housed.white values words).mp hc).1,
    shape_collect hf.housed.white values words hc⟩

theorem Sheds.root (h : Heap) (kind : CellKind) (prototype : Value) :
    h.Sheds (h.rootShape kind prototype).2 where
  fitted hf := (Refits.root h kind prototype hf).1
  size _ := rfl
  registered _ hr := hr.retains (.of_slots rfl rfl)
  cells _ c hf hc := by
    obtain ⟨hgrown, -⟩ := ShapeTable.root_spec hf.intact.toOrdered kind prototype
    exact ⟨hc, (hgrown.keeps _ (hf.housed.live _ c hc) fun h => h).2⟩

theorem Sheds.intern (h : Heap) (name : String) : h.Sheds (h.intern name).2 :=
  .congr rfl rfl rfl rfl rfl

namespace Twins

/-- **Whatever is left of either heap.** -/
theorem sheds (ht : Twins ρ h h') (ho : h.Sheds k) (ho' : h'.Sheds k')
    (hatoms : k'.atoms = k.atoms) : Twins ρ k k' where
  fitted := ho.fitted ht.fitted
  fitted' := ho'.fitted ht.fitted'
  addressable := by rw [ho.size ht.fitted]; exact ht.addressable
  addressable' := by rw [ho'.size ht.fitted']; exact ht.addressable'
  registered := ho.registered _ ht.registered
  registered' := ho'.registered _ ht.registered'
  atoms := hatoms
  cells hsplit hc hc' := by
    obtain ⟨hc, hget⟩ := ho.cells _ _ ht.fitted hc
    obtain ⟨hc', hget'⟩ := ho'.cells _ _ ht.fitted' hc'
    exact (ht.cells hsplit hc hc').congr hget hget'

theorem intern (ht : Twins ρ h h') (name : String) :
    (h'.intern name).1 = (h.intern name).1 ∧ Twins ρ (h.intern name).2 (h'.intern name).2 := by
  refine ⟨?_, ht.sheds (.intern h name) (.intern h' name) ?_⟩
  · simp only [Heap.intern, ht.atoms]
  · simp only [Heap.intern, ht.atoms]

/-- **One cell of each heap changes**, those of a pair, and its twin with it. -/
theorem edits (ht : Twins ρ h h') (hp : ρ.Pairs a b) (he : Edits a h k) (he' : Edits b h' k')
    (hf : Refits h k) (hf' : Refits h' k') (hatoms : k'.atoms = k.atoms)
    (hcell : ∀ older d d', k.cell? a = some d → k'.cell? b = some d' →
      (∀ c c', h.cell? a = some c → h'.cell? b = some c' → c.Twins ρ older h.shapes h'.shapes c') →
      d.Twins ρ older k.shapes k'.shapes d') : Twins ρ k k' where
  fitted := (hf ht.fitted).1
  fitted' := (hf' ht.fitted').1
  addressable := by
    rw [(ht.fitted.housed.edits ht.fitted.intact he).2.2.size]
    exact ht.addressable
  addressable' := by
    rw [(ht.fitted'.housed.edits ht.fitted'.intact he').2.2.size]
    exact ht.addressable'
  registered := ht.registered.edits he
  registered' := ht.registered'.edits he'
  atoms := hatoms
  cells {newer older x y d d'} hsplit hd hd' := by
    obtain ⟨-, -, hs⟩ := ht.fitted.housed.edits ht.fitted.intact he
    obtain ⟨-, -, hs'⟩ := ht.fitted'.housed.edits ht.fitted'.intact he'
    have hxy : ρ.Pairs x y := by simp [Pairing.Pairs, hsplit]
    by_cases hx : x = a
    · subst hx
      obtain rfl := ht.right_unique hp hxy
      exact hcell older d d' hd hd' fun c c' hc hc' => ht.cells hsplit hc hc'
    · have hy : y ≠ b := fun h => hx ((ht.pair_iff hxy hp).mpr h)
      rw [hs.cells x hx] at hd
      rw [hs'.cells y hy] at hd'
      exact (ht.cells hsplit hd hd').congr (hs.layouts x d hx hd) (hs'.layouts y d' hy hd')

/-- **A cell is allocated** in both heaps, with the same layout. -/
theorem allocate (ht : Twins ρ h h') {shape shape' : ShapeId} {payload payload' : Payload}
    (hshape : h.shapes.Shared shape) (hshape' : h'.shapes.Shared shape')
    (hkind : (h.shapes.get shape).kind = payload.kind)
    (hlayout : (h.shapes.get shape).Alike (h'.shapes.get shape'))
    (hprototype : ρ.Matches (h.shapes.get shape).prototype (h'.shapes.get shape').prototype)
    (hpayload : payload.Twins ρ ρ payload')
    (hok : (h.allocate shape payload).1 = .ok a) (hok' : (h'.allocate shape' payload').1 = .ok b)
    (hsize : (h.allocate shape payload).2.slots.size ≤ 2 ^ 32)
    (hsize' : (h'.allocate shape' payload').2.slots.size ≤ 2 ^ 32) :
    Twins ((a, b) :: ρ) (h.allocate shape payload).2 (h'.allocate shape' payload').2 := by
  obtain ⟨hshapes, hatoms, -⟩ := allocate_frame h shape payload
  obtain ⟨hshapes', hatoms', -⟩ := allocate_frame h' shape' payload'
  have hreg := ht.registered.allocate hok hsize
  have hreg' := ht.registered'.allocate hok' hsize'
  obtain ⟨-, hread⟩ := cell?_allocate ht.registered.listed hok hsize
  obtain ⟨-, hread'⟩ := cell?_allocate ht.registered'.listed hok' hsize'
  refine ⟨(Refits.allocate h hshape hkind ht.fitted).1, (Refits.allocate h' hshape' ?_ ht.fitted').1,
    hsize, hsize', hreg, hreg', by rw [hatoms, hatoms', ht.atoms], ?_⟩
  · rw [hlayout.kind, hkind, hpayload.kind]
  intro newer older x y c c' hsplit hc hc'
  rw [hshapes, hshapes']
  rw [hread] at hc
  rw [hread'] at hc'
  cases newer with
  | nil =>
    obtain ⟨hxy, rfl⟩ := List.cons.inj hsplit
    obtain ⟨rfl, rfl⟩ := Prod.mk.inj hxy
    rw [if_pos rfl] at hc hc'
    obtain rfl := Option.some.inj hc
    obtain rfl := Option.some.inj hc'
    obtain ⟨hpay, hon⟩ := payload_new shape (h.shapes.get shape).slotCount payload
    obtain ⟨hpay', hon'⟩ := payload_new shape' (h'.shapes.get shape').slotCount payload'
    refine ⟨by rw [hon, hon']; exact hlayout, by rw [hon, hon']; exact hprototype, ?_, ?_⟩
    · rw [hlayout.slotCount]
      exact Cell.Twins.ensureSlots (.replicate _ (.word (by simp))) _
    · rw [hpay, hpay']
      exact hpayload.mono (List.subset_cons_self _ _) (List.Subset.refl _)
  | cons pair newer =>
    have hrest : ρ = newer ++ (x, y) :: older := (List.cons.inj hsplit).2
    have hxy : (x, y) ∈ ρ := by simp [hrest]
    have hx : x ≠ a := by
      rintro rfl
      exact (List.nodup_cons.mp hreg.nodup).1 (List.mem_map.mpr ⟨(x, y), hxy, rfl⟩)
    have hy : y ≠ b := by
      rintro rfl
      exact (List.nodup_cons.mp hreg'.nodup).1 (List.mem_map.mpr ⟨(x, y), hxy, rfl⟩)
    rw [if_neg hx] at hc
    rw [if_neg hy] at hc'
    exact (ht.cells hrest hc hc').mono (List.subset_cons_self _ _) (List.Subset.refl _)

end Twins

end Heap

end ScriptMachine
