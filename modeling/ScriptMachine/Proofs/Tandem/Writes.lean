import ScriptMachine.Proofs.Heap.Faults
import ScriptMachine.Proofs.Number.Integer
import ScriptMachine.Proofs.Tandem.Cells

/-! # Writes of two runs

The same write to the two cells of a pair leaves twin heaps and ends alike (`Heap.Parallel`), unless one
of the heaps has no room for it. -/

namespace ScriptMachine

namespace Heap

/-- **How the same write ends** on twin heaps: alike, or with no room in one of them. -/
inductive Parallel {α β : Type} (ρ : Pairing) (Q : α → β → Prop) :
    EStateM.Result PropertyFault Heap α → EStateM.Result PropertyFault Heap β → Prop
  | ok {x : α} {y : β} {k k' : Heap} : Twins ρ k k' → Q x y → Parallel ρ Q (.ok x k) (.ok y k')
  | fault {fault : PropertyFault} {k k' : Heap} : Twins ρ k k' →
      Parallel ρ Q (.error fault k) (.error fault k')
  | left {k : Heap} {r : EStateM.Result PropertyFault Heap β} : Parallel ρ Q (.error .outOfMemory k) r
  | right {k : Heap} {r : EStateM.Result PropertyFault Heap α} : Parallel ρ Q r (.error .outOfMemory k)

/-- Both writes were refused, or neither. -/
def Refused (outcome outcome' : PutOutcome) : Prop := outcome = .readOnly ↔ outcome' = .readOnly

variable {ρ : Pairing} {h h' : Heap} {a b : Handle} {c c' : Cell} {name : Atom} {v v' : Value}
  {attributes : Attributes}

namespace Twins

/-! ### One cell -/

/-- **A slot is written.** -/
theorem slot (ht : Twins ρ h h') (hp : ρ.Pairs a b) (hc : h.cell? a = some c)
    (hc' : h'.cell? b = some c') {p : Property} (hl : h.shapes.lookup? c.shape name = some p)
    (hv : ρ.Matches v v') :
    Twins ρ (h.modifyCell a (·.setSlot p.offset v)) (h'.modifyCell b (·.setSlot p.offset v')) := by
  have hl' : h'.shapes.lookup? c'.shape name = some p := ((ht.twin hp hc hc').lookup? name).trans hl
  refine ht.edits hp (.single (.slot hc _ _)) (.single (.slot hc' _ _))
    (.slot hc (fun hf => hf.offset_lt hl) v) (.slot hc' (fun hf => hf.offset_lt hl') v') ht.atoms ?_
  intro older d d' hd hd' hold
  rw [cell?_modifyCell_self, hc] at hd
  rw [cell?_modifyCell_self, hc'] at hd'
  obtain rfl := Option.some.inj hd
  obtain rfl := Option.some.inj hd'
  obtain ⟨hlayout, hproto, hslots, hpay⟩ := hold c c' hc hc'
  obtain ⟨hshape, hpayload⟩ := c.setSlot_frame p.offset v
  obtain ⟨hshape', hpayload'⟩ := c'.setSlot_frame p.offset v'
  exact ⟨by rw [hshape, hshape']; exact hlayout, by rw [hshape, hshape']; exact hproto,
    Cell.Twins.setSlot hslots _ hv, by rw [hpayload, hpayload']; exact hpay⟩

/-- A cell that is rewritten to another shape and counted or not. -/
theorem moved (ht : Twins ρ h h') (hp : ρ.Pairs a b) (hc : h.cell? a = some c)
    (hc' : h'.cell? b = some c') {k k' : Heap} {d d' : Cell} (hd : k.cell? a = some d)
    (hd' : k'.cell? b = some d') (he : Edits a h k) (he' : Edits b h' k') (hf : Refits h k)
    (hf' : Refits h' k') (hatoms : k'.atoms = k.atoms)
    (hlayout : (k.shapes.get d.shape).Alike (k'.shapes.get d'.shape))
    (hproto : (k.shapes.get d.shape).prototype = (h.shapes.get c.shape).prototype)
    (hproto' : (k'.shapes.get d'.shape).prototype = (h'.shapes.get c'.shape).prototype)
    (hslots : Aligned ρ.Matches c.slots c'.slots → Aligned ρ.Matches d.slots d'.slots)
    (hpay : d.payload = c.payload) (hpay' : d'.payload = c'.payload) : Twins ρ k k' := by
  refine ht.edits hp he he' hf hf' hatoms ?_
  intro older e e' hread hread' hold
  obtain rfl := Option.some.inj (hd.symm.trans hread)
  obtain rfl := Option.some.inj (hd'.symm.trans hread')
  have hcell := hold c c' hc hc'
  exact ⟨hlayout, by rw [hproto, hproto']; exact hcell.prototype, hslots hcell.slots,
    by rw [hpay, hpay']; exact hcell.payload⟩

theorem cell?_addNamed (hc : h.cell? a = some c) (name : Atom) (v : Value) (attributes : Attributes) :
    (h.addNamed a c.shape name v attributes).cell? a =
      some { c.setSlot (h.shapes.addProperty c.shape name attributes).2.1 v with
        shape := (h.shapes.addProperty c.shape name attributes).1 } ∧
      (h.addNamed a c.shape name v attributes).shapes =
        (h.shapes.addProperty c.shape name attributes).2.2 ∧
      (h.addNamed a c.shape name v attributes).atoms = h.atoms := by
  unfold addNamed
  dsimp only
  refine ⟨?_, ?_, ?_⟩
  · rw [cell?_refreshFootprint, cell?_move hc, if_pos rfl]
  · rw [refreshFootprint_frame]
    rfl
  · rw [refreshFootprint_frame]
    rfl

/-- **A property is added.** -/
theorem addNamed (ht : Twins ρ h h') (hp : ρ.Pairs a b) (hc : h.cell? a = some c)
    (hc' : h'.cell? b = some c') (hl : h.shapes.lookup? c.shape name = none) (hv : ρ.Matches v v')
    (attributes : Attributes) :
    Twins ρ (h.addNamed a c.shape name v attributes) (h'.addNamed b c'.shape name v' attributes) := by
  have hcell := ht.twin hp hc hc'
  have hl' : h'.shapes.lookup? c'.shape name = none := (hcell.lookup? name).trans hl
  have hlive := ht.fitted.housed.live a c hc
  have hlive' := ht.fitted'.housed.live b c' hc'
  obtain ⟨hd, hshapes, hatoms⟩ := cell?_addNamed hc name v attributes
  obtain ⟨hd', hshapes', hatoms'⟩ := cell?_addNamed hc' name v' attributes
  obtain ⟨hoffset, hadded⟩ :=
    ShapeTable.addProperty_alike ht.fitted.intact ht.fitted.laid hlive hl attributes
  obtain ⟨hoffset', hadded'⟩ :=
    ShapeTable.addProperty_alike ht.fitted'.intact ht.fitted'.laid hlive' hl' attributes
  obtain ⟨hsame, hlayout⟩ := hcell.layout.added name attributes
  have hadds := ShapeTable.addProperty_spec ht.fitted.intact.toOrdered hlive hl attributes
  have hadds' := ShapeTable.addProperty_spec ht.fitted'.intact.toOrdered hlive' hl' attributes
  refine ht.moved hp hc hc' hd hd' (addNamed_edits hc hl v attributes)
    (addNamed_edits hc' hl' v' attributes) (addNamed_refits hc hl v attributes)
    (addNamed_refits hc' hl' v' attributes) (by rw [hatoms, hatoms', ht.atoms]) ?_
    (by rw [hshapes]; exact hadds.prototype) (by rw [hshapes']; exact hadds'.prototype) ?_
    (c.setSlot_frame _ v).2 (c'.setSlot_frame _ v').2
  · rw [hshapes, hshapes']
    exact hadded.symm.trans (hlayout.trans hadded')
  · intro hslots
    rw [hoffset, hoffset', hsame]
    exact Cell.Twins.setSlot hslots _ hv

/-- **A property is removed.** -/
theorem removeNamed (ht : Twins ρ h h') (hp : ρ.Pairs a b) (hc : h.cell? a = some c)
    (hc' : h'.cell? b = some c') (name : Atom) :
    Twins ρ (h.removeNamed a c.shape name) (h'.removeNamed b c'.shape name) := by
  have hcell := ht.twin hp hc hc'
  have hlive := ht.fitted.housed.live a c hc
  have hlive' := ht.fitted'.housed.live b c' hc'
  have hlayout := ((ShapeTable.removeProperty_alike ht.fitted.intact.toOrdered hlive name).symm.trans
    (hcell.layout.owned.remove name)).trans
    (ShapeTable.removeProperty_alike ht.fitted'.intact.toOrdered hlive' name)
  obtain ⟨-, hremoved, hproto, -⟩ :=
    ShapeTable.removeProperty_spec ht.fitted.intact.toOrdered hlive name
  obtain ⟨-, hremoved', hproto', -⟩ :=
    ShapeTable.removeProperty_spec ht.fitted'.intact.toOrdered hlive' name
  have hread {h : Heap} {a : Handle} {c : Cell} (hc : h.cell? a = some c)
      (hremoved : (h.shapes.removeProperty c.shape name).2.1 = h.shapes.lookup? c.shape name) :
      ∃ d, (h.removeNamed a c.shape name).cell? a = some d ∧
        (h.removeNamed a c.shape name).shapes = (h.shapes.removeProperty c.shape name).2.2 ∧
        (h.removeNamed a c.shape name).atoms = h.atoms ∧
        d.shape = (h.shapes.removeProperty c.shape name).1 ∧ d.payload = c.payload ∧
        d.slots = (h.shapes.lookup? c.shape name).elim c.slots fun p =>
          (c.setSlot p.offset .undefined).slots := by
    unfold Heap.removeNamed
    generalize h.shapes.removeProperty c.shape name = result at *
    obtain ⟨target, removed, t⟩ := result
    obtain rfl : removed = _ := hremoved
    refine ⟨_, (cell?_move hc _ _ a).trans (if_pos rfl), rfl, rfl, ?_⟩
    cases h.shapes.lookup? c.shape name with
    | none => exact ⟨rfl, rfl, rfl⟩
    | some p =>
      obtain ⟨hshape, hpayload⟩ := Cell.setSlot_frame { c with shape := target } p.offset .undefined
      refine ⟨hshape, hpayload, ?_⟩
      dsimp only [Cell.setSlot, Cell.ensureSlots, Option.elim_some]
      split <;> rfl
  obtain ⟨d, hd, hshapes, hatoms, hshape, hpay, hslots⟩ := hread hc hremoved
  obtain ⟨d', hd', hshapes', hatoms', hshape', hpay', hslots'⟩ := hread hc' hremoved'
  refine ht.moved hp hc hc' hd hd' (.single (removeNamed_edit hc name))
    (.single (removeNamed_edit hc' name)) (removeNamed_refits hc name) (removeNamed_refits hc' name)
    (by rw [hatoms, hatoms', ht.atoms]) (by rw [hshapes, hshapes', hshape, hshape']; exact hlayout)
    (by rw [hshapes, hshape]; exact hproto) (by rw [hshapes', hshape']; exact hproto') ?_ hpay hpay'
  intro hold
  rw [hslots, hslots', hcell.lookup?]
  cases h.shapes.lookup? c.shape name with
  | none => exact hold
  | some p => exact Cell.Twins.setSlot hold _ (.word (by simp))

/-- **A property gets other attributes and a value.** -/
theorem redefine (ht : Twins ρ h h') (hp : ρ.Pairs a b) (hc : h.cell? a = some c)
    (hc' : h'.cell? b = some c') {p : Property} (hl : h.shapes.lookup? c.shape name = some p)
    (hv : ρ.Matches v v') (attributes : Attributes) :
    Twins ρ
      ({ h with shapes := (h.shapes.changeAttributes c.shape name attributes).2 }.modifyCell a
        fun cell => { cell.setSlot p.offset v with
          shape := (h.shapes.changeAttributes c.shape name attributes).1 })
      ({ h' with shapes := (h'.shapes.changeAttributes c'.shape name attributes).2 }.modifyCell b
        fun cell => { cell.setSlot p.offset v' with
          shape := (h'.shapes.changeAttributes c'.shape name attributes).1 }) := by
  have hcell := ht.twin hp hc hc'
  have hl' : h'.shapes.lookup? c'.shape name = some p := (hcell.lookup? name).trans hl
  have hlive := ht.fitted.housed.live a c hc
  have hlive' := ht.fitted'.housed.live b c' hc'
  obtain ⟨-, hproto, -⟩ :=
    ShapeTable.changeAttributes_spec ht.fitted.intact.toOrdered hlive name attributes
  obtain ⟨-, hproto', -⟩ :=
    ShapeTable.changeAttributes_spec ht.fitted'.intact.toOrdered hlive' name attributes
  exact ht.moved hp hc hc' ((cell?_move hc _ _ a).trans (if_pos rfl))
    ((cell?_move hc' _ _ b).trans (if_pos rfl))
    (.single (.rewrite hc (.attributes name attributes) (congrArg Payload.kind (c.setSlot_frame _ v).2)))
    (.single (.rewrite hc' (.attributes name attributes)
      (congrArg Payload.kind (c'.setSlot_frame _ v').2)))
    (redefine_refits hc hl v attributes) (redefine_refits hc' hl' v' attributes) ht.atoms
    (((ShapeTable.changeAttributes_alike ht.fitted.intact.toOrdered hlive name attributes).symm.trans
      (hcell.layout.owned.setAttributes name attributes)).trans
      (ShapeTable.changeAttributes_alike ht.fitted'.intact.toOrdered hlive' name attributes))
    hproto hproto' (fun hslots => Cell.Twins.setSlot hslots _ hv) (c.setSlot_frame _ v).2
    (c'.setSlot_frame _ v').2

/-- Changing payloads. -/
theorem mapPayload (ht : Twins ρ h h') (hp : ρ.Pairs a b) {k k' : Heap} {f f' : Cell → Cell}
    (hd : k.cell? = (h.modifyCell a f).cell?) (hd' : k'.cell? = (h'.modifyCell b f').cell?)
    (hs : k.shapes = h.shapes) (hs' : k'.shapes = h'.shapes) (hatoms : k'.atoms = k.atoms)
    (he : Edits a h k) (he' : Edits b h' k') (hf : Refits h k) (hf' : Refits h' k')
    (hkeep : ∀ c, (f c).shape = c.shape ∧ (f c).slots = c.slots)
    (hkeep' : ∀ c, (f' c).shape = c.shape ∧ (f' c).slots = c.slots)
    (hpay : ∀ older c c', Payload.Twins ρ older c.payload c'.payload →
      Payload.Twins ρ older (f c).payload (f' c').payload) : Twins ρ k k' := by
  refine ht.edits hp he he' hf hf' hatoms ?_
  intro older d d' hread hread' hold
  rw [hd, cell?_modifyCell_self] at hread
  rw [hd', cell?_modifyCell_self] at hread'
  obtain ⟨c, hc, rfl⟩ := Option.map_eq_some_iff.mp hread
  obtain ⟨c', hc', rfl⟩ := Option.map_eq_some_iff.mp hread'
  obtain ⟨hlayout, hproto, hslots, hpayload⟩ := hold c c' hc hc'
  rw [hs, hs']
  refine ⟨?_, ?_, ?_, hpay older c c' hpayload⟩
  · rw [(hkeep c).1, (hkeep' c').1]
    exact hlayout
  · rw [(hkeep c).1, (hkeep' c').1]
    exact hproto
  · rw [(hkeep c).2, (hkeep' c').2]
    exact hslots

theorem mapElements_payload {ρ older : Pairing} {f f' : Elements → Elements}
    (hf : ∀ e e' : Elements, Aligned ρ.Matches e.items e'.items →
      Aligned ρ.Matches (f e).items (f' e').items) {c c' : Cell}
    (h : Payload.Twins ρ older c.payload c'.payload) :
    Payload.Twins ρ older (c.mapElements f).payload (c'.mapElements f').payload := by
  obtain ⟨shape, slots, capacity, p⟩ := c
  obtain ⟨shape', slots', capacity', p'⟩ := c'
  dsimp only at h
  cases h with
  | plain => exact .plain
  | array h => exact .array (hf _ _ h)
  | string data => exact .string data
  | function h => exact .function h
  | activation h hp => exact .activation h hp

/-- **Elements change** within their capacity. -/
theorem elements (ht : Twins ρ h h') (hp : ρ.Pairs a b) {f f' : Elements → Elements}
    (hroom : ∀ e, (f e).capacity = e.capacity) (hroom' : ∀ e, (f' e).capacity = e.capacity)
    (hf : ∀ e e' : Elements, Aligned ρ.Matches e.items e'.items →
      Aligned ρ.Matches (f e).items (f' e').items) :
    Twins ρ (h.modifyCell a (Cell.mapElements f)) (h'.modifyCell b (Cell.mapElements f')) :=
  ht.mapPayload hp rfl rfl rfl rfl ht.atoms (elements_edits h a f) (elements_edits h' b f')
    (.elements h a hroom) (.elements h' b hroom')
    (fun c => ⟨(mapElements_frame f c).1, (mapElements_frame f c).2.1⟩)
    (fun c => ⟨(mapElements_frame f' c).1, (mapElements_frame f' c).2.1⟩)
    fun _ _ _ h => mapElements_payload hf h

/-- **Elements grow** and are counted. -/
theorem growElements (ht : Twins ρ h h') (hp : ρ.Pairs a b) {f f' : Elements → Elements}
    (hf : ∀ e e' : Elements, Aligned ρ.Matches e.items e'.items →
      Aligned ρ.Matches (f e).items (f' e').items) :
    Twins ρ ((h.modifyCell a (Cell.mapElements f)).refreshFootprint a)
      ((h'.modifyCell b (Cell.mapElements f')).refreshFootprint b) := by
  have hframe (h : Heap) (a : Handle) (f : Elements → Elements) :
      ((h.modifyCell a (Cell.mapElements f)).refreshFootprint a).shapes = h.shapes ∧
        ((h.modifyCell a (Cell.mapElements f)).refreshFootprint a).atoms = h.atoms := by
    rw [refreshFootprint_frame]
    exact ⟨rfl, rfl⟩
  obtain ⟨hs, hatoms⟩ := hframe h a f
  obtain ⟨hs', hatoms'⟩ := hframe h' b f'
  exact ht.mapPayload hp (cell?_refreshFootprint _ a) (cell?_refreshFootprint _ b) hs hs'
    (by rw [hatoms, hatoms', ht.atoms])
    (.tail (elements_edits h a f) .count) (.tail (elements_edits h' b f') .count)
    (.growElements h a f) (.growElements h' b f')
    (fun c => ⟨(mapElements_frame f c).1, (mapElements_frame f c).2.1⟩)
    (fun c => ⟨(mapElements_frame f' c).1, (mapElements_frame f' c).2.1⟩)
    fun _ _ _ h => mapElements_payload hf h

/-- **A variable is written.** -/
theorem setVariable (ht : Twins ρ h h') (hp : ρ.Pairs a b) (index : Nat) (hv : ρ.Matches v v') :
    Twins ρ
      (h.modifyCell a (Cell.mapScope fun scope =>
        { scope with slots := scope.slots.setIfInBounds index v }))
      (h'.modifyCell b (Cell.mapScope fun scope =>
        { scope with slots := scope.slots.setIfInBounds index v' })) := by
  have hedits (h : Heap) (a : Handle) (v : Value) : Edits a h (h.modifyCell a (Cell.mapScope fun scope =>
      { scope with slots := scope.slots.setIfInBounds index v })) := by
    cases hc : h.cell? a with
    | none =>
      rw [modifyCell_of_none _ hc]
    | some c =>
      obtain ⟨hs, hk⟩ := mapScope_frame
        (fun scope => { scope with slots := scope.slots.setIfInBounds index v }) c
      exact .single (.stay hc hs hk)
  have hkeep (v : Value) (c : Cell) : (c.mapScope fun scope =>
      { scope with slots := scope.slots.setIfInBounds index v }).shape = c.shape ∧
      (c.mapScope fun scope =>
        { scope with slots := scope.slots.setIfInBounds index v }).slots = c.slots := by
    obtain ⟨shape, slots, capacity, p⟩ := c
    cases p <;> exact ⟨rfl, rfl⟩
  refine ht.mapPayload hp rfl rfl rfl rfl ht.atoms (hedits h a v) (hedits h' b v')
    (.scope h a index v) (.scope h' b index v') (hkeep v) (hkeep v') fun older c c' h => ?_
  obtain ⟨shape, slots, capacity, p⟩ := c
  obtain ⟨shape', slots', capacity', p'⟩ := c'
  dsimp only at h
  cases h with
  | plain => exact .plain
  | array h => exact .array h
  | string data => exact .string data
  | function h => exact .function h
  | activation h hp => exact .activation (h.set index hv) hp

/-! ### Elements -/

/-- An element or a length of twin cells. -/
theorem synthesized? (ht : Twins ρ h h') {older : Pairing} (hc : c.Twins ρ older h.shapes h'.shapes c')
    (name : Atom) : Option.Rel ρ.Matches (h.synthesized? c name) (h'.synthesized? c' name) := by
  unfold Heap.synthesized?
  rw [ht.atoms]
  have hpay := hc.payload
  cases hp : c.payload <;> cases hp' : c'.payload <;> rw [hp, hp'] at hpay <;> cases hpay
  case array.array e e' he =>
    dsimp only
    cases h.atoms.arrayIndex? name with
    | none =>
      dsimp only
      rw [he.size]
      split
      · exact .some (.word (Value.cell?_number _))
      · exact .none
    | some index =>
      dsimp only
      rcases Option.rel_iff.mp (he index.toNat) with ⟨hx, hy⟩ | ⟨x, y, hx, hy, hv⟩
      · rw [hx, hy]
        exact .none
      · rw [hx, hy]
        dsimp only
        rw [hv.isHole]
        split
        · exact .none
        · exact .some hv
  case string.string =>
    dsimp only
    split
    · exact .some (.word (Value.cell?_number _))
    · exact .none
  all_goals exact .none

/-- A dense element of twin cells. -/
theorem denseElement? (ht : Twins ρ h h') (hp : ρ.Pairs a b) (hc : h.cell? a = some c)
    (hc' : h'.cell? b = some c') (index : UInt32) :
    Option.Rel ρ.Matches (h.denseElement? a index) (h'.denseElement? b index) := by
  simp only [Heap.denseElement?, hc, hc']
  have hpay := (ht.twin hp hc hc').payload
  cases hp : c.payload <;> cases hp' : c'.payload <;> rw [hp, hp'] at hpay <;> cases hpay
  case array.array e e' he =>
    rcases Option.rel_iff.mp (he index.toNat) with ⟨hx, hy⟩ | ⟨x, y, hx, hy, hv⟩
    · simp only [hx, hy]
      exact .none
    · simp only [hx, hy, hv.isHole]
      split
      · exact .none
      · exact .some hv
  all_goals exact .none

theorem namedIndex? (ht : Twins ρ h h') (hp : ρ.Pairs a b) (hc : h.cell? a = some c)
    (hc' : h'.cell? b = some c') (index : UInt32) :
    h'.namedIndex? b index = h.namedIndex? a index := by
  simp only [Heap.namedIndex?, ht.atoms, hc, hc', (ht.twin hp hc hc').lookup?]

theorem clearElement (ht : Twins ρ h h') (hp : ρ.Pairs a b) (name : Atom) :
    Twins ρ (h.clearElement a name) (h'.clearElement b name) := by
  unfold Heap.clearElement
  rw [ht.atoms]
  cases h.atoms.arrayIndex? name with
  | none => exact ht
  | some index =>
    exact ht.elements hp (fun _ => rfl) (fun _ => rfl) fun _ _ he => he.set _ (.word (by simp))

theorem storeElement (ht : Twins ρ h h') (hp : ρ.Pairs a b) (position length room room' : Nat)
    (hv : ρ.Matches v v') :
    Twins ρ (h.storeElement a position length room v) (h'.storeElement b position length room' v') := by
  unfold Heap.storeElement
  split
  · exact ht.elements hp (fun _ => rfl) (fun _ => rfl) fun _ _ he => he.set _ hv
  · exact ht.growElements hp fun _ _ he => he.push hv

/-! ### Operations -/

theorem putNamed (ht : Twins ρ h h') (hp : ρ.Pairs a b) (hc : h.cell? a = some c)
    (hc' : h'.cell? b = some c') (name : Atom) (hv : ρ.Matches v v') (attributes : Attributes) :
    Parallel ρ Refused (Heap.putNamed a name v attributes h) (Heap.putNamed b name v' attributes h') := by
  have hlookup := (ht.twin hp hc hc').lookup? name
  cases hl : h.shapes.lookup? c.shape name with
  | none =>
    rw [putNamed_none hc hl, putNamed_none hc' (hlookup.trans hl)]
    exact .ok (ht.addNamed hp hc hc' hl hv attributes) (by simp [Refused])
  | some p =>
    rw [putNamed_some hc hl, putNamed_some hc' (hlookup.trans hl)]
    split
    · exact .ok ht Iff.rfl
    · exact .ok (ht.slot hp hc hc' hl hv) (by simp [Refused])

theorem putElement (ht : Twins ρ h h') (hp : ρ.Pairs a b) (hc : h.cell? a = some c)
    (hc' : h'.cell? b = some c') (position length capacity capacity' : Nat) (named : Option Property)
    (hv : ρ.Matches v v') :
    Parallel ρ Refused (Heap.putElement a position length capacity named v h)
      (Heap.putElement b position length capacity' named v' h') := by
  rcases putElement_cases hc position length capacity named v with heq | ⟨room, heq⟩
  · rw [heq]
    exact .left
  rcases putElement_cases hc' position length capacity' named v' with heq' | ⟨room', heq'⟩
  · rw [heq']
    exact .right
  rw [heq, heq']
  refine .ok (storeElement ?_ hp position length room room' hv) Iff.rfl
  cases named with
  | none => exact ht
  | some p => exact ht.removeNamed hp hc hc' p.name

theorem putByIndex (ht : Twins ρ h h') (hp : ρ.Pairs a b) (hc : h.cell? a = some c)
    (hc' : h'.cell? b = some c') (index : UInt32) (hv : ρ.Matches v v') :
    Parallel ρ Refused (Heap.putNamed a (h.internIndex index).1 v .none (h.internIndex index).2)
      (Heap.putNamed b (h'.internIndex index).1 v' .none (h'.internIndex index).2) := by
  obtain ⟨hname, htwins⟩ := ht.intern (indexName index)
  rw [show (h'.internIndex index).1 = (h.internIndex index).1 from hname]
  exact htwins.putNamed hp hc hc' _ hv .none

theorem setIndex (ht : Twins ρ h h') (hp : ρ.Pairs a b) (hc : h.cell? a = some c)
    (hc' : h'.cell? b = some c') (index : UInt32) (hv : ρ.Matches v v') :
    Parallel ρ Refused (Heap.setIndex a index v h) (Heap.setIndex b index v' h') := by
  have hpay := (ht.twin hp hc hc').payload
  have hnamed := ht.namedIndex? hp hc hc' index
  cases hpc : c.payload <;> cases hpc' : c'.payload <;> rw [hpc, hpc'] at hpay <;> cases hpay
  case array.array e e' he =>
    simp only [Heap.setIndex, bind, EStateM.bind, requireCell_some hc, requireCell_some hc', hpc, hpc',
      he.size]
    split
    · exact ht.putByIndex hp hc hc' index hv
    have hnone := ht.putElement hp hc hc' index.toNat e'.items.size e.capacity e'.capacity none hv
    have hsome (p : Property) :=
      ht.putElement hp hc hc' index.toNat e'.items.size e.capacity e'.capacity (some p) hv
    have hput (p : Property) := ht.putNamed hp hc hc' p.name hv .none
    rcases Option.rel_iff.mp (he index.toNat) with ⟨hx, hy⟩ | ⟨x, y, hx, hy, hxy⟩
    · simp only [EStateM.bind, get_apply, hnamed, hx, hy, Bool.false_eq_true, if_false]
      cases h.namedIndex? a index with
      | none => exact hnone
      | some p =>
        dsimp only
        split
        · exact hsome p
        · exact hput p
    · simp only [EStateM.bind, get_apply, hnamed, hx, hy, hxy.isHole]
      cases x.isHole with
      | false => exact hnone
      | true =>
        simp only [Bool.not_true, Bool.false_eq_true, if_false]
        cases h.namedIndex? a index with
        | none => exact hnone
        | some p =>
          dsimp only
          split
          · exact hsome p
          · exact hput p
  case string.string =>
    simp only [Heap.setIndex, bind, EStateM.bind, requireCell_some hc, requireCell_some hc', hpc, hpc']
    exact .ok ht Iff.rfl
  all_goals
    simp only [Heap.setIndex, bind, EStateM.bind, requireCell_some hc, requireCell_some hc', hpc, hpc']
    exact ht.putByIndex hp hc hc' index hv

/-- Elements of another length. -/
def resized (h : Heap) (id : Handle) (e : Elements) (length : Nat) : Heap :=
  (h.modifyCell id (Cell.mapElements fun d =>
    if length ≤ e.items.size then { d with items := d.items.shrink length }
    else { items := d.items ++ Array.replicate (length - e.items.size) Value.hole
           capacity := max e.capacity length })).refreshFootprint id

theorem setArrayLength_array (hc : h.cell? a = some c) {e : Elements} (hp : c.payload = .array e)
    {length : UInt32} (hv : v.arrayIndex? = some length) :
    Heap.setArrayLength a v h = .error .outOfMemory h ∨
      Heap.setArrayLength a v h = .ok () (resized h a e length.toNat) := by
  have hreserve (n : Nat) : reserveBytes n h =
      if h.liveBytes + n ≤ h.limits.maxBytes then .ok () h else .error .outOfMemory h := by
    simp only [reserveBytes, bind, EStateM.bind, get_apply]
    split <;> rfl
  simp only [Heap.setArrayLength, hv, bind, EStateM.bind, get_apply, hc, hp]
  by_cases hroom : length.toNat > e.capacity
  · by_cases hm : h.liveBytes + (length.toNat - e.capacity) * valueBytes ≤ h.limits.maxBytes
    · right
      simp only [if_pos hroom, EStateM.bind, hreserve, if_pos hm]
      rfl
    · left
      simp only [if_pos hroom, EStateM.bind, hreserve, if_neg hm]
  · right
    simp only [if_neg hroom]
    rfl

theorem setArrayLength (ht : Twins ρ h h') (hp : ρ.Pairs a b) (hc : h.cell? a = some c)
    (hc' : h'.cell? b = some c') (hv : ρ.Matches v v') :
    Parallel ρ (fun _ _ => True) (Heap.setArrayLength a v h) (Heap.setArrayLength b v' h') := by
  cases hi : v.arrayIndex? with
  | none =>
    simp only [Heap.setArrayLength, hv.arrayIndex?, hi]
    exact .fault ht
  | some length =>
    have hpay := (ht.twin hp hc hc').payload
    cases hpc : c.payload <;> cases hpc' : c'.payload <;> rw [hpc, hpc'] at hpay <;> cases hpay
    case array.array e e' he =>
      rcases setArrayLength_array hc hpc hi with heq | heq
      · rw [heq]
        exact .left
      rcases setArrayLength_array hc' hpc' (hv.arrayIndex?.trans hi) with heq' | heq'
      · rw [heq']
        exact .right
      rw [heq, heq']
      refine .ok ?_ trivial
      unfold resized
      rw [he.size]
      refine ht.growElements hp fun d d' hd => ?_
      split
      · exact hd.shrink _
      · exact hd.append (.replicate _ (.word (by simp)))
    all_goals
      simp only [Heap.setArrayLength, hv.arrayIndex?, hi, bind, EStateM.bind, get_apply, hc, hc', hpc,
        hpc']
      exact .ok ht trivial

theorem setProperty (ht : Twins ρ h h') (hp : ρ.Pairs a b) (hc : h.cell? a = some c)
    (hc' : h'.cell? b = some c') (name : Atom) (hv : ρ.Matches v v') :
    Parallel ρ Refused (Heap.setProperty a name v h) (Heap.setProperty b name v' h') := by
  have hcell := ht.twin hp hc hc'
  have hput := ht.putNamed hp hc hc' name hv .none
  have hkind := hcell.kind
  simp only [Heap.setProperty, bind, EStateM.bind, requireCell_some hc, requireCell_some hc', get_apply]
  rw [hkind, ht.atoms]
  cases c.kind with
  | array =>
    dsimp only
    cases h.atoms.arrayIndex? name with
    | some index => exact ht.setIndex hp hc hc' index hv
    | none =>
      dsimp only
      split
      · have hset := ht.setArrayLength hp hc hc' hv
        simp only [EStateM.bind]
        generalize Heap.setArrayLength a v h = r at hset
        generalize Heap.setArrayLength b v' h' = r' at hset
        cases hset with
        | ok ht' _ => exact .ok ht' Iff.rfl
        | fault ht' => exact .fault ht'
        | left => exact .left
        | right => exact .right
      · exact hput
  | string =>
    dsimp only
    have hsyn := ht.synthesized? hcell name
    rcases Option.rel_iff.mp hsyn with ⟨hx, hy⟩ | ⟨x, y, hx, hy, -⟩
    · rw [hx, hy]
      exact hput
    · rw [hx, hy]
      exact .ok ht Iff.rfl
  | object | function | activation => exact hput

theorem defineProperty (ht : Twins ρ h h') (hp : ρ.Pairs a b) (hc : h.cell? a = some c)
    (hc' : h'.cell? b = some c') (name : Atom) (hv : ρ.Matches v v') (attributes : Attributes) :
    Parallel ρ (fun _ _ => True) (Heap.defineProperty a name v attributes h)
      (Heap.defineProperty b name v' attributes h') := by
  have ht' := ht.clearElement hp name
  have hlookup := (ht.twin hp hc hc').lookup? name
  obtain ⟨d, hd, hshape, hshapes, -, -⟩ := clearElement_cell hc name
  obtain ⟨d', hd', hshape', hshapes', -, -⟩ := clearElement_cell hc' name
  obtain ⟨k, hk⟩ : ∃ k, Heap.defineProperty a name v attributes h = .ok () k := defineProperty_ok hc
  obtain ⟨k', hk'⟩ : ∃ k', Heap.defineProperty b name v' attributes h' = .ok () k' :=
    defineProperty_ok hc'
  have hcases := defineProperty_cases hc name v attributes
  have hcases' := defineProperty_cases hc' name v' attributes
  rw [hk] at hcases ⊢
  rw [hk'] at hcases' ⊢
  refine .ok ?_ trivial
  rcases hcases with ⟨hl, heq⟩ | ⟨p, hl, hcases⟩
  · rcases hcases' with ⟨-, heq'⟩ | ⟨p, hl', -⟩
    · have hput := ht'.putNamed hp hd hd' name hv attributes
      obtain ⟨o, n, ho⟩ : ∃ o n, Heap.putNamed a name v attributes (h.clearElement a name) = .ok o n :=
        putNamed_ok hd
      obtain ⟨o', n', ho'⟩ : ∃ o' n',
          Heap.putNamed b name v' attributes (h'.clearElement b name) = .ok o' n' := putNamed_ok hd'
      rw [ho] at heq hput
      rw [ho'] at heq' hput
      obtain rfl : k = n := heq
      obtain rfl : k' = n' := heq'
      cases hput with
      | ok hn _ => exact hn
    · rw [hlookup, hl] at hl'
      cases hl'
  · rcases hcases' with ⟨hl', -⟩ | ⟨p', hl', hcases'⟩
    · rw [hlookup, hl] at hl'
      cases hl'
    · obtain rfl : p = p' := Option.some.inj (hl.symm.trans (hlookup.symm.trans hl'))
      have hld := hl
      rw [← hshape, ← hshapes] at hld
      rcases hcases with ⟨ha, heq⟩ | ⟨ha, heq⟩ <;> rcases hcases' with ⟨ha', heq'⟩ | ⟨ha', heq'⟩
      · obtain rfl : k = _ := heq
        obtain rfl : k' = _ := heq'
        exact ht'.slot hp hd hd' hld hv
      · exact absurd ha ha'
      · exact absurd ha' ha
      · obtain rfl : k = _ := heq
        obtain rfl : k' = _ := heq'
        rw [← hshape, ← hshapes, ← hshape', ← hshapes']
        exact ht'.redefine hp hd hd' hld hv attributes

/-- **Deleting a property.** -/
theorem deleteProperty (ht : Twins ρ h h') (hp : ρ.Pairs a b) (hc : h.cell? a = some c)
    (hc' : h'.cell? b = some c') (name : Atom) :
    Parallel ρ (fun deleted deleted' => deleted' = deleted) (Heap.deleteProperty a name h)
      (Heap.deleteProperty b name h') := by
  have hcell := ht.twin hp hc hc'
  have hrest : Parallel ρ (fun deleted deleted' => deleted' = deleted) (h.deleteNamed a c name h)
      (h'.deleteNamed b c' name h') := by
    unfold deleteNamed
    rw [hcell.lookup?]
    rcases Option.rel_iff.mp (ht.synthesized? hcell name) with ⟨hx, hy⟩ | ⟨x, y, hx, hy, -⟩
    · simp only [hx, hy, Option.isSome_none, Bool.false_eq_true, if_false]
      cases h.shapes.lookup? c.shape name with
      | none => exact .ok ht rfl
      | some p =>
        dsimp only
        by_cases hd : p.attributes.dontDelete = true
        · simp only [hd, if_true]
          exact .ok ht rfl
        · simp only [hd]
          exact .ok (ht.removeNamed hp hc hc' name) rfl
    · simp only [hx, hy, Option.isSome_some, if_true]
      exact .ok ht rfl
  simp only [Heap.deleteProperty, bind, EStateM.bind, requireCell_some hc, requireCell_some hc', get_apply]
  rw [ht.atoms]
  cases h.atoms.arrayIndex? name with
  | none => exact hrest
  | some index =>
    dsimp only
    rcases Option.rel_iff.mp (ht.denseElement? hp hc hc' index) with ⟨hx, hy⟩ | ⟨x, y, hx, hy, -⟩
    · simp only [hx, hy]
      exact hrest
    · simp only [hx, hy, Option.isSome_some, if_true]
      exact .ok (ht.clearElement hp name) rfl

end Twins

end Heap

end ScriptMachine
