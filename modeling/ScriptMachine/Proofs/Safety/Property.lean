import ScriptMachine.Machine.Operators
import ScriptMachine.Proofs.Heap.Lookup
import ScriptMachine.Proofs.Safety.Allocation

/-! # Property access is safe

A lookup finds what live cells refer to, so its value does not dangle, and is guarded if the cell
is (`Safe.guards_lookup`). A replayed write is a write under a name of its site, so it keeps the machine
safe (`Runs.putById`). Operators read their operands before they allocate. -/

namespace ScriptMachine

namespace Heap

variable {h : Heap} {G : Value → Prop} {id : Handle} {c : Cell} {name : Atom} {v : Value}

theorem slot_references (h : Heap) (c : Cell) (offset : Nat) :
    c.slot offset ∈ h.references c ∨ c.slot offset = .undefined := by
  unfold Cell.slot
  rw [Array.getD_eq_getD_getElem?]
  cases hs : c.slots[offset]? with
  | none => exact .inr rfl
  | some v =>
    left
    have hmem := Array.mem_of_getElem? hs
    simp [references, hmem]

theorem synthesized?_references (hv : h.synthesized? c name = some v) :
    v ∈ h.references c ∨ v.cell? = none := by
  unfold synthesized? at hv
  split at hv
  case h_1 elements hp =>
    split at hv
    · split at hv
      case h_1 value hitem =>
        split at hv
        · cases hv
        · obtain rfl := Option.some.inj hv
          left
          have hmem := Array.mem_of_getElem? hitem
          simp [references, hp, Payload.references, hmem]
      case h_2 => cases hv
    · split at hv
      · rw [← Option.some.inj hv]
        exact .inr (Value.cell?_number _)
      · cases hv
  case h_2 =>
    split at hv
    · rw [← Option.some.inj hv]
      exact .inr (Value.cell?_number _)
    · cases hv
  case h_3 => cases hv

theorem denseElement?_references {index : UInt32} (hv : h.denseElement? id index = some v) :
    ∃ c, h.cell? id = some c ∧ v ∈ h.references c := by
  unfold denseElement? at hv
  split at hv
  case h_2 => cases hv
  case h_1 c hc =>
    split at hv
    case h_2 => cases hv
    case h_1 elements hp =>
      split at hv
      case h_2 => cases hv
      case h_1 value hitem =>
        split at hv
        · cases hv
        · obtain rfl := Option.some.inj hv
          have hmem := Array.mem_of_getElem? hitem
          exact ⟨c, hc, by simp [references, hp, Payload.references, hmem]⟩

theorem here?_references (hv : h.here? c name = some v) : v ∈ h.references c ∨ v.cell? = none := by
  rcases Option.or_eq_some_iff.mp hv with hs | ⟨-, hp⟩
  · exact synthesized?_references hs
  · obtain ⟨p, -, rfl⟩ := Option.map_eq_some_iff.mp hp
    exact (slot_references h c p.offset).imp_right fun heq => by rw [heq, Value.cell?_undefined]

section Lookup
variable (hnone : ∀ v, v.cell? = none → G v)
  (hstep : ∀ id c v, G (.cell id) → h.cell? id = some c → v ∈ h.references c → G v)
include hnone hstep

/-- What a walk along prototypes finds belongs to every set of values that is closed under references. -/
theorem Ends.closed {n : Nat} {found : Option Value} (he : h.Ends name n v found) (hv : G v) :
    ∀ w, found = some w → G w := by
  induction he with
  | off => exact nofun
  | here hcell hhere =>
    intro w hw
    rw [← Option.some.inj hw]
    obtain ⟨id, hid, hcell⟩ := Option.bind_eq_some_iff.mp hcell
    rw [Value.cell?_eq_some.mp hid] at hv
    rcases here?_references hhere with hw | hw
    · exact hstep id _ _ hv hcell hw
    · exact hnone _ hw
  | above hcell _ _ ih =>
    obtain ⟨id, hid, hcell⟩ := Option.bind_eq_some_iff.mp hcell
    rw [Value.cell?_eq_some.mp hid] at hv
    exact ih (hstep id _ _ hv hcell (by simp [references, Heap.above]))

/-- **What a lookup finds** belongs to it as well. -/
theorem lookupProperty?_closed (hv : G (.cell id)) {found : PropertyLookup}
    (hl : h.lookupProperty? id name = some found) : G found.value := by
  obtain ⟨n, he⟩ := lookupProperty?_eq_some.mp (congrArg (·.map (·.found?)) hl)
  rw [found.value_eq]
  cases hw : found.found? with
  | none => exact hnone _ (by simp)
  | some w => exact he.closed hnone hstep hv w hw

end Lookup

end Heap

namespace Machine

variable {m m' : Machine} {id : Handle} {name : Atom} {v : Value} {site : Site}

theorem Safe.guards_lookup (hs : m.Safe) (hv : m.Guards (.cell id)) {found : PropertyLookup}
    (hl : m.heap.lookupProperty? id name = some found) : m.Guards found.value :=
  Heap.lookupProperty?_closed (fun _ => guards_of_not_cell)
    (fun _ _ _ hid hcell hmem => hs.guards_reference hid hcell hmem) hv hl

theorem Safe.holds_lookup (hs : m.Safe) {found : PropertyLookup}
    (hl : m.heap.lookupProperty? id name = some found) : m.Holds found.value := by
  cases hcell : m.heap.cell? id with
  | none =>
    simp only [Heap.lookupProperty?, hcell, Option.some.injEq] at hl
    exact holds_of_not_cell (by simp [← hl, PropertyLookup.value])
  | some c =>
    refine Heap.lookupProperty?_closed (G := m.Holds) (fun _ => holds_of_not_cell)
      (fun _ _ _ _ hcell hmem => hs.holds_reference hcell hmem) (fun _ id' hid' => ?_) hl
    rw [Value.cell?_cell] at hid'
    rw [← Option.some.inj hid']
    exact Heap.isLive_of_cell? hcell

/-- What a read of a property gives is guarded if the cell is. -/
theorem Safe.guards_property (hs : m.Safe) (hv : m.Guards (.cell id))
    (hp : m.heap.getProperty? id name = some v) : m.Guards v := by
  obtain ⟨found, hl, rfl⟩ := Option.map_eq_some_iff.mp hp
  exact hs.guards_lookup hv hl

theorem Safe.holds_property (hs : m.Safe) (hp : m.heap.getProperty? id name = some v) : m.Holds v := by
  obtain ⟨found, hl, rfl⟩ := Option.map_eq_some_iff.mp hp
  exact hs.holds_lookup hl

theorem Safe.holds_slot (hs : m.Safe) (id : Handle) (offset : Nat) :
    m.Holds (m.heap.readSlot id offset) := by
  unfold Heap.readSlot
  cases hcell : m.heap.cell? id with
  | none => exact holds_of_not_cell (by simp)
  | some c =>
    rcases Heap.slot_references m.heap c offset with hmem | heq
    · exact hs.holds_reference hcell hmem
    · exact holds_of_not_cell (by simp [heq])

/-- What a read through a site gives. -/
theorem Safe.holds_found (hs : m.Safe) {found : PropertyLookup}
    (hl : m.found? id name site = some found) : m.Holds found.value := by
  unfold found? at hl
  split at hl
  case h_2 => exact hs.holds_lookup hl
  case h_1 w hr =>
    rw [← Option.some.inj hl]
    change m.Holds w
    unfold replayed? at hr
    split at hr
    case h_2 => cases hr
    case h_1 shape _ =>
      cases he : m.cachedProperty? site shape with
      | none =>
        rw [he] at hr
        cases hr
      | some e =>
        rw [he] at hr
        cases e with
        | getOwn _ offset =>
          rw [← Option.some.inj hr]
          exact hs.holds_slot id offset
        | getPrototype _ holder holderShape offset =>
          simp only [replayRead?] at hr
          split at hr
          · rw [← Option.some.inj hr]
            exact hs.holds_slot holder offset
          · cases hr
        | replace _ _ => cases hr
        | transition _ _ _ => cases hr

theorem liveCell?_eq_some (h : m.liveCell? v = some id) : v = .cell id ∧ m.heap.isLive id = true := by
  unfold liveCell? at h
  split at h
  case h_2 => cases h
  case h_1 id' hid =>
    split at h
    case isTrue hl =>
      obtain rfl := Option.some.inj h
      exact ⟨Value.cell?_eq_some.mp hid, hl⟩
    case isFalse => cases h

theorem objectCell?_eq_some (h : m.objectCell? v = some id) :
    v = .cell id ∧ m.heap.isLive id = true := by
  unfold objectCell? at h
  split at h
  case h_2 => cases h
  case h_1 id' hid =>
    split at h
    case h_2 => cases h
    case h_1 c hc =>
      split at h
      · obtain rfl := Option.some.inj h
        exact ⟨Value.cell?_eq_some.mp hid, Heap.isLive_of_cell? hc⟩
      · cases h

/-! ### Changes of registered code -/

/-- Changing what a code block has besides names and constants. -/
theorem Safe.modifyCode (hs : m.Safe) {code : CodeId} {f : CodeEntry → CodeEntry}
    (hconstants : ∀ c, (f c).constants = c.constants)
    (hcaches : (m.modifyCode code f).Remembers fun _ _ _ => True)
    (hknown : ∀ c, c.Known m.heap.atoms → m.code? code = some c → (f c).Known m.heap.atoms) :
    (m.modifyCode code f).Safe ∧ m.Steady (m.modifyCode code f) := by
  have hroots : (m.modifyCode code f).roots = m.roots := by
    have hlist : (m.modifyCode code f).codes.toList.map CodeEntry.constants =
        m.codes.toList.map CodeEntry.constants := by
      apply List.ext_getElem?
      intro i
      simp only [List.getElem?_map, Array.getElem?_toList, Machine.modifyCode, Array.getElem?_modify]
      split
      · cases m.codes[i]? <;> simp [hconstants]
      · rfl
    have hconst : (m.modifyCode code f).codes.toList.flatMap (fun e => e.constants.toList) =
        m.codes.toList.flatMap fun e => e.constants.toList := by
      rw [← List.flatMap_map (g := fun a : Array Value => a.toList), hlist, List.flatMap_map]
    unfold roots
    rw [hconst]
    rfl
  have hanchors : (m.modifyCode code f).anchors = m.anchors := by
    unfold anchors
    rw [hroots]
    rfl
  refine ⟨⟨hs.heap, ⟨hs.anchored.intrinsics, hs.anchored.names⟩, hcaches, fun entry hentry => ?_, hs.listeners, hs.hosts,
    hs.parked, fun ha => ?_⟩, rfl, fun v hv => by rw [hanchors]; exact hv⟩
  · obtain ⟨i, hi⟩ := Array.getElem?_of_mem hentry
    simp only [Machine.modifyCode, Array.getElem?_modify] at hi
    split at hi
    case isTrue heq =>
      obtain ⟨c, hc, rfl⟩ := Option.map_eq_some_iff.mp hi
      refine hknown c (hs.codes c (Array.mem_of_getElem? hc)) ?_
      rw [code?, heq]
      exact hc
    case isFalse => exact hs.codes entry (Array.mem_of_getElem? hi)
  · have hclean := hs.clean ha
    refine ⟨hclean.closed, hclean.listed, hclean.acyclic, fun v hv => ?_⟩
    rw [hanchors] at hv
    exact hclean.anchors v hv

/-- Recording a valid entry. -/
theorem Safe.cacheProperty (hs : m.Safe) {e : PropertyEntry} (hv : e.Valid m.heap name)
    (hk : m.heap.atoms.Knows name) :
    (m.cacheProperty site e).Safe ∧ m.Steady (m.cacheProperty site e) := by
  have hcaches : (m.cacheProperty site e).Remembers fun _ _ _ => True :=
    hs.caches.cacheProperty hv hk fun _ _ _ => trivial
  unfold Machine.cacheProperty at hcaches ⊢
  split
  case isTrue => exact ⟨hs, .refl m⟩
  case isFalse hon =>
    rw [if_neg hon] at hcaches
    cases site with
    | none => exact ⟨hs, .refl m⟩
    | some s =>
      obtain ⟨code, index⟩ := s
      exact hs.modifyCode (fun _ => rfl) hcaches fun c hc _ => ⟨hc.atoms, hc.compiled⟩

/-- The machine after a read through a site. -/
theorem Safe.afterRead (hs : m.Safe) (hk : m.heap.atoms.Knows name) :
    (m.afterRead id name site).Safe ∧ m.Steady (m.afterRead id name site) ∧
      (m.afterRead id name site).heap = m.heap := by
  unfold Machine.afterRead
  split
  case h_1 e _ he =>
    obtain ⟨hsafe, hsteady⟩ := @Safe.cacheProperty m name site hs e (recorded?_valid hs.heap he) hk
    exact ⟨hsafe, hsteady, heap_cacheProperty _ _ _⟩
  case h_2 => exact ⟨hs, .refl m, rfl⟩

end Machine

open Machine

namespace Runs

variable {env : Env} {m : Machine} {id : Handle} {name : Atom} {site : Site} {base key value : Value}

/-! ### Named access -/

theorem readCell (hs : m.Safe) (hk : m.heap.atoms.Knows name) :
    Runs env m (readCell id name site) fun l m' =>
      m.Steady m' ∧ m'.heap = m.heap ∧ m'.Holds l.value := by
  cases hl : m.found? id name site with
  | none => exact never hs fun env => by rw [readCell_eq, hl]
  | some found =>
    obtain ⟨hsafe, hsteady, hheap⟩ := @Safe.afterRead m id name site hs hk
    refine known (a := found) (fun env => by rw [readCell_eq, hl]) hsafe
      ⟨by rw [hheap], by rw [hheap]; exact .refl _⟩ ⟨hsteady, hheap, (hs.holds_found hl).congr hheap⟩

/-- **A read** leaves the heap as it is. -/
theorem getById (hs : m.Safe) (hk : m.heap.atoms.Knows name) :
    Runs env m (getById base name site) fun v m' =>
      m.Steady m' ∧ m'.heap = m.heap ∧ m'.Holds v := by
  refine look ?_
  cases m.liveCell? base with
  | none =>
    refine ite (fun _ => raiseError hs _ _) fun _ => ret hs ⟨.refl m, rfl, ?_⟩
    exact holds_of_not_cell (by simp)
  | some id =>
    refine bind (readCell hs hk) ?_
    intro l m' hs' _ hl
    exact ret hs' hl

theorem refuseWrite (hs : m.Safe) (name : Atom) :
    Runs env m (refuseWrite name) fun _ m' => m.Steady m' := by
  refine look ?_
  cases m.config.readOnlyPolicy with
  | ignore => exact ret hs (.refl m)
  | throw => exact raiseError hs _ _

theorem recordWrite (hs : m.Safe) {outcome : PutOutcome} (hk : m.heap.atoms.Knows name)
    (hv : ∀ e, m.isElementBacked id name = false → m.cacheableWrite? outcome = some e →
      e.Valid m.heap name) :
    Runs env m (recordWrite id name site outcome) fun _ m' => m.Steady m' := by
  unfold ScriptMachine.recordWrite
  refine ite (fun _ => refuseWrite hs name) fun _ => look (ite (fun hb => ?_) fun _ => ret hs (.refl m))
  cases he : m.cacheableWrite? outcome with
  | none => exact ret hs (.refl m)
  | some e =>
    obtain ⟨hsafe, hsteady⟩ := @Safe.cacheProperty m name site hs e (hv e (by simpa using hb) he) hk
    refine update hsafe ⟨?_, ?_⟩ hsteady
    · rw [heap_cacheProperty]
    · rw [heap_cacheProperty]
      exact .refl _

/-- **A write** of a guarded value to a guarded cell. -/
theorem putById (hs : m.Safe) (hk : m.heap.atoms.Knows name) (hb : m.Guards base)
    (hv : m.Guards value) :
    Runs env m (putById base name value site) fun _ m' => m.Steady m' := by
  unfold ScriptMachine.putById
  refine look ?_
  cases hlive : m.liveCell? base with
  | none => exact ite (fun _ => raiseError hs _ _) fun _ => ret hs (.refl m)
  | some id =>
    rw [(liveCell?_eq_some hlive).1] at hb
    change Runs env m (putCell m id name value site) _
    unfold putCell
    cases hr : m.replayedWrite? id site with
    | some entry =>
      obtain ⟨shape, offset⟩ := entry
      obtain ⟨_, _, name', _, _, hk', hwrite⟩ := hs.caches.replayedWrite? hs.heap hr
      obtain ⟨outcome, -, hw⟩ := hwrite value
      have hc := Heap.setProperty_changes (storable_holds m) hv.holds hs.heap id hk'
      rw [hw] at hc
      exact update (hs.changes hc) (grows_changes hs hc) (steady_changes hs hc)
    | none =>
      refine bind (heapWrite hs id (by simp) (by simp [hb, hv]) ?_ fun h =>
        Heap.setProperty_sturdy) ?_
      · intro m₁ hs₁ hg₁ hheld
        exact Heap.setProperty_changes (storable_holds m₁) (hheld value (by simp)) hs₁.heap id
          (hg₁.atoms.knows hk)
      · rintro outcome m' hs' hg' ⟨hsteady, m₁, hs₁, hg₁, hw⟩
        refine (recordWrite hs' (hg'.atoms.knows hk) fun e hbacked he => ?_).mono
          fun _ _ h => hsteady.trans h
        exact cacheableWrite?_valid hs₁.heap (hg₁.atoms.knows hk) hw hbacked he

theorem deleteById (hs : m.Safe) :
    Runs env m (deleteById base name) fun _ m' => m.Steady m' := by
  unfold ScriptMachine.deleteById
  refine look ?_
  cases hlive : m.liveCell? base with
  | none => exact ite (fun _ => raiseError hs _ _) fun _ => ret hs (.refl m)
  | some id =>
    obtain ⟨c, hc⟩ := Heap.isLive_iff.mp (liveCell?_eq_some hlive).2
    have hchanges := Heap.deleteProperty_changes (storable_holds m) hs.heap id name
    refine bind (runHeap hs hchanges fun _ h he => ?_) ?_
    · obtain ⟨deleted, h', hok⟩ := @Heap.deleteProperty_ok _ id c name hc
      rw [hok] at he
      cases he
    · rintro deleted m' hs' _ ⟨hm', -⟩
      have hsteady : m.Steady m' := by
        rw [hm']
        exact steady_changes hs hchanges
      refine look (ite (fun _ => ?_) fun _ => ret hs' hsteady)
      exact bind (Q := fun _ _ => False) (raiseError hs' _ _) fun _ _ _ _ h => h.elim

/-! ### Computed access -/

theorem keyAtom (hs : m.Safe) (key : Value) : Runs env m (keyAtom key) fun name m' =>
    m' = { m with heap := (m.heap.intern (m.display key)).2 } ∧ m'.heap.atoms.Knows name :=
  look (intern hs _)

theorem getKeyed (hs : m.Safe) :
    Runs env m (do ScriptMachine.getById base (← ScriptMachine.keyAtom key) none)
      fun v m' => m'.Holds v := by
  refine bind (keyAtom hs key) ?_
  rintro name m' hs' _ ⟨-, hk⟩
  exact (getById hs' hk).mono fun _ _ h => h.2.2

/-- What a read of an index gives, if its lookup ends. -/
theorem getIndex? (hs : m.Safe) (id : Handle) (index : UInt32) :
    Runs env m (ScriptMachine.withHeap (·.getIndex? id index)) fun found m' =>
      ∀ v, found = some v → m'.Holds v := by
  have hc : Heap.Changes m.Holds m.heap (m.heap.internIndex index).2 := .single (.intern _)
  cases hd : m.heap.denseElement? id index with
  | some v =>
    have heq : m.heap.getIndex? id index = (some v, m.heap) := by simp only [Heap.getIndex?, hd]
    refine withHeap hs (by rw [heq]; exact .refl) fun w hw => ?_
    rw [heq] at hw ⊢
    obtain ⟨c, hcell, hv⟩ := Heap.denseElement?_references hd
    exact Option.some.inj hw ▸ hs.holds_reference hcell hv
  | none =>
    have heq : m.heap.getIndex? id index = ((m.heap.internIndex index).2.getProperty? id
        (m.heap.internIndex index).1, (m.heap.internIndex index).2) := by
      simp only [Heap.getIndex?, hd]
    refine withHeap hs (by rw [heq]; exact hc) fun w hw => ?_
    rw [heq] at hw ⊢
    exact (hs.changes hc).holds_property hw

theorem getByVal (hs : m.Safe) : Runs env m (getByVal base key) fun v m' => m'.Holds v := by
  refine look ?_
  split
  case h_1 id index _ _ =>
    split
    case h_1 text _ =>
      split
      · exact (Allocated.holds (newString hs _))
      · exact ret hs (holds_of_not_cell (by simp))
    case h_2 =>
      refine ite (fun _ => bind (getIndex? hs id index) ?_) fun _ => getKeyed hs
      exact fun found m' hs' _ hv => settled hs' hv
  case h_2 => exact getKeyed hs

theorem putByVal (hs : m.Safe) (hb : m.Guards base) (hv : m.Guards value) :
    Runs env m (putByVal base key value) fun _ m' => m.Steady m' := by
  have hintern (text : String) : m.Steady { m with heap := (m.heap.intern text).2 } :=
    steady_changes (P := m.Holds) hs (.single (.intern text))
  have hnamed : Runs env m (do ScriptMachine.putById base (← ScriptMachine.keyAtom key) value none)
      fun _ m' => m.Steady m' := by
    refine bind (keyAtom hs key) ?_
    rintro name m' hs' _ ⟨rfl, hk⟩
    exact (putById hs' hk (hb.intern _) (hv.intern _)).mono fun _ _ h => (hintern _).trans h
  refine look ?_
  split
  case h_2 => exact hnamed
  case h_1 id index hobject _ =>
    rw [(objectCell?_eq_some hobject).1] at hb
    refine bind (heapWrite hs id (by simp) (by simp [hb, hv]) ?_ fun h =>
      Heap.setIndex_sturdy index) ?_
    · intro m₁ hs₁ _ hheld
      exact Heap.setIndex_changes (storable_holds m₁) (hheld value (by simp)) hs₁.heap id index
    · rintro outcome m₁ hs₁ _ ⟨hsteady, -⟩
      refine ite (fun _ => ?_) fun _ => ret hs₁ hsteady
      have hc : Heap.Changes m₁.Holds m₁.heap (m₁.heap.internIndex index).2 := .single (.intern _)
      refine bind (withHeap (Q := fun _ m' => m.Steady m') hs₁ hc
        (hsteady.trans (steady_changes hs₁ hc))) ?_
      intro name m₂ hs₂ _ hsteady₂
      exact (refuseWrite hs₂ name).mono fun _ _ h => hsteady₂.trans h

theorem hasKey (hs : m.Safe) : Runs env m (hasKey key base) fun _ _ => True := by
  refine look ?_
  split
  case h_1 => exact raiseError hs _ _
  case h_2 id _ =>
    refine bind (keyAtom hs key) ?_
    intro name m' hs' _ _
    exact look (settled hs' fun _ _ => trivial)

theorem instanceOf (hs : m.Safe) : Runs env m (instanceOf value base) fun _ _ => True := by
  refine look (ite (fun _ => raiseError hs _ _) fun _ => ?_)
  split
  case h_1 => exact ret hs trivial
  case h_2 =>
    refine bind (getById hs hs.anchored.names.prototype) ?_
    intro prototype m' hs' _ _
    refine look ?_
    split
    · exact raiseError hs' _ _
    · exact settled hs' fun _ _ => trivial

/-! ### Globals -/

theorem getGlobalById (hs : m.Safe) (hk : m.heap.atoms.Knows name) :
    Runs env m (getGlobalById name site) fun v m' => m'.Holds v := by
  refine look (bind (readCell hs hk) ?_)
  rintro l m' hs' _ ⟨-, -, hv⟩
  cases l with
  | missing => exact look (raiseError hs' _ _)
  | own | prototype | synthesized => exact ret hs' hv

theorem putGlobalById (hs : m.Safe) (hk : m.heap.atoms.Knows name) (hv : m.Guards value) :
    Runs env m (putGlobalById name value site) fun _ m' => m.Steady m' :=
  look (putById hs hk (hs.guards_intrinsic (by simp [Intrinsics.objects])) hv)

/-! ### Operators -/

theorem cell?_onNumbers (op : BinaryOp) (x y : Binary64) : (op.onNumbers x y).cell? = none := by
  cases op with
  | add | sub | mul | div | mod | bitAnd | bitOr | bitXor | shiftLeft | shiftRight
  | unsignedShiftRight => exact Value.cell?_number _
  | less | lessEq | greater | greaterEq | equal | notEqual | strictEqual | strictNotEqual =>
    exact Value.cell?_boolean _

theorem applyBinary (hs : m.Safe) (op : BinaryOp) (a b : Value) :
    Runs env m (applyBinary op a b) fun v m' => m'.Holds v := by
  unfold ScriptMachine.applyBinary
  split
  case h_1 x y _ _ => exact ret hs (holds_of_not_cell (cell?_onNumbers op x y))
  case h_2 =>
    refine look ?_
    cases op with
    | add =>
      refine look (ite (fun _ => Allocated.holds (newString hs _)) fun _ => ?_)
      exact ret hs (holds_of_not_cell (Value.cell?_number _))
    | equal | notEqual | strictEqual | strictNotEqual | less | lessEq | greater | greaterEq =>
      exact ret hs (holds_of_not_cell (Value.cell?_boolean _))
    | sub | mul | div | mod | bitAnd | bitOr | bitXor | shiftLeft | shiftRight | unsignedShiftRight =>
      exact ret hs (holds_of_not_cell (Value.cell?_number _))

theorem applyUnary (hs : m.Safe) (op : UnaryOp) (a : Value) :
    Runs env m (applyUnary op a) fun v m' => m'.Holds v := by
  refine look ?_
  cases op with
  | negate | increment | decrement | toNumber =>
    exact ret hs (holds_of_not_cell (Value.cell?_number _))
  | not => exact ret hs (holds_of_not_cell (Value.cell?_boolean _))
  | typeOf => exact Allocated.holds (newString hs _)

end Runs

end ScriptMachine
