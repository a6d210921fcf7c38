import ScriptMachine.Machine.Conversion
import ScriptMachine.Proofs.Heap.Issue
import ScriptMachine.Proofs.Heap.Lookup

/-! # Prototype chains

A walk along prototypes goes from a cell to its prototype, from there to the prototype of that one, and
so on. The cells that it comes to are the lineage of the value where it starts (`Heap.Lineage`). A
lineage is a finite list: a value above which prototypes run in a circle has none, and one that has a
lineage never comes to a cell twice (`Lineage.nodup`).

The walks of the heap take fuel, and stop when there is none left. On a lineage they need none of the
excess: a lookup gives the first thing that a cell of the lineage has (`Lineage.ends`), a walk that
looks for a cell finds it if it is there (`Lineage.meets`), and the check of a new prototype accepts
exactly the short lineages that the cell is not part of (`checkChain_ok_iff`).

A heap is acyclic (`Heap.Acyclic`) when prototypes are live and live values have lineages. Allocations
on shapes with a live prototype, all operations on properties, changes of prototype and collections keep
a heap acyclic (`Acyclic.run`), so that on the heaps that they lead to all chains end
(`prototype_chains_end`). So do the steps of the operations that a machine does for a program
(`Acyclic.changes`), which change no prototype. -/

namespace ScriptMachine

namespace Heap

/-- **The lineage of a value**: the cell it refers to, then the prototype of that cell, and so on, until
there is no cell any more. -/
def Lineage (h : Heap) : List Handle → Value → Prop
  | [], v => v.cell? = none
  | id :: ids, v => v.cell? = some id ∧ h.Lineage ids (h.prototypeOf id)

variable {h h' h'' : Heap} {id target : Handle} {ids ids' : List Handle} {c : Cell} {v prototype : Value}
  {name : Atom} {value : Value} {fuel depth : Nat}

theorem prototypeOf_of_cell (hcell : h.cell? id = some c) : h.prototypeOf id = h.above c := by
  rw [prototypeOf, hcell]
  rfl

theorem prototypeOf_of_none (hcell : h.cell? id = none) : h.prototypeOf id = .null := by
  rw [prototypeOf, hcell]

theorem lineage_null (h : Heap) : h.Lineage [] .null := Value.cell?_null

/-! ### Lineages -/

namespace Lineage

/-- A value has one lineage at most. -/
theorem unique (hl : h.Lineage ids v) (hl' : h.Lineage ids' v) : ids = ids' := by
  induction ids generalizing v ids' with
  | nil =>
    cases ids' with
    | nil => rfl
    | cons id' ids' => cases hl.symm.trans hl'.1
  | cons id ids ih =>
    cases ids' with
    | nil => cases hl'.symm.trans hl.1
    | cons id' ids' =>
      obtain ⟨hid, hrest⟩ := hl
      obtain ⟨hid', hrest'⟩ := hl'
      have hsame : id = id' := Option.some.inj (hid.symm.trans hid')
      subst hsame
      rw [ih hrest hrest']

/-- The rest of a lineage is the lineage of the cell where it starts. -/
theorem from_cell {before rest : List Handle} (hl : h.Lineage (before ++ id :: rest) v) :
    h.Lineage (id :: rest) (.cell id) := by
  induction before generalizing v with
  | nil => exact ⟨Value.cell?_cell id, hl.2⟩
  | cons first before ih => exact ih hl.2

/-- **A lineage never comes to a cell twice.** -/
theorem nodup (hl : h.Lineage ids v) : ids.Nodup := by
  induction ids generalizing v with
  | nil => exact List.nodup_nil
  | cons id ids ih =>
    refine List.nodup_cons.mpr ⟨fun hagain => ?_, ih hl.2⟩
    obtain ⟨before, rest, hids⟩ := List.append_of_mem hagain
    -- the cell would have two lineages, one a part of the other
    have hlong : h.Lineage (id :: ids) (.cell id) := ⟨Value.cell?_cell id, hl.2⟩
    have hshort : h.Lineage (id :: rest) (.cell id) := from_cell (hids ▸ hl.2)
    have hlength := congrArg List.length (hlong.unique hshort)
    have hlonger := congrArg List.length hids
    simp only [List.length_cons, List.length_append] at hlength hlonger
    omega

/-- A lineage stays as long as its cells keep their prototypes. -/
theorem transfer (hl : h.Lineage ids v)
    (hkeep : ∀ id ∈ ids, h'.prototypeOf id = h.prototypeOf id) : h'.Lineage ids v := by
  induction ids generalizing v with
  | nil => exact hl
  | cons id ids ih =>
    refine ⟨hl.1, ?_⟩
    rw [hkeep id List.mem_cons_self]
    exact ih hl.2 fun other hother => hkeep other (List.mem_cons_of_mem id hother)

/-- A lineage stays if what it starts from is live, and the prototypes of live cells are the old ones and
live. -/
theorem survive (hl : h.Lineage ids v) (hv : v.Live h')
    (hkeep : ∀ id, h'.isLive id = true →
      h'.prototypeOf id = h.prototypeOf id ∧ (h.prototypeOf id).Live h') : h'.Lineage ids v := by
  induction ids generalizing v with
  | nil => exact hl
  | cons id ids ih =>
    obtain ⟨hid, hrest⟩ := hl
    obtain ⟨hsame, hlive⟩ := hkeep id (hv id hid)
    refine ⟨hid, ?_⟩
    rw [hsame]
    exact ih hrest hlive

/-- Where prototypes are live, the cells of a lineage are. -/
theorem live (hl : h.Lineage ids v) (hv : v.Live h) (hlive : ∀ id, (h.prototypeOf id).Live h) :
    ∀ id ∈ ids, h.isLive id = true := by
  induction ids generalizing v with
  | nil =>
    intro id hid
    cases hid
  | cons first ids ih =>
    intro id hid
    rcases List.mem_cons.mp hid with rfl | hid
    · exact hv id hl.1
    · exact ih hl.2 (hlive first) id hid

/-! ### Walks -/

/-- **A walk ends** at the latest with the lineage, and finds the first thing of the name that a cell of it has. -/
theorem ends (hl : h.Lineage ids v) (name : Atom) : ∃ n, h.Ends name n v
    (ids.findSome? fun id => (h.cell? id).bind fun c => h.here? c name) := by
  induction ids generalizing v with
  | nil => exact ⟨0, .off (by rw [behind?, hl, Option.bind_none])⟩
  | cons id ids ih =>
    obtain ⟨hid, hrest⟩ := hl
    rw [List.findSome?_cons]
    cases hcell : h.cell? id with
    | none =>
      -- a cell that is gone is the last one
      rw [prototypeOf_of_none hcell] at hrest
      have hlast : ids = [] := hrest.unique (lineage_null h)
      rw [hlast]
      exact ⟨0, .off (by rw [behind?, hid, Option.bind_some, hcell])⟩
    | some c =>
      have hbehind : h.behind? v = some c := by rw [behind?, hid, Option.bind_some, hcell]
      rw [prototypeOf_of_cell hcell] at hrest
      rw [Option.bind_some]
      cases hhere : h.here? c name with
      | some w => exact ⟨0, .here hbehind hhere⟩
      | none =>
        obtain ⟨n, hends⟩ := ih hrest
        exact ⟨n + 1, .above hbehind hhere hends⟩

/-- **A walk meets the cells of the lineage**, and no others. -/
theorem meets (hl : h.Lineage ids v) (hfuel : ids.length ≤ fuel) :
    h.chainMeets? target fuel v = some (decide (target ∈ ids)) := by
  induction ids generalizing v fuel with
  | nil =>
    have hid : v.cell? = none := hl
    cases fuel <;> simp [chainMeets?, hid]
  | cons id ids ih =>
    obtain ⟨hid, hrest⟩ := hl
    cases fuel with
    | zero => cases hfuel
    | succ fuel =>
      have hnext := ih hrest (Nat.le_of_succ_le_succ hfuel)
      simp only [chainMeets?, hid, hnext, beq_iff_eq]
      by_cases hhere : id = target
      · simp [hhere]
      · simp [hhere, Ne.symm hhere]

end Lineage

/-- **The check of a prototype** accepts it if it has a lineage, of at most so many cells, that the cell
is not part of. -/
theorem checkChain_ok_iff : h.checkChain id fuel v = .ok () ↔
    ∃ ids, h.Lineage ids v ∧ ids.length ≤ fuel ∧ id ∉ ids := by
  induction fuel generalizing v with
  | zero =>
    unfold checkChain
    cases hv : v.cell? with
    | none => exact ⟨fun _ => ⟨[], hv, Nat.le_refl 0, List.not_mem_nil⟩, fun _ => rfl⟩
    | some link =>
      dsimp only
      have hlong : ¬∃ ids, h.Lineage ids v ∧ ids.length ≤ 0 ∧ id ∉ ids := by
        rintro ⟨ids, hl, hlength, -⟩
        rw [List.eq_nil_of_length_eq_zero (Nat.le_zero.mp hlength)] at hl
        cases hv.symm.trans hl
      refine ⟨fun hok => ?_, fun hl => absurd hl hlong⟩
      split at hok <;> cases hok
  | succ fuel ih =>
    unfold checkChain
    cases hv : v.cell? with
    | none => exact ⟨fun _ => ⟨[], hv, Nat.zero_le _, List.not_mem_nil⟩, fun _ => rfl⟩
    | some link =>
      dsimp only
      by_cases hlink : link = id
      · rw [if_pos (beq_iff_eq.mpr hlink)]
        refine ⟨fun hok => (by cases hok), ?_⟩
        rintro ⟨ids, hl, -, hnot⟩
        cases ids with
        | nil => cases hv.symm.trans hl
        | cons first rest =>
          obtain rfl := Option.some.inj (hv.symm.trans hl.1)
          exact absurd (hlink ▸ List.mem_cons_self) hnot
      · rw [if_neg fun heq => hlink (beq_iff_eq.mp heq), ih]
        constructor
        · rintro ⟨ids, hl, hlength, hnot⟩
          refine ⟨link :: ids, ⟨hv, hl⟩, Nat.succ_le_succ hlength, fun hmem => ?_⟩
          rcases List.mem_cons.mp hmem with heq | hmem
          · exact hlink heq.symm
          · exact hnot hmem
        · rintro ⟨ids, hl, hlength, hnot⟩
          cases ids with
          | nil => cases hv.symm.trans hl
          | cons first rest =>
            obtain rfl := Option.some.inj (hv.symm.trans hl.1)
            exact ⟨rest, hl.2, Nat.le_of_succ_le_succ hlength,
              fun hmem => hnot (List.mem_cons_of_mem _ hmem)⟩

/-! ### Acyclic heaps -/

/-- **An acyclic heap**: prototypes are live, and what is live has a lineage. -/
structure Acyclic (h : Heap) : Prop where
  /-- Prototypes are live. -/
  live : ∀ id, (h.prototypeOf id).Live h
  /-- Live values have lineages. -/
  lineage : ∀ v : Value, v.Live h → ∃ ids, h.Lineage ids v

namespace Acyclic

theorem new (limits : HeapLimits) : (Heap.new limits).Acyclic := by
  have hnone (id : Handle) : (Heap.new limits).cell? id = none := by simp [Heap.new, cell?]
  constructor
  · intro id other hother
    rw [prototypeOf_of_none (hnone id)] at hother
    cases hother
  · intro v hv
    cases hcell : v.cell? with
    | none => exact ⟨[], hcell⟩
    | some id =>
      have hlive := hv id hcell
      rw [isLive, hnone] at hlive
      cases hlive

/-- Only prototypes matter, and which cells are live. -/
theorem congr (hf : h.Acyclic) (hp : ∀ id, h'.prototypeOf id = h.prototypeOf id)
    (hl : ∀ id, h'.isLive id = h.isLive id) : h'.Acyclic := by
  have hlive (v : Value) : v.Live h' ↔ v.Live h := by simp only [Value.Live, hl]
  constructor
  · intro id
    rw [hp, hlive]
    exact hf.live id
  · intro v hv
    obtain ⟨ids, hids⟩ := hf.lineage v ((hlive v).mp hv)
    exact ⟨ids, hids.transfer fun id _ => hp id⟩

/-- **In an acyclic heap every walk ends.** -/
theorem ends (hf : h.Acyclic) (id : Handle) (name : Atom) : ∃ n found, h.Ends name n (.cell id) found := by
  cases hcell : h.cell? id with
  | none => exact ⟨0, none, .off ((h.behind?_cell id).trans hcell)⟩
  | some c =>
    obtain ⟨ids, hids⟩ := hf.lineage _ (live_cell.mpr (isLive_of_cell? hcell))
    obtain ⟨n, hends⟩ := hids.ends name
    exact ⟨n, _, hends⟩

/-- In an acyclic heap a lineage has no more cells than there are slots. -/
theorem length_le (hf : h.Acyclic) (hv : v.Live h) (hl : h.Lineage ids v) :
    ids.length ≤ h.slots.size :=
  length_le_size hl.nodup (hl.live hv hf.live)

/-- **A new cell on a live prototype.** It is part of no lineage but its own. -/
theorem allocate (hf : h.Acyclic) (hfree : h.FreeListed) {shape : ShapeId} {payload : Payload}
    (hp : (h.shapes.get shape).prototype.Live h)
    (hsize : (h.allocate shape payload).2.slots.size ≤ 2 ^ 32) :
    (h.allocate shape payload).2.Acyclic := by
  rcases allocate_cases h shape payload with ⟨failure, heq⟩ | ⟨bytes, hok, -⟩
  · rw [heq]
    exact hf
  · obtain ⟨hnone, hcell⟩ := cell?_allocate hfree hok hsize
    have hshapes := (allocate_frame h shape payload).1
    generalize (h.allocate shape payload).2 = h' at *
    generalize (h.place (Cell.new shape (h.shapes.get shape).slotCount payload) bytes).1 = new at *
    have hevolves {v : Value} (hv : v.Live h) : v.Live h' := by
      intro other hother
      rw [isLive, hcell]
      split
      · rfl
      · exact hv other hother
    have hold (other : Handle) (hne : other ≠ new) : h'.prototypeOf other = h.prototypeOf other := by
      unfold prototypeOf
      rw [hcell, if_neg hne, hshapes]
    have hnew : h'.prototypeOf new = (h.shapes.get shape).prototype := by
      unfold prototypeOf
      rw [hcell, if_pos rfl, hshapes]
      dsimp only
      rw [(payload_new _ _ _).2]
    have hkeep {v : Value} (hv : v.Live h) : ∃ ids, h'.Lineage ids v := by
      obtain ⟨ids, hids⟩ := hf.lineage v hv
      refine ⟨ids, hids.transfer fun other hother => hold other ?_⟩
      rintro rfl
      have hlive := hids.live hv hf.live other hother
      rw [isLive, hnone] at hlive
      cases hlive
    constructor
    · intro other
      by_cases hne : other = new
      · rw [hne, hnew]
        exact hevolves hp
      · rw [hold other hne]
        exact hevolves (hf.live other)
    · intro v hv
      by_cases hcase : v.cell? = some new
      · obtain ⟨ids, hids⟩ := hkeep hp
        exact ⟨new :: ids, hcase, hnew ▸ hids⟩
      · refine hkeep fun other hother => ?_
        have hlive := hv other hother
        have hne : other ≠ new := by
          rintro rfl
          exact hcase hother
        rw [isLive, hcell, if_neg hne] at hlive
        exact hlive

/-- **A collection** keeps the prototypes of the cells that it keeps. -/
theorem collect (hf : h.Acyclic) (hw : h.AllWhite) (values : List Value) (words : List UInt64) :
    (h.collect values words).2.Acyclic := by
  have hkeep (id : Handle) (hlive : (h.collect values words).2.isLive id = true) :
      (h.collect values words).2.prototypeOf id = h.prototypeOf id ∧
        (h.prototypeOf id).Live (h.collect values words).2 := by
    obtain ⟨c, hcell⟩ := isLive_iff.mp hlive
    obtain ⟨hold, hreach⟩ := (cell?_collect hw values words).mp hcell
    have hsame : (h.collect values words).2.above c = h.above c :=
      congrArg Shape.prototype (shape_collect hw values words hcell)
    refine ⟨?_, fun next hnext => ?_⟩
    · rw [prototypeOf_of_cell hcell, prototypeOf_of_cell hold, hsame]
    · obtain ⟨d, hd⟩ := isLive_iff.mp (hf.live id next hnext)
      rw [prototypeOf_of_cell hold] at hnext
      have hmem : Value.cell next ∈ h.references c := by
        rw [← Value.cell?_eq_some.mp hnext]
        simp [references, above]
      exact isLive_of_cell? ((cell?_collect hw values words).mpr
        ⟨hd, .step hreach hold (mem_references.mp hmem) (isLive_of_cell? hd)⟩)
  have hearlier {v : Value} (hv : v.Live (h.collect values words).2) : v.Live h := by
    intro id hid
    obtain ⟨c, hcell⟩ := isLive_iff.mp (hv id hid)
    exact isLive_of_cell? ((cell?_collect hw values words).mp hcell).1
  constructor
  · intro id
    cases hcell : (h.collect values words).2.cell? id with
    | none =>
      intro other hother
      rw [prototypeOf_of_none hcell] at hother
      cases hother
    | some c =>
      obtain ⟨hsame, hlive⟩ := hkeep id (isLive_of_cell? hcell)
      rw [hsame]
      exact hlive
  · intro v hv
    obtain ⟨ids, hids⟩ := hf.lineage v (hearlier hv)
    exact ⟨ids, hids.survive hv hkeep⟩

/-- **Another prototype** for one cell: if it is live and has a lineage without the cell, every lineage
that comes to the cell goes on with that one. -/
theorem redirect (hf : h.Acyclic) (hl : ∀ id, h'.isLive id = h.isLive id)
    (hother : ∀ other, other ≠ id → h'.prototypeOf other = h.prototypeOf other)
    (hlive : (h'.prototypeOf id).Live h) (hids : h.Lineage ids (h'.prototypeOf id)) (hnot : id ∉ ids) :
    h'.Acyclic := by
  have hsame (v : Value) : v.Live h' ↔ v.Live h := by simp only [Value.Live, hl]
  have hafter : h'.Lineage ids (h'.prototypeOf id) := by
    refine hids.transfer fun other hmem => hother other ?_
    rintro rfl
    exact hnot hmem
  have hgoes (before : List Handle) : ∀ {v : Value}, h.Lineage before v → ∃ ids, h'.Lineage ids v := by
    induction before with
    | nil => exact fun hv => ⟨[], hv⟩
    | cons first before ih =>
      rintro v ⟨hfirst, hrest⟩
      by_cases heq : first = id
      · exact ⟨id :: ids, heq ▸ hfirst, hafter⟩
      · obtain ⟨more, hmore⟩ := ih hrest
        exact ⟨first :: more, hfirst, by rw [hother first heq]; exact hmore⟩
  constructor
  · intro other
    rw [hsame]
    by_cases heq : other = id
    · rw [heq]
      exact hlive
    · rw [hother other heq]
      exact hf.live other
  · intro v hv
    obtain ⟨before, hbefore⟩ := hf.lineage v ((hsame v).mp hv)
    exact hgoes before hbefore

end Acyclic

/-! ### Steps of operations -/

/-- A new root shape is that of no cell. -/
theorem Housed.prototypeOf_rootShape (hh : h.Housed) (kind : CellKind) (prototype : Value) (id : Handle) :
    (h.rootShape kind prototype).2.prototypeOf id = h.prototypeOf id := by
  obtain ⟨hg, -⟩ := ShapeTable.root_spec hh.shapes kind prototype
  have hsame : (h.rootShape kind prototype).2.cell? id = h.cell? id := rfl
  unfold prototypeOf
  rw [hsame]
  cases hcell : h.cell? id with
  | none => rfl
  | some c => exact congrArg Shape.prototype (hg.keeps c.shape (hh.live id c hcell) fun h => h).2

/-- A cell that moves to another shape leaves the prototypes of the others alone. -/
theorem Housed.prototypeOf_other (hh : h.Housed) (hcell : h.cell? id = some c) {t : ShapeTable} {f : Cell → Cell}
    (hm : h.shapes.Moves c.shape t (f c).shape) {other : Handle} (hne : other ≠ id) :
    ({ h with shapes := t }.modifyCell id f).prototypeOf other = h.prototypeOf other := by
  unfold prototypeOf
  rw [cell?_move hcell, if_neg hne]
  cases hd : h.cell? other with
  | none => rfl
  | some d => exact congrArg Shape.prototype (hh.shape_of_other hcell hm hne hd).2

/-- **A step keeps all prototypes.** -/
theorem Change.prototypeOf {P : Value → Prop} (hco : h.Coherent) (hs : Change P h h') (id : Handle) :
    h'.prototypeOf id = h.prototypeOf id := by
  cases hs with
  | intern name => rfl
  | root kind prototype => exact hco.housed.prototypeOf_rootShape kind prototype id
  | @update moved c t f hcell hu =>
    by_cases heq : id = moved
    · have hread := (cell?_move hcell t f moved).trans (if_pos rfl)
      rw [heq, prototypeOf_of_cell hread, prototypeOf_of_cell hcell]
      exact hu.prototype
    · exact hco.housed.prototypeOf_other hcell hu.moves heq
  | count counted =>
    have hframe := refreshFootprint_frame h counted
    unfold Heap.prototypeOf
    rw [cell?_refreshFootprint, hframe]
  | protect _ =>
    obtain ⟨more, heq⟩ := pushTemporary_eq h _
    rw [heq]
    rfl

theorem Changes.prototypeOf {P : Value → Prop} (hco : h.Coherent) (hs : Changes P h h') (id : Handle) :
    h'.prototypeOf id = h.prototypeOf id := by
  induction hs with
  | refl => rfl
  | tail hs hlast ih => exact (hlast.prototypeOf (hs.coherent hco).1 id).trans ih

/-- **Operations that change no prototype keep a heap acyclic.** -/
theorem Acyclic.changes {P : Value → Prop} (hf : h.Acyclic) (hco : h.Coherent) (hs : Changes P h h') :
    h'.Acyclic := by
  refine hf.congr (hs.prototypeOf hco) fun id => ?_
  have hsome := congrArg Option.isSome (hs.keeps.kinds id)
  rwa [Option.isSome_map, Option.isSome_map] at hsome

/-! ### Operations that keep the prototype -/

/-- **A chain of edits of a cell that keeps its prototype.** -/
structure Upholds (id : Handle) (h h' : Heap) : Prop where
  /-- Only the cell is edited. -/
  edits : Edits id h h'
  /-- Its prototype stays. -/
  prototype : h.Housed → h.shapes.Intact → h'.prototypeOf id = h.prototypeOf id

namespace Upholds

theorem refl (id : Handle) (h : Heap) : Upholds id h h := ⟨.refl, fun _ _ => rfl⟩

theorem trans (hu : Upholds id h h') (hu' : Upholds id h' h'') : Upholds id h h'' := by
  refine ⟨hu.edits.trans hu'.edits, fun hh hi => ?_⟩
  obtain ⟨hh', hi', -⟩ := hh.edits hi hu.edits
  rw [hu'.prototype hh' hi', hu.prototype hh hi]

/-- A cell that moves to a shape with the same prototype. -/
theorem rewrite {t : ShapeTable} {f : Cell → Cell} (hcell : h.cell? id = some c)
    (hs : h.shapes.Transition c.shape t (f c).shape) (hk : (f c).kind = c.kind)
    (hp : h.shapes.Ordered → h.shapes.isLive c.shape = true →
      (t.get (f c).shape).prototype = (h.shapes.get c.shape).prototype) :
    Upholds id h ({ h with shapes := t }.modifyCell id f) := by
  refine ⟨.single (.rewrite hcell hs hk), fun hh _ => ?_⟩
  have hread := (cell?_move hcell t f id).trans (if_pos rfl)
  rw [prototypeOf_of_cell hread, prototypeOf_of_cell hcell]
  exact hp hh.shapes (hh.live id c hcell)

theorem stay {f : Cell → Cell} (hcell : h.cell? id = some c) (hs : (f c).shape = c.shape)
    (hk : (f c).kind = c.kind) : Upholds id h (h.modifyCell id f) :=
  rewrite (t := h.shapes) hcell (by rw [hs]; exact .stay) hk fun _ _ => by rw [hs]

theorem slot (hcell : h.cell? id = some c) (offset : Nat) (value : Value) :
    Upholds id h (h.modifyCell id (·.setSlot offset value)) :=
  stay hcell (c.setSlot_frame offset value).1 (congrArg Payload.kind (c.setSlot_frame offset value).2)

theorem count (h : Heap) (id : Handle) : Upholds id h (h.refreshFootprint id) := by
  refine ⟨.single .count, fun _ _ => ?_⟩
  unfold prototypeOf
  rw [cell?_refreshFootprint, refreshFootprint_frame]

theorem intern (h : Heap) (id : Handle) (name : String) : Upholds id h (h.intern name).2 :=
  ⟨.single (.intern name), fun _ _ => rfl⟩

theorem elements (h : Heap) (id : Handle) (f : Elements → Elements) :
    Upholds id h (h.modifyCell id (Cell.mapElements f)) := by
  cases hcell : h.cell? id with
  | none =>
    rw [modifyCell_of_none _ hcell]
    exact refl id h
  | some c =>
    obtain ⟨hs, -, hk⟩ := mapElements_frame f c
    exact stay hcell hs hk

theorem scope (h : Heap) (id : Handle) (f : ScopeRecord → ScopeRecord) :
    Upholds id h (h.modifyCell id (Cell.mapScope f)) := by
  cases hcell : h.cell? id with
  | none =>
    rw [modifyCell_of_none _ hcell]
    exact refl id h
  | some c =>
    obtain ⟨hs, hk⟩ := mapScope_frame f c
    exact stay hcell hs hk

theorem addNamed (hcell : h.cell? id = some c) (hn : h.shapes.lookup? c.shape name = none)
    (value : Value) (attributes : Attributes) :
    Upholds id h (h.addNamed id c.shape name value attributes) := by
  refine trans (rewrite hcell (.add attributes hn) ?_ fun ho hl => ?_) (count _ id)
  · exact congrArg Payload.kind (c.setSlot_frame _ value).2
  · exact (ShapeTable.addProperty_spec ho hl hn attributes).prototype

theorem putNamed (h : Heap) (id : Handle) (name : Atom) (value : Value) (attributes : Attributes) :
    Upholds id h (leaves (putNamed id name value attributes h)) := by
  cases hcell : h.cell? id with
  | none =>
    rw [putNamed_stale hcell]
    exact refl id h
  | some c =>
    cases hn : h.shapes.lookup? c.shape name with
    | none =>
      rw [putNamed_none hcell hn]
      exact addNamed hcell hn value attributes
    | some p =>
      rw [putNamed_some hcell hn]
      split
      case isTrue => exact refl id h
      case isFalse => exact slot hcell p.offset value

theorem removeNamed (hcell : h.cell? id = some c) (name : Atom) :
    Upholds id h (h.removeNamed id c.shape name) := by
  refine ⟨.single (removeNamed_edit hcell name), fun hh _ => ?_⟩
  obtain ⟨-, -, hp, -⟩ := ShapeTable.removeProperty_spec hh.shapes (hh.live id c hcell) name
  unfold Heap.removeNamed
  generalize h.shapes.removeProperty c.shape name = result at *
  obtain ⟨after, removed, t⟩ := result
  dsimp only at hp ⊢
  have hread (f : Cell → Cell) := (cell?_move hcell t f id).trans (if_pos rfl)
  rw [prototypeOf_of_cell (hread _), prototypeOf_of_cell hcell]
  cases removed with
  | none => exact hp
  | some p =>
    unfold above
    dsimp only
    rw [(Cell.setSlot_frame _ _ _).1]
    exact hp

theorem clearElement (h : Heap) (id : Handle) (name : Atom) :
    Upholds id h (h.clearElement id name) := by
  unfold Heap.clearElement
  cases h.atoms.arrayIndex? name with
  | none => exact refl id h
  | some index => exact elements h id _

theorem storeElement (h : Heap) (id : Handle) (position length capacity : Nat) (value : Value) :
    Upholds id h (h.storeElement id position length capacity value) := by
  unfold Heap.storeElement
  split
  case isTrue => exact elements h id _
  case isFalse => exact (elements h id _).trans (count _ id)

theorem putElement (hcell : h.cell? id = some c) (position length capacity : Nat)
    (named : Option Property) (value : Value) :
    Upholds id h (leaves (putElement id position length capacity named value h)) := by
  rcases putElement_cases hcell position length capacity named value with heq | ⟨room, heq⟩
  · rw [heq]
    exact refl id h
  · rw [heq]
    refine trans ?_ (storeElement _ id position length room value)
    cases named with
    | none => exact refl id h
    | some p => exact removeNamed hcell p.name

theorem setIndex (h : Heap) (id : Handle) (index : UInt32) (value : Value) :
    Upholds id h (leaves (setIndex id index value h)) := by
  cases hcell : h.cell? id with
  | none =>
    simp only [Heap.setIndex, bind, EStateM.bind, requireCell_none hcell]
    exact refl id h
  | some c =>
    rcases setIndex_cases hcell index value with
      ⟨heq, -⟩ | heq | ⟨e, named, -, -, -, heq⟩ | ⟨p, -, -, heq⟩
    · rw [heq]
      exact trans (intern h id _) (putNamed _ id _ value _)
    · rw [heq]
      exact refl id h
    · rw [heq]
      exact putElement hcell _ _ _ named value
    · rw [heq]
      exact putNamed h id p.name value _

theorem setArrayLength (h : Heap) (id : Handle) (length : Value) :
    Upholds id h (leaves (setArrayLength id length h)) := by
  rcases setArrayLength_cases h id length with heq | ⟨c, e, n, -, -, heq⟩
  · rw [heq]
    exact refl id h
  · rw [heq]
    exact (elements h id _).trans (count _ id)

theorem setProperty (h : Heap) (id : Handle) (name : Atom) (value : Value) :
    Upholds id h (leaves (setProperty id name value h)) := by
  cases hcell : h.cell? id with
  | none =>
    simp only [Heap.setProperty, bind, EStateM.bind, requireCell_none hcell]
    exact refl id h
  | some c =>
    rcases setProperty_cases hcell name value with
      ⟨index, -, -, heq⟩ | ⟨-, -, heq⟩ | heq | ⟨-, heq⟩
    · rw [heq]
      exact setIndex h id index value
    · have hlength := setArrayLength h id value
      rw [heq]
      cases hset : Heap.setArrayLength id value h <;>
        simpa [hset, leaves, bind, EStateM.bind, pure, EStateM.pure] using hlength
    · rw [heq]
      exact refl id h
    · rw [heq]
      exact putNamed h id name value _

theorem defineProperty (h : Heap) (id : Handle) (name : Atom) (value : Value)
    (attributes : Attributes) :
    Upholds id h (leaves (defineProperty id name value attributes h)) := by
  cases hcell : h.cell? id with
  | none =>
    simp only [Heap.defineProperty, bind, EStateM.bind, requireCell_none hcell]
    exact refl id h
  | some c =>
    obtain ⟨c', hcell', hshape, hshapes, -, -⟩ := clearElement_cell hcell name
    refine trans (clearElement h id name) ?_
    rcases defineProperty_cases hcell name value attributes with
      ⟨-, heq⟩ | ⟨p, -, ⟨-, heq⟩ | ⟨-, heq⟩⟩
    · rw [heq]
      exact putNamed _ id name value attributes
    · rw [heq]
      exact slot hcell' p.offset value
    · rw [heq, ← hshape, ← hshapes]
      refine rewrite hcell' (.attributes name attributes) ?_ fun ho hl => ?_
      · exact congrArg Payload.kind (c'.setSlot_frame p.offset value).2
      · exact (ShapeTable.changeAttributes_spec ho hl name attributes).2.1

theorem deleteProperty (h : Heap) (id : Handle) (name : Atom) :
    Upholds id h (leaves (deleteProperty id name h)) := by
  cases hcell : h.cell? id with
  | none =>
    simp only [Heap.deleteProperty, bind, EStateM.bind, requireCell_none hcell]
    exact refl id h
  | some c =>
    rcases deleteProperty_cases hcell name with heq | heq | heq
    · rw [heq]
      exact refl id h
    · rw [heq]
      exact clearElement h id name
    · rw [heq]
      exact removeNamed hcell name

end Upholds

/-! ### Changes of prototype -/

/-- **A change of prototype** fails and changes nothing, or the new prototype is null or an object with a
lineage that is short enough and that the cell is not part of, and the cell has it then. -/
theorem setPrototype_result (h : Heap) (id : Handle) (prototype : Value) :
    (∃ fault, setPrototype id prototype h = .error fault h) ∨
    ∃ c ids, h.cell? id = some c ∧ prototype.Live h ∧ h.Lineage ids prototype ∧
      ids.length ≤ maxPrototypeChain ∧ id ∉ ids ∧
      setPrototype id prototype h = .ok () ({ h with
        shapes := (h.shapes.changePrototype c.shape prototype).2 }.modifyCell id fun cell =>
          { cell with shape := (h.shapes.changePrototype c.shape prototype).1 }) := by
  cases hcell : h.cell? id with
  | none =>
    left
    refine ⟨.staleHandle, ?_⟩
    simp only [setPrototype, bind, EStateM.bind, requireCell_none hcell]
  | some c =>
    have hmove (hlive : prototype.Live h) :
        (∃ fault, h.movePrototype id c.shape prototype h = .error fault h) ∨
        ∃ c' ids, some c = some c' ∧ prototype.Live h ∧ h.Lineage ids prototype ∧
          ids.length ≤ maxPrototypeChain ∧ id ∉ ids ∧
          h.movePrototype id c.shape prototype h = .ok () ({ h with
            shapes := (h.shapes.changePrototype c'.shape prototype).2 }.modifyCell id fun cell =>
              { cell with shape := (h.shapes.changePrototype c'.shape prototype).1 }) := by
      unfold movePrototype
      cases hcheck : h.checkChain id maxPrototypeChain prototype with
      | error fault => exact .inl ⟨fault, rfl⟩
      | ok _ =>
        obtain ⟨ids, hids, hlength, hnot⟩ := checkChain_ok_iff.mp hcheck
        exact .inr ⟨c, ids, rfl, hlive, hids, hlength, hnot, rfl⟩
    simp only [setPrototype, bind, EStateM.bind, requireCell_some hcell, get_apply]
    by_cases hn : prototype.isNull = true
    · have hnull : prototype = .null := congrArg Value.mk (beq_iff_eq.mp hn)
      have hlive : prototype.Live h := by
        intro other hother
        rw [hnull, Value.cell?_null] at hother
        cases hother
      simp only [hn, Bool.not_true]
      exact hmove hlive
    · simp only [hn]
      cases hcp : h.cellOf? prototype with
      | none => exact .inl ⟨.invalidPrototype, rfl⟩
      | some cell =>
        have hlive : prototype.Live h := by
          intro other hother
          rw [cellOf?, hother] at hcp
          exact isLive_of_cell? hcp
        by_cases hobj : cell.kind.isObject = true
        · simp only [hobj]
          exact hmove hlive
        · simp only [hobj]
          exact .inl ⟨.invalidPrototype, rfl⟩

/-- **After a change of prototype** the cell has the new one, and all other cells have theirs. There are
no more cells above it than a chain may have. -/
theorem setPrototype_ok (hh : h.Housed) (hok : setPrototype id prototype h = .ok () h') :
    prototype.Live h ∧ h'.prototypeOf id = prototype ∧
    (∀ other, other ≠ id → h'.prototypeOf other = h.prototypeOf other) ∧
    (∀ other, h'.isLive other = h.isLive other) ∧
    ∃ ids, h.Lineage ids prototype ∧ id ∉ ids ∧ ids.length ≤ maxPrototypeChain ∧
      h'.Lineage (id :: ids) (.cell id) := by
  rcases setPrototype_result h id prototype with
    ⟨fault, heq⟩ | ⟨c, ids, hcell, hlive, hids, hlength, hnot, heq⟩
  · cases heq.symm.trans hok
  · have hmoves := ShapeTable.changePrototype_spec hh.shapes (hh.live id c hcell) prototype
    obtain ⟨hm, hp, -⟩ := hmoves
    obtain rfl := (EStateM.Result.ok.inj (heq.symm.trans hok)).2
    have hread := cell?_move hcell (h.shapes.changePrototype c.shape prototype).2
      fun cell => { cell with shape := (h.shapes.changePrototype c.shape prototype).1 }
    generalize h.shapes.changePrototype c.shape prototype = result at *
    obtain ⟨after, t⟩ := result
    dsimp only at hm hp hread ⊢
    have hself : ({ h with shapes := t }.modifyCell id fun cell =>
        { cell with shape := after }).prototypeOf id = prototype := by
      rw [prototypeOf_of_cell ((hread id).trans (if_pos rfl))]
      exact hp
    have hother (other : Handle) (hne : other ≠ id) :
        ({ h with shapes := t }.modifyCell id fun cell =>
          { cell with shape := after }).prototypeOf other = h.prototypeOf other :=
      hh.prototypeOf_other hcell hm hne
    refine ⟨hlive, hself, hother, fun other => isLive_modifyCell _ id other _,
      ids, hids, hnot, hlength, Value.cell?_cell id, ?_⟩
    rw [hself]
    refine hids.transfer fun other hmem => hother other ?_
    rintro rfl
    exact hnot hmem

/-! ### Heaps that are driven from outside -/

/-- **What may be done where chains are to end**: what may be done, and cells are allocated on shapes
whose prototype is no cell or a live one. -/
def Action.Grounded (s : Ledger) (a : Action) : Prop :=
  a.Allowed s ∧ ∀ shape payload, a = .allocate shape payload →
    (s.heap.shapes.get shape).prototype.Live s.heap

section Ledgers

variable {s : Ledger} {a : Action}

/-- **An action on a cell keeps its prototype**, unless it is a change of prototype. -/
theorem Action.upholds (hs : s.Sound) (ha : a.Allowed s) (ht : a.target? = some id)
    (hp : ∀ prototype, a ≠ .setPrototype id prototype) : Upholds id s.heap (a.run s).heap := by
  cases a with
  | setProperty id name value =>
    cases ht
    rw [Action.run, Ledger.heap_write]
    exact .setProperty s.heap id name value
  | setIndex id index value =>
    cases ht
    rw [Action.run, Ledger.heap_write]
    exact .setIndex s.heap id index value
  | setArrayLength id length =>
    cases ht
    exact .setArrayLength s.heap id length
  | defineProperty id name value attributes =>
    cases ht
    exact .defineProperty s.heap id name value attributes
  | deleteProperty id name =>
    cases ht
    exact .deleteProperty s.heap id name
  | setPrototype id prototype =>
    cases ht
    exact absurd rfl (hp prototype)
  | replay id r value =>
    cases ht
    obtain ⟨hr, hshape⟩ := ha
    obtain ⟨c, hcell, hsource⟩ := Option.map_eq_some_iff.mp hshape
    rcases writeSlot_replay hcell (hs.reports r hr) hsource.symm value with ⟨p, -, heq⟩ | ⟨hn, heq⟩
    · rw [Action.run, heq]
      exact .slot hcell p.offset value
    · rw [Action.run, heq]
      exact .addNamed hcell hn value .none
  | setVariable id index value =>
    cases ht
    exact .scope s.heap id _
  | intern | rootShape | allocate | anchor | collect => cases ht

/-- **All but a change of prototype**, an allocation and a collection keeps all prototypes. -/
theorem Action.keeps_prototypes (hs : s.Sound) (ha : a.Allowed s)
    (hnew : ∀ shape payload, a ≠ .allocate shape payload)
    (hcollect : ∀ values words, a ≠ .collect values words)
    (hset : ∀ id prototype, a ≠ .setPrototype id prototype) (other : Handle) :
    (a.run s).heap.prototypeOf other = s.heap.prototypeOf other := by
  cases ht : a.target? with
  | some id =>
    obtain ⟨-, -, hspares⟩ := Action.spares hs ha ht
    by_cases heq : other = id
    · have hupholds := Action.upholds hs ha ht (hset id)
      rw [heq]
      exact hupholds.prototype hs.housed hs.intact
    · unfold prototypeOf
      rw [hspares.cells other heq]
      cases hcell : s.heap.cell? other with
      | none => rfl
      | some c => exact congrArg Shape.prototype (hspares.layouts other c heq hcell)
  | none =>
    cases a with
    | intern name => rfl
    | rootShape kind prototype => exact hs.housed.prototypeOf_rootShape kind prototype other
    | anchor change =>
      obtain ⟨hslots, -, hshapes, -⟩ := anchor_frame s.heap change
      unfold prototypeOf
      rw [Action.run, cell?_congr hslots, hshapes]
    | allocate shape payload => exact absurd rfl (hnew shape payload)
    | collect values words => exact absurd rfl (hcollect values words)
    | setProperty | setIndex | setArrayLength | defineProperty | deleteProperty | setPrototype
    | replay | setVariable => cases ht

/-- **Every action keeps a heap acyclic.** -/
theorem Acyclic.run (hf : s.heap.Acyclic) (hs : s.Sound) (ha : a.Grounded s)
    (hsize : (a.run s).heap.slots.size ≤ 2 ^ 32) : (a.run s).heap.Acyclic := by
  obtain ⟨hallowed, hground⟩ := ha
  by_cases hnew : ∃ shape payload, a = .allocate shape payload
  · obtain ⟨shape, payload, rfl⟩ := hnew
    have hfree := hs.listed ((size_le_allocated s.heap shape payload).trans hsize)
    exact hf.allocate hfree (hground shape payload rfl) hsize
  by_cases hcollect : ∃ values words, a = .collect values words
  · obtain ⟨values, words, rfl⟩ := hcollect
    exact hf.collect hs.housed.white values words
  by_cases hset : ∃ id prototype, a = .setPrototype id prototype
  · obtain ⟨id, prototype, rfl⟩ := hset
    rcases setPrototype_result s.heap id prototype with ⟨fault, heq⟩ | ⟨_, _, -, -, -, -, -, heq⟩
    · rw [Action.run, heq]
      exact hf
    · obtain ⟨hproto, hself, hother, hlive, ids, hids, hnot, -⟩ := setPrototype_ok hs.housed heq
      rw [Action.run, heq]
      rw [← hself] at hproto hids
      exact hf.redirect hlive hother hproto hids hnot
  · obtain ⟨houtline, -⟩ := ((Action.outline s a).resolve_left hnew).resolve_left hcollect
    have hkeep := Action.keeps_prototypes hs hallowed
      (fun shape payload heq => hnew ⟨shape, payload, heq⟩)
      (fun values words heq => hcollect ⟨values, words, heq⟩)
      (fun id prototype heq => hset ⟨id, prototype, heq⟩)
    exact hf.congr hkeep (isLive_outline houtline)

/-- **The heaps that actions lead to are acyclic**, as long as every slot has a handle. -/
theorem Ledger.Reached.acyclic (hr : s.Reached Action.Grounded) :
    s.heap.slots.size ≤ 2 ^ 32 → s.heap.Acyclic := by
  induction hr with
  | new limits => exact fun _ => .new limits
  | @step s a hr ha ih =>
    intro hsize
    have hs : s.Sound := hr.sound fun _ _ h => h.1
    have hle := (size_le_action hs.housed.white a).1
    exact (ih (hle.trans hsize)).run hs ha hsize

/-- **Prototype chains end.** Whatever was done with a heap, cells being allocated on shapes whose
prototype is no cell or a live one, and as long as every slot has a handle, there is for every live cell
a list of the cells above it, all different from each other and from the cell, together no more than
there are slots. On it,

* a lookup gives the first thing of the name,
* a walk from the prototype of the cell finds the cells of the list, and
* the cell is accepted as a prototype of all cells but itself and those above it, if there are not too
  many of these. -/
theorem prototype_chains_end (hr : s.Reached Action.Grounded) (hsize : s.heap.slots.size ≤ 2 ^ 32)
    (hlive : s.heap.isLive id = true) :
    ∃ ids, s.heap.Lineage (id :: ids) (.cell id) ∧ (id :: ids).Nodup ∧
      (id :: ids).length ≤ s.heap.slots.size ∧
      (∀ name, (s.heap.lookupProperty? id name).map (·.found?) =
        some ((id :: ids).findSome? fun other => (s.heap.cell? other).bind fun c => s.heap.here? c name)) ∧
      (∀ target, s.heap.chainMeets? target s.heap.chainFuel (s.heap.prototypeOf id) =
        some (decide (target ∈ ids))) ∧
      ∀ other, s.heap.checkChain other maxPrototypeChain (.cell id) = .ok () ↔
        (id :: ids).length ≤ maxPrototypeChain ∧ other ∉ id :: ids := by
  have hf := hr.acyclic hsize
  have hstart : (Value.cell id).Live s.heap := live_cell.mpr hlive
  obtain ⟨all, hall⟩ := hf.lineage _ hstart
  cases all with
  | nil => cases (Value.cell?_cell id).symm.trans hall
  | cons first ids =>
    obtain rfl := Option.some.inj ((Value.cell?_cell id).symm.trans hall.1)
    have hlength := hf.length_le hstart hall
    refine ⟨ids, hall, hall.nodup, hlength, fun name => ?_, fun target => ?_, fun other => ?_⟩
    · exact lookupProperty?_eq_some.mpr (hall.ends name)
    · have hfuel : ids.length ≤ s.heap.chainFuel := by
        rw [List.length_cons] at hlength
        unfold chainFuel
        omega
      exact Lineage.meets hall.2 hfuel
    · rw [checkChain_ok_iff]
      constructor
      · rintro ⟨others, hothers, hle, hnot⟩
        rw [hothers.unique hall] at hle hnot
        exact ⟨hle, hnot⟩
      · rintro ⟨hle, hnot⟩
        exact ⟨id :: ids, hall, hle, hnot⟩

theorem twins_grounded : twins.Reached Action.Grounded := by
  have hshape : ((Heap.new {}).rootShape .object .null).2.shapes.get ⟨0⟩ =
      { kind := .object, prototype := .null } := by
    rw [rooted_heap]
    rfl
  have horigin : ((Heap.new {}).rootShape .object .null).2.shapes.Origin Payload.plain.kind ⟨0⟩ := by
    rw [rooted_heap]
    exact ⟨rfl, rfl, rfl⟩
  have hground (h : Heap) (hs : h.shapes = ((Heap.new {}).rootShape .object .null).2.shapes)
      (shape : ShapeId) (payload : Payload)
      (heq : Action.allocate ⟨0⟩ .plain = .allocate shape payload) :
      (h.shapes.get shape).prototype.Live h := by
    cases heq
    intro id hid
    rw [hs, hshape, Value.cell?_null] at hid
    cases hid
  have hsame := (allocate_frame ((Heap.new {}).rootShape .object .null).2 ⟨0⟩ .plain).1
  have hroot : Ledger.Reached Action.Grounded { heap := ((Heap.new {}).rootShape .object .null).2 } :=
    .step (a := .rootShape .object .null) (.new {}) ⟨trivial, nofun⟩
  have hfirst := hroot.step (a := .allocate ⟨0⟩ .plain) ⟨horigin, hground _ rfl⟩
  refine hfirst.step (a := .allocate ⟨0⟩ .plain) ⟨?_, hground _ hsame⟩
  change ShapeTable.Origin _ _ _
  rw [Action.run, hsame]
  exact horigin

/-- There is nothing above an object on an empty shape without a prototype. -/
theorem prototype_chains_end_twins : twins.heap.isLive ⟨1, 0⟩ = true ∧
    twins.heap.Lineage [⟨1, 0⟩] (.cell ⟨1, 0⟩) ∧
    ∀ target, twins.heap.chainMeets? target twins.heap.chainFuel (twins.heap.prototypeOf ⟨1, 0⟩) = some false := by
  have hsize : twins.heap.slots.size ≤ 2 ^ 32 := by
    simp only [twins, Action.run, rooted_heap]
    decide +kernel
  have hnull : twins.heap.prototypeOf ⟨1, 0⟩ = .null := by
    simp only [twins, Action.run, rooted_heap]
    rfl
  obtain ⟨ids, hids, -, -, -, hmeets, -⟩ := prototype_chains_end twins_grounded hsize twins_live.2
  have hnone : ids = [] := Lineage.unique (hnull ▸ hids.2) (lineage_null twins.heap)
  rw [hnone] at hids hmeets
  refine ⟨twins_live.2, hids, fun target => ?_⟩
  rw [hmeets, decide_eq_false List.not_mem_nil]

end Ledgers

end Heap

end ScriptMachine
