import ScriptMachine.Heap.Property
import ScriptMachine.Proofs.Heap.Retention

/-! # What lookups find

A walk along prototypes ends some links up, where a cell has the name or where there is no cell any more
(`Heap.Ends`), or it goes on for ever. If it ends, then it does so in fewer links than there are slots, since it
does not come to a cell twice on the way there (`Ends.le_size`). So the fuel of a lookup is enough: a lookup
answers with what is found where the walk ends (`lookupProperty?_eq_some`), and gives no answer exactly if the
walk never ends (`lookupProperty?_eq_none`).

A lookup depends on the cells that it comes to only, and not on the size of the heap: heaps that are alike on
the way give the same (`Alike.lookup`). -/

namespace ScriptMachine

/-- The value that a lookup found. -/
def PropertyLookup.found? : PropertyLookup → Option Value
  | .missing => none
  | found => some found.value

theorem PropertyLookup.value_eq (r : PropertyLookup) : r.value = r.found?.getD .undefined := by cases r <;> rfl

theorem PropertyLookup.isFound_eq (r : PropertyLookup) : r.isFound = r.found?.isSome := by cases r <;> rfl

namespace Heap

/-! ### Where walks end -/

/-- The value of a name in a cell itself: an element, a length or a property. -/
def here? (h : Heap) (c : Cell) (name : Atom) : Option Value :=
  (h.synthesized? c name).or ((h.shapes.lookup? c.shape name).map fun p => c.slot p.offset)

/-- The prototype of a cell. -/
def above (h : Heap) (c : Cell) : Value := (h.shapes.get c.shape).prototype

/-- The cell that a value refers to. -/
def behind? (h : Heap) (v : Value) : Option Cell := v.cell?.bind h.cell?

/-- **A walk from a value ends** so many links up, with the value of the name or without. -/
inductive Ends (h : Heap) (name : Atom) : Nat → Value → Option Value → Prop
  /-- There is no cell. -/
  | off {start : Value} : h.behind? start = none → Ends h name 0 start none
  /-- The cell has the name. -/
  | here {start v : Value} {c : Cell} : h.behind? start = some c → h.here? c name = some v →
      Ends h name 0 start (some v)
  /-- The cell does not have the name, and the walk goes on with its prototype. -/
  | above {n : Nat} {start : Value} {c : Cell} {found : Option Value} : h.behind? start = some c →
      h.here? c name = none → Ends h name n (h.above c) found → Ends h name (n + 1) start found

variable {h h' : Heap} {name : Atom} {n n' fuel depth : Nat} {id : Handle} {c : Cell} {start v : Value}
  {found found' : Option Value}

theorem behind?_cell (h : Heap) (id : Handle) : h.behind? (.cell id) = h.cell? id := by
  rw [behind?, Value.cell?_cell, Option.bind_some]

/-- Without a cell a walk ends where it starts. -/
theorem ends_of_off (hnone : h.behind? start = none) : h.Ends name n start found ↔ n = 0 ∧ found = none := by
  constructor
  · intro he
    cases he with
    | off => exact ⟨rfl, rfl⟩
    | here hcell | above hcell => cases hnone.symm.trans hcell
  · rintro ⟨rfl, rfl⟩
    exact .off hnone

/-- In a cell that has the name as well. -/
theorem ends_of_here (hcell : h.behind? start = some c) (hhere : h.here? c name = some v) :
    h.Ends name n start found ↔ n = 0 ∧ found = some v := by
  constructor
  · intro he
    cases he with
    | off hnone => cases hnone.symm.trans hcell
    | here hcell' hhere' =>
      obtain rfl := Option.some.inj (hcell.symm.trans hcell')
      exact ⟨rfl, hhere'.symm.trans hhere⟩
    | above hcell' hnone =>
      obtain rfl := Option.some.inj (hcell.symm.trans hcell')
      cases hhere.symm.trans hnone
  · rintro ⟨rfl, rfl⟩
    exact .here hcell hhere

/-- From a cell that does not have the name it ends where the walk from the prototype does. -/
theorem ends_of_above (hcell : h.behind? start = some c) (hnone : h.here? c name = none) :
    h.Ends name n start found ↔ ∃ k, n = k + 1 ∧ h.Ends name k (h.above c) found := by
  constructor
  · intro he
    cases he with
    | off hoff => cases hoff.symm.trans hcell
    | here hcell' hhere =>
      obtain rfl := Option.some.inj (hcell.symm.trans hcell')
      cases hnone.symm.trans hhere
    | @above k _ _ _ hcell' _ hrest =>
      obtain rfl := Option.some.inj (hcell.symm.trans hcell')
      exact ⟨k, rfl, hrest⟩
  · rintro ⟨k, rfl, hrest⟩
    exact .above hcell hnone hrest

/-- **A walk ends in one place.** -/
theorem Ends.unique (he : h.Ends name n start found) (he' : h.Ends name n' start found') :
    n = n' ∧ found = found' := by
  induction he generalizing n' with
  | off hnone =>
    obtain ⟨rfl, rfl⟩ := (ends_of_off hnone).mp he'
    exact ⟨rfl, rfl⟩
  | here hcell hhere =>
    obtain ⟨rfl, rfl⟩ := (ends_of_here hcell hhere).mp he'
    exact ⟨rfl, rfl⟩
  | above hcell hnone _ ih =>
    obtain ⟨k, rfl, hrest⟩ := (ends_of_above hcell hnone).mp he'
    obtain ⟨rfl, hsame⟩ := ih hrest
    exact ⟨rfl, hsame⟩

/-- The way to where a walk ends goes through different cells: from each of them it is another number of
links. -/
theorem Ends.way (he : h.Ends name n start found) : ∃ ids : List Handle, ids.length = n ∧ ids.Nodup ∧
    ∀ id ∈ ids, h.isLive id = true ∧ ∃ k ≤ n, h.Ends name k (.cell id) found := by
  induction he with
  | off | here => exact ⟨[], rfl, List.nodup_nil, fun _ hother => absurd hother List.not_mem_nil⟩
  | @above n start c found hcell hnone hrest ih =>
    obtain ⟨id, hid, hlive⟩ := Option.bind_eq_some_iff.mp hcell
    have hends : h.Ends name (n + 1) (.cell id) found := .above ((h.behind?_cell id).trans hlive) hnone hrest
    obtain ⟨ids, hlength, hnodup, hids⟩ := ih
    refine ⟨id :: ids, congrArg Nat.succ hlength, List.nodup_cons.mpr ⟨fun hmem => ?_, hnodup⟩, fun other hother => ?_⟩
    · obtain ⟨-, k, hk, hends'⟩ := hids id hmem
      obtain ⟨rfl, -⟩ := hends.unique hends'
      exact Nat.not_succ_le_self n hk
    · rcases List.mem_cons.mp hother with rfl | hother
      · exact ⟨isLive_of_cell? hlive, n + 1, Nat.le_refl _, hends⟩
      · obtain ⟨hother, k, hk, hends'⟩ := hids other hother
        exact ⟨hother, k, Nat.le_succ_of_le hk, hends'⟩

/-- **A walk that ends** does so in no more links than there are slots. -/
theorem Ends.le_size (he : h.Ends name n start found) : n ≤ h.slots.size := by
  obtain ⟨ids, hlength, hnodup, hids⟩ := he.way
  rw [← hlength]
  exact length_le_size hnodup fun id hid => (hids id hid).1

/-! ### Lookups -/

theorem lookupChain_of_off (hnone : h.behind? start = none) :
    h.lookupChain name fuel depth start = some .missing := by
  rw [behind?] at hnone
  cases hid : start.cell? with
  | none => cases fuel <;> simp only [lookupChain, hid]
  | some id =>
    rw [hid, Option.bind_some] at hnone
    cases fuel <;> simp only [lookupChain, hid, hnone]

theorem lookupChain_of_here (hcell : h.behind? start = some c) (hhere : h.here? c name = some v) :
    (h.lookupChain name fuel depth start).map (·.found?) = some (some v) := by
  obtain ⟨id, hid, hcell⟩ := Option.bind_eq_some_iff.mp hcell
  unfold here? at hhere
  cases hs : h.synthesized? c name with
  | some w =>
    rw [hs, Option.some_or] at hhere
    cases fuel <;> simp only [lookupChain, hid, hcell, hs] <;> exact congrArg some hhere
  | none =>
    rw [hs, Option.none_or] at hhere
    obtain ⟨p, hp, hv⟩ := Option.map_eq_some_iff.mp hhere
    cases fuel <;> simp only [lookupChain, hid, hcell, hs, hp] <;> exact congrArg (fun w => some (some w)) hv

theorem lookupChain_stops (hcell : h.behind? start = some c) (hnone : h.here? c name = none) :
    h.lookupChain name 0 depth start = none := by
  obtain ⟨id, hid, hcell⟩ := Option.bind_eq_some_iff.mp hcell
  obtain ⟨hs, hp⟩ := Option.or_eq_none_iff.mp hnone
  rw [Option.map_eq_none_iff] at hp
  simp only [lookupChain, hid, hcell, hs, hp]

theorem lookupChain_of_above (hcell : h.behind? start = some c) (hnone : h.here? c name = none) :
    h.lookupChain name (fuel + 1) depth start = h.lookupChain name fuel (depth + 1) (h.above c) := by
  obtain ⟨id, hid, hcell⟩ := Option.bind_eq_some_iff.mp hcell
  obtain ⟨hs, hp⟩ := Option.or_eq_none_iff.mp hnone
  rw [Option.map_eq_none_iff] at hp
  rw [lookupChain]
  simp only [hid, hcell, hs, hp]
  rfl

/-- **A walk along the prototypes** comes to where it ends, if that is no more links away than there is fuel. -/
theorem lookupChain_eq_some : (h.lookupChain name fuel depth start).map (·.found?) = some found ↔
    ∃ n ≤ fuel, h.Ends name n start found := by
  induction fuel generalizing depth start with
  | zero =>
    simp only [Nat.le_zero, exists_eq_left]
    cases hcell : h.behind? start with
    | none =>
      rw [lookupChain_of_off hcell, ends_of_off hcell]
      exact ⟨fun heq => ⟨rfl, (Option.some.inj heq).symm⟩, fun ⟨_, heq⟩ => heq ▸ rfl⟩
    | some c =>
      cases hhere : h.here? c name with
      | some v =>
        rw [lookupChain_of_here hcell hhere, ends_of_here hcell hhere]
        exact ⟨fun heq => ⟨rfl, (Option.some.inj heq).symm⟩, fun ⟨_, heq⟩ => heq ▸ rfl⟩
      | none =>
        rw [lookupChain_stops hcell hhere, ends_of_above hcell hhere]
        exact ⟨fun heq => (by cases heq), fun ⟨_, heq, _⟩ => (by cases heq)⟩
  | succ fuel ih =>
    cases hcell : h.behind? start with
    | none =>
      simp only [lookupChain_of_off hcell, ends_of_off hcell]
      exact ⟨fun heq => ⟨0, Nat.zero_le _, rfl, (Option.some.inj heq).symm⟩, fun ⟨_, _, _, heq⟩ => heq ▸ rfl⟩
    | some c =>
      cases hhere : h.here? c name with
      | some v =>
        simp only [lookupChain_of_here hcell hhere, ends_of_here hcell hhere]
        exact ⟨fun heq => ⟨0, Nat.zero_le _, rfl, (Option.some.inj heq).symm⟩, fun ⟨_, _, _, heq⟩ => heq ▸ rfl⟩
      | none =>
        rw [lookupChain_of_above hcell hhere, ih]
        simp only [ends_of_above hcell hhere]
        exact ⟨fun ⟨k, hk, he⟩ => ⟨k + 1, Nat.succ_le_succ hk, k, rfl, he⟩,
          fun ⟨_, hk, k, hn, he⟩ => ⟨k, Nat.le_of_succ_le_succ (hn ▸ hk :), he⟩⟩

/-- A lookup in a cell is a walk that starts there. -/
theorem lookupProperty?_eq (h : Heap) (id : Handle) (name : Atom) : (h.lookupProperty? id name).map (·.found?) =
    (h.lookupChain name (h.slots.size + 1) 0 (.cell id)).map (·.found?) := by
  unfold lookupProperty?
  cases hcell : h.cell? id with
  | none => rw [lookupChain_of_off ((h.behind?_cell id).trans hcell)]
  | some c =>
    have hbehind := (h.behind?_cell id).trans hcell
    cases hs : h.synthesized? c name with
    | some v =>
      have hhere : h.here? c name = some v := by rw [here?, hs, Option.some_or]
      rw [lookupChain_of_here hbehind hhere]
      simp only [hs, Option.map_some]
      rfl
    | none =>
      simp only [hs]
      cases hp : h.shapes.lookup? c.shape name with
      | some p =>
        have hhere : h.here? c name = some (c.slot p.offset) := by rw [here?, hs, Option.none_or, hp, Option.map_some]
        rw [lookupChain_of_here hbehind hhere]
        rfl
      | none =>
        have hnone : h.here? c name = none := by rw [here?, hs, Option.none_or, hp, Option.map_none]
        rw [lookupChain_of_above hbehind hnone]
        rfl

/-- **A lookup gives what is found** where the walk from the cell ends. -/
theorem lookupProperty?_eq_some : (h.lookupProperty? id name).map (·.found?) = some found ↔
    ∃ n, h.Ends name n (.cell id) found := by
  rw [lookupProperty?_eq, lookupChain_eq_some]
  exact ⟨fun ⟨n, _, he⟩ => ⟨n, he⟩, fun ⟨n, he⟩ => ⟨n, Nat.le_succ_of_le he.le_size, he⟩⟩

/-- **A lookup gives no answer** exactly if the walk never ends. -/
theorem lookupProperty?_eq_none : h.lookupProperty? id name = none ↔
    ∀ n found, ¬h.Ends name n (.cell id) found := by
  rw [← Option.map_eq_none_iff (f := (·.found?)), Option.eq_none_iff_forall_ne_some]
  simp only [ne_eq, lookupProperty?_eq_some, not_exists]
  exact ⟨fun hnever n found => hnever found n, fun hnever found n => hnever n found⟩

/-! ### Heaps that are alike -/

/-- A cell without names of its own and without a prototype. -/
structure Bare (h : Heap) (c : Cell) : Prop where
  here : ∀ name, h.here? c name = none
  above : (h.above c).cell? = none

theorem Bare.congr (hc : h.Bare c) (hshapes : h'.shapes = h.shapes) (hatoms : h'.atoms = h.atoms) : h'.Bare c where
  here name := by
    unfold here? synthesized?
    rw [hshapes, hatoms]
    exact hc.here name
  above := by
    unfold Heap.above
    rw [hshapes]
    exact hc.above

/-- Every walk from the handle ends without having found anything. -/
def Barren (h : Heap) (id : Handle) : Prop := ∀ name, ∃ n, h.Ends name n (.cell id) none

theorem barren_of_none (hnone : h.cell? id = none) : h.Barren id := fun _ =>
  ⟨0, .off ((h.behind?_cell id).trans hnone)⟩

theorem Bare.barren (hc : h.Bare c) (hcell : h.cell? id = some c) : h.Barren id := fun name => by
  have hoff : h.behind? (h.above c) = none := by rw [behind?, hc.above, Option.bind_none]
  exact ⟨1, .above ((h.behind?_cell id).trans hcell) (hc.here name) (.off hoff)⟩

/-- **The heaps are alike** in some cells, and in their prototypes, which are among them unless walks end there in
both heaps without having found anything. -/
structure Alike (h h' : Heap) (G : Handle → Prop) : Prop where
  cells : ∀ id, G id → h'.cell? id = h.cell? id
  shapes : ∀ id c, G id → h.cell? id = some c → h'.shapes.get c.shape = h.shapes.get c.shape
  atoms : h'.atoms = h.atoms
  closed : ∀ id c next, G id → h.cell? id = some c → (h.above c).cell? = some next →
    G next ∨ h.Barren next ∧ h'.Barren next

variable {G : Handle → Prop}

theorem Alike.symm (ha : h.Alike h' G) : h'.Alike h G where
  cells id hid := (ha.cells id hid).symm
  shapes id c hid hcell := by
    rw [ha.cells id hid] at hcell
    exact (ha.shapes id c hid hcell).symm
  atoms := ha.atoms.symm
  closed id c next hid hcell habove := by
    rw [ha.cells id hid] at hcell
    unfold above at habove
    rw [ha.shapes id c hid hcell] at habove
    exact (ha.closed id c next hid hcell habove).imp_right And.symm

theorem Alike.here? (ha : h.Alike h' G) (hid : G id) (hcell : h.cell? id = some c) :
    h'.here? c name = h.here? c name := by
  unfold Heap.here? synthesized? ShapeTable.lookup?
  rw [ha.atoms, ha.shapes id c hid hcell]

/-- **Walks end alike**, if not in the same place. -/
theorem Alike.ends (ha : h.Alike h' G) (he : h.Ends name n start found)
    (hstart : ∀ id, start.cell? = some id → G id) : ∃ n', h'.Ends name n' start found := by
  induction he with
  | @off start hnone =>
    refine ⟨0, .off ?_⟩
    cases hid : start.cell? with
    | none => rw [behind?, hid, Option.bind_none]
    | some id =>
      rw [behind?, hid, Option.bind_some] at hnone ⊢
      exact (ha.cells id (hstart id hid)).trans hnone
  | here hcell hhere =>
    obtain ⟨id, hid, hcell⟩ := Option.bind_eq_some_iff.mp hcell
    have hin := hstart id hid
    refine ⟨0, .here ?_ ((ha.here? hin hcell).trans hhere)⟩
    rw [behind?, hid, Option.bind_some, ha.cells id hin, hcell]
  | @above n start c found hcell hnone hrest ih =>
    obtain ⟨id, hid, hcell⟩ := Option.bind_eq_some_iff.mp hcell
    have hin := hstart id hid
    have habove : h'.above c = h.above c := congrArg Shape.prototype (ha.shapes id c hin hcell)
    have hgoes : ∃ n', h'.Ends name n' (h.above c) found := by
      by_cases hall : ∀ next, (h.above c).cell? = some next → G next
      · exact ih hall
      · simp only [not_forall] at hall
        obtain ⟨next, hnext, hout⟩ := hall
        obtain ⟨hbarren, hbarren'⟩ := (ha.closed id c next hin hcell hnext).resolve_left hout
        rw [Value.cell?_eq_some.mp hnext] at hrest ⊢
        obtain ⟨k, hends⟩ := hbarren name
        rw [(hrest.unique hends).2]
        exact hbarren' name
    obtain ⟨n', hends⟩ := hgoes
    refine ⟨n' + 1, .above ?_ ((ha.here? hin hcell).trans hnone) (habove ▸ hends)⟩
    rw [behind?, hid, Option.bind_some, ha.cells id hin, hcell]

/-- **Heaps that are alike give the same lookups**, or in both of them the lookup never ends. -/
theorem Alike.lookup (ha : h.Alike h' G) (hid : G id) (name : Atom) :
    (h'.lookupProperty? id name).map (·.found?) = (h.lookupProperty? id name).map (·.found?) := by
  have hstart (other : Handle) (heq : (Value.cell id).cell? = some other) : G other := by
    obtain rfl := Option.some.inj ((Value.cell?_cell id).symm.trans heq)
    exact hid
  refine Option.ext fun found => ?_
  rw [lookupProperty?_eq_some, lookupProperty?_eq_some]
  exact ⟨fun ⟨_, he⟩ => ha.symm.ends he hstart, fun ⟨_, he⟩ => ha.ends he hstart⟩

theorem getProperty?_eq (h : Heap) (id : Handle) (name : Atom) : h.getProperty? id name =
    ((h.lookupProperty? id name).map (·.found?)).map (·.getD .undefined) := by
  rw [getProperty?, Option.map_map]
  exact congrArg (Option.map · _) (funext PropertyLookup.value_eq)

theorem hasProperty?_eq (h : Heap) (id : Handle) (name : Atom) : h.hasProperty? id name =
    ((h.lookupProperty? id name).map (·.found?)).map (·.isSome) := by
  rw [hasProperty?, Option.map_map]
  exact congrArg (Option.map · _) (funext PropertyLookup.isFound_eq)

theorem Alike.getProperty? (ha : h.Alike h' G) (hid : G id) (name : Atom) :
    h'.getProperty? id name = h.getProperty? id name := by
  rw [getProperty?_eq, getProperty?_eq, ha.lookup hid]

theorem Alike.hasProperty? (ha : h.Alike h' G) (hid : G id) (name : Atom) :
    h'.hasProperty? id name = h.hasProperty? id name := by
  rw [hasProperty?_eq, hasProperty?_eq, ha.lookup hid]

end Heap

end ScriptMachine
