import ScriptMachine.Proofs.Heap.Location
import ScriptMachine.Proofs.Heap.Naming

/-! # The order of enumeration

A cell enumerates the indices of its elements, in increasing order, and then those of its names that are
enumerable. Its names are in the order in which they were last added: in the course of what is done with a heap
(`Ledger.Trail`), each name has an age (`age`), the number of heaps in a row, up to the last one, in which the
cell has the name, and names come before younger ones (`Trail.ages`). Only a name that is deleted and
added again is younger than before.

The main statement is `ownKeys_in_order`. -/

namespace ScriptMachine

/-! ### Elements -/

namespace Cell

variable {c : Cell}

theorem mem_present {i : Nat} : i ∈ c.present ↔ c.Filled i := by
  refine ⟨fun hi => ((Heap.present_spec c).2 i hi).elim fun _ h => h.2.2, fun ⟨e, v, hp, hitem, hh⟩ => ?_⟩
  have he : c.elements? = some e := by rw [elements?, hp]
  simp only [present, he, List.mem_filterMap]
  refine ⟨(v, i), List.mem_zipIdx_iff_getElem?.mpr (by simpa using hitem), ?_⟩
  rw [hh]
  rfl

theorem present_increasing (c : Cell) : c.present.Pairwise (· < ·) := by
  unfold present
  cases c.elements? with
  | none => exact .nil
  | some e =>
    rw [List.pairwise_filterMap]
    have hindices : (e.items.toList.zipIdx.map Prod.snd).Pairwise (· < ·) := by
      rw [List.zipIdx_map_snd]
      exact List.pairwise_lt_range'
    refine (List.pairwise_map.mp hindices).imp fun hlt i hi j hj => ?_
    simp only [Option.ite_none_left_eq_some, Option.some.injEq] at hi hj
    rw [← hi.2, ← hj.2]
    exact hlt

end Cell

namespace Heap

variable {h : Heap} {s : Ledger} {a : Action} {id : Handle} {c : Cell} {name : Atom} {past : List Heap}
  {may : Ledger → Action → Prop}

/-! ### Named properties -/

/-- The cell has an enumerable property of the name. -/
def enumerates (h : Heap) (id : Handle) (name : Atom) : Bool :=
  match h.cell? id with
  | some c => (h.shapes.lookup? c.shape name).any fun p => !p.attributes.dontEnum
  | none => false

/-- **What a cell enumerates**: the names of the indices of its elements, and its enumerable names in their
order. -/
theorem ownKeys_names (hx : h.shapes.Ordered) (hcell : h.cell? id = some c) : h.ownKeys id =
    ((h.internIndices c.present).1 ++ (h.names id).filter (h.enumerates id), (h.internIndices c.present).2) := by
  rw [ownKeys_eq hcell, names_of_cell hcell, List.filter_map, ← List.filterMap_eq_map, List.filterMap_filter]
  refine congrArg (fun l => ((h.internIndices c.present).1 ++ l, _)) (List.filterMap_congr fun p hp => ?_)
  have hl : h.shapes.lookup? c.shape p.name = some p :=
    (hx.indexed c.shape).lookup?_eq_some.mpr ⟨Array.mem_toList_iff.mp hp, rfl⟩
  simp only [Function.comp, enumerates, hcell, hl, Option.any_some]
  cases p.attributes.dontEnum <;> rfl

/-! ### Ages -/

/-- **What was done with a heap**: the ledger that actions lead to, and the heaps before, the latest first. -/
inductive Ledger.Trail (may : Ledger → Action → Prop) : List Heap → Ledger → Prop
  /-- A new heap. -/
  | new (limits : HeapLimits) : Trail may [] { heap := .new limits }
  /-- One more action. -/
  | step {past : List Heap} {s : Ledger} {a : Action} :
      Trail may past s → may s a → Trail may (s.heap :: past) (a.run s)

theorem Ledger.Trail.reached (ht : s.Trail may past) : s.Reached may := by
  induction ht with
  | new limits => exact .new limits
  | step _ ha ih => exact .step ih ha

/-- **The age of a name**: in so many heaps in a row, from the first of the list on, the cell has it. -/
def age (heaps : List Heap) (id : Handle) (name : Atom) : Nat :=
  (heaps.takeWhile fun h => name ∈ h.names id).length

theorem age_of_mem {heaps : List Heap} (hn : name ∈ h.names id) :
    age (h :: heaps) id name = age heaps id name + 1 := by
  simp only [age, List.takeWhile_cons, decide_eq_true hn, if_true, List.length_cons]

theorem age_of_not_mem {heaps : List Heap} (hn : name ∉ h.names id) : age (h :: heaps) id name = 0 := by
  simp only [age, List.takeWhile_cons, decide_eq_false hn, Bool.false_eq_true, if_false, List.length_nil]

/-- **One step keeps names before younger ones**: those that stay get older by one, and a new one comes
last. -/
theorem Amends.ages {drops : Atom → Prop} {names names' : List Atom} (ha : Amends drops names names') {old new : Atom → Nat}
    (hn : names.Pairwise fun a b => old b < old a) (hpos : ∀ n ∈ names, 0 < old n)
    (hstay : ∀ n ∈ names', n ∈ names → new n = old n + 1) (hcome : ∀ n ∈ names', n ∉ names → new n = 1) :
    names'.Pairwise fun a b => new b < new a := by
  -- names that stay keep their order
  have hkeep {l : List Atom} (hl : l.Sublist names) (hin : ∀ n ∈ l, n ∈ names') :
      l.Pairwise fun a b => new b < new a := by
    refine (hn.sublist hl).imp_of_mem fun {a b} ha hb hlt => ?_
    rw [hstay a (hin a ha) (hl.subset ha), hstay b (hin b hb) (hl.subset hb)]
    exact Nat.succ_lt_succ hlt
  cases ha with
  | same => exact hkeep (.refl names) fun _ h => h
  | @added name hnew =>
    refine List.pairwise_append.mpr ⟨hkeep (.refl names) fun n h => List.mem_append_left _ h,
      List.pairwise_singleton _ _, fun n hmem m hm => ?_⟩
    obtain rfl := List.mem_singleton.mp hm
    rw [hcome m (List.mem_append_right _ hm) hnew, hstay n (List.mem_append_left _ hmem) hmem]
    exact Nat.succ_lt_succ (hpos n hmem)
  | removed => exact hkeep List.filter_sublist fun _ h => h

/-- **The names of a cell are in the order of their ages**, whatever was done. -/
theorem Ledger.Trail.ages (hmay : ∀ s a, may s a → a.Allowed s) (ht : s.Trail may past) (id : Handle) :
    (s.heap.names id).Pairwise fun a b => age (s.heap :: past) id b < age (s.heap :: past) id a := by
  induction ht with
  | new limits =>
    rw [names_of_none (by simp [Heap.new, cell?])]
    exact .nil
  | @step past s a ht ha ih =>
    obtain ⟨hf, -⟩ := ht.reached.tidy hmay
    rcases Action.revises (ht.reached.sound hmay) hf (hmay s a ha) id with hrevises | ⟨-, hnames, -⟩
    · refine hrevises.names.ages ih (fun n hn => ?_) (fun n hn _ => age_of_mem hn) fun n hn hnot => ?_
      · rw [age_of_mem hn]
        exact Nat.succ_pos _
      · rw [age_of_mem hn, age_of_not_mem hnot]
    · rw [hnames]
      exact .nil

/-! ### The result -/

/-- **Keys are complete, without duplicates and in order.** Whatever was done with care, a cell enumerates first
the names of the indices of its filled elements, in increasing order, and then its enumerable named properties.
Its names are in the order in which they were last added: each has been there for longer than the ones after it;
and whatever is done next to a cell, each stays in its place, but for one that is deleted, or moves among the
elements, or comes last. No key is listed twice. All this holds as long as numbers of 32 bits tell names and
elements apart. -/
theorem ownKeys_in_order (ht : s.Trail Action.Careful past) (hcell : s.heap.cell? id = some c)
    (hfit : (s.heap.ownKeys id).2.atoms.Fits)
    (hlen : ∀ length, s.heap.arrayLength? id = some length → length < UInt32.size) :
    (∃ indices, (s.heap.ownKeys id).1 = indices ++ (s.heap.names id).filter (s.heap.enumerates id) ∧
      indices.map (s.heap.ownKeys id).2.atoms.arrayIndex? = c.present.map fun i => some i.toUInt32) ∧
    (c.present.Pairwise (· < ·) ∧ ∀ i, i ∈ c.present ↔ c.Filled i) ∧
    (∀ name, name ∈ s.heap.names id ↔ ∃ p, s.heap.shapes.lookup? c.shape name = some p) ∧
    (s.heap.names id).Pairwise (fun a b => age (s.heap :: past) id b < age (s.heap :: past) id a) ∧
    (∀ a : Action, a.Careful s →
      Amends (fun name => a.Drops s.heap id name) (s.heap.names id) ((a.run s).heap.names id) ∨
        a.target? = none ∧ (a.run s).heap.names id = []) ∧
    (s.heap.ownKeys id).1.Nodup := by
  obtain ⟨hs, hc⟩ := ht.reached.coherent
  obtain ⟨hf, -⟩ := ht.reached.tidy fun _ _ ha => ha.1
  refine ⟨⟨_, by rw [ownKeys_names hc.shapes hcell], ?_⟩, ⟨c.present_increasing, fun _ => Cell.mem_present⟩,
    fun name => mem_names hc.shapes hcell, ht.ages (fun _ _ ha => ha.1) id,
    fun a ha => (Action.revises hs hf ha.1 id).imp (·.names) fun h => ⟨h.1, h.2.1⟩, hc.ownKeys_nodup hs.intact id hfit hlen⟩
  rw [ownKeys_names hc.shapes hcell] at hfit ⊢
  exact (internIndices_spec hc.atoms c.present).2.2 hfit (present_small hcell hlen)

/-! ### A property that comes back -/

/-- What was done with care, the latest heap first, leads to the heap. -/
def Passed (past : List Heap) (h : Heap) : Prop := ∃ s : Ledger, Ledger.Trail Action.Careful past s ∧ s.heap = h

theorem Action.heap_run (s : Ledger) (a : Action) : (a.run s).heap = a.apply s.heap := by
  cases a with
  | setProperty id name value => simp only [Action.apply, Action.run, Ledger.heap_write]
  | setIndex id index value => simp only [Action.apply, Action.run, Ledger.heap_write]
  | _ => rfl

/-- One more action. -/
theorem Passed.act (hp : Passed past h) (a : Action) (ha : ∀ s : Ledger, s.heap = h → a.Careful s) :
    Passed (h :: past) (a.apply h) := by
  obtain ⟨s, ht, rfl⟩ := hp
  exact ⟨_, ht.step (ha s rfl), Action.heap_run s a⟩

/-- The object with one property is what a few actions lead to. -/
theorem passed_owner : ∃ past, Passed past owner := by
  have hroot : ((Action.rootShape .object .null).apply ((Action.intern "p").apply (.new {}))).shapes =
      ((Heap.new {}).rootShape .object .null).2.shapes := by
    simp only [Action.apply, Action.run, rootShape]
    rfl
  have hatoms : ((Action.allocate ⟨0⟩ .plain).apply ((Action.rootShape .object .null).apply
      ((Action.intern "p").apply (.new {})))).atoms = owner.atoms := by
    have hintern : (Action.intern "p").apply (.new {}) = { Heap.new {} with atoms := owner.atoms } := by
      simp [Action.apply, Action.run, intern, AtomTable.intern, Heap.new, arrayIndexOf?, owner]
      decide
    rw [Action.apply, Action.run, (allocate_frame _ _ _).2.1, hintern]
    rfl
  have hnew : Passed [] (.new {}) := ⟨_, .new {}, rfl⟩
  have hempty := (hnew.act (.intern "p") fun _ _ => ⟨trivial, by simp⟩).act (.rootShape .object .null)
    fun _ _ => ⟨trivial, by simp⟩
  have hplain := hempty.act (.allocate ⟨0⟩ .plain) fun s hs => ⟨by
    rw [Action.Allowed, hs, hroot, rooted_heap]
    exact ⟨rfl, rfl, rfl⟩, by simp⟩
  rw [owner_eq]
  refine ⟨_, hplain.act (.setProperty ⟨0, 0⟩ ⟨0⟩ .null) fun s hs => ⟨?_, by simp⟩⟩
  rw [Action.Allowed, hs, hatoms]
  exact Nat.zero_lt_one

/-- The object is on a dictionary, and there is a second name. -/
def detachedOwner : Heap := { detach.apply owner with
  atoms := { entries := #[⟨"p", none⟩, ⟨"q", none⟩], lookup := owner.atoms.lookup.insert "q" ⟨1⟩ } }

/-- The object has got a second property. -/
def paired : Heap := (Action.setProperty ⟨0, 0⟩ ⟨1⟩ (.boolean true)).apply detachedOwner

theorem passed_paired : ∃ past, Passed (detachedOwner :: past) paired := by
  obtain ⟨past, howner⟩ := passed_owner
  have hdetached := howner.act detach fun s hs =>
    ⟨by rw [detach, Action.Allowed, hs]; exact Nat.zero_lt_one, by simp [detach]⟩
  have hinterned := hdetached.act (.intern "q") fun _ _ => ⟨trivial, by simp⟩
  have hatoms : (owner.atoms.intern "q").2 = detachedOwner.atoms := by
    simp [AtomTable.intern, owner, detachedOwner]
    decide
  have heq : (Action.intern "q").apply (detach.apply owner) = detachedOwner :=
    congrArg (fun atoms => { detach.apply owner with atoms }) hatoms
  rw [heq] at hinterned
  exact ⟨_, hinterned.act _ fun s hs => ⟨by rw [Action.Allowed, hs]; exact Nat.one_lt_two, by simp⟩⟩

/-- The first property is deleted and added again. -/
def relisted : Heap :=
  (Action.setProperty ⟨0, 0⟩ ⟨0⟩ .null).apply ((Action.deleteProperty ⟨0, 0⟩ ⟨0⟩).apply paired)

/-- A property that is deleted and added again is listed last: the other one has been there for longer. -/
theorem ownKeys_in_order_relisted : ∃ past, Passed past relisted ∧
    (relisted.ownKeys ⟨0, 0⟩).1 = [⟨1⟩, ⟨0⟩] ∧
    age (relisted :: past) ⟨0, 0⟩ ⟨0⟩ < age (relisted :: past) ⟨0, 0⟩ ⟨1⟩ ∧ (relisted.ownKeys ⟨0, 0⟩).1.Nodup := by
  obtain ⟨past, hpaired⟩ := passed_paired
  have hdeleted := hpaired.act (.deleteProperty ⟨0, 0⟩ ⟨0⟩) fun s hs =>
    ⟨by rw [Action.Allowed, hs]; exact Nat.zero_lt_two, nofun⟩
  obtain ⟨s, ht, hs⟩ := hdeleted.act (.setProperty ⟨0, 0⟩ ⟨0⟩ .null) fun s hs =>
    ⟨by rw [Action.Allowed, hs]; exact Nat.zero_lt_two, nofun⟩
  have hcell : (relisted.cell? ⟨0, 0⟩).isSome = true := by decide +kernel
  obtain ⟨c, hcell⟩ := Option.isSome_iff_exists.mp hcell
  have hkeys : (relisted.ownKeys ⟨0, 0⟩).1 = [⟨1⟩, ⟨0⟩] := by decide +kernel
  have hnames : relisted.names ⟨0, 0⟩ = [⟨1⟩, ⟨0⟩] := by decide +kernel
  have hlength : relisted.arrayLength? ⟨0, 0⟩ = none := by decide +kernel
  have hfits : (relisted.ownKeys ⟨0, 0⟩).2.atoms.entries.size ≤ UInt32.size := by decide +kernel
  change s.heap = relisted at hs
  obtain ⟨-, -, -, hages, -, hnodup⟩ := ownKeys_in_order ht (hs ▸ hcell) (by rw [hs]; exact hfits)
    (by rw [hs, hlength]; nofun)
  rw [hs] at hages hnodup
  rw [hnames, List.pairwise_pair] at hages
  exact ⟨_, ⟨s, ht, hs⟩, hkeys, hages, hnodup⟩

end Heap

end ScriptMachine
