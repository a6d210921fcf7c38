import ScriptMachine.Proofs.Heap.Collection

/-! # Persistent roots

A persistent root is registered under an id and removed again, after which the id may be handed out
anew. `Heap.Holds` is about heaps together with the roots registered in them. As long as a value is
only set for a root that is registered, no id is handed out twice (`addRoot_fresh`), and a collection
keeps the cell of every root (`isLive_collect_of_root`). A root may be removed more than once. -/

namespace ScriptMachine

namespace Heap

/-- **Heaps and the roots registered in them**, each with the value it was given last. What leaves the
list of roots alone may be done in between. -/
inductive Holds : Heap → List (RootId × Value) → Prop
  /-- A new heap. -/
  | new (limits : HeapLimits) : Holds (.new limits) []
  /-- A root is registered. -/
  | add {h : Heap} {held : List (RootId × Value)} (value : Value) :
      Holds h held → Holds (h.addRoot value).2 (((h.addRoot value).1, value) :: held)
  /-- A registered root gets another value. -/
  | set {h : Heap} {held : List (RootId × Value)} {root : RootId} (old value : Value) :
      Holds h held → (root, old) ∈ held →
      Holds (h.setRoot root value) (held.map fun p => if p.1 = root then (root, value) else p)
  /-- A root is removed, be it registered or not. -/
  | remove {h : Heap} {held : List (RootId × Value)} (root : RootId) :
      Holds h held → Holds (h.removeRoot root) (held.filter fun p => p.1 ≠ root)
  /-- Something else is done. -/
  | other {h h' : Heap} {held : List (RootId × Value)} : Holds h held → h'.roots = h.roots →
      h'.freeRoots = h.freeRoots → Holds h' held

/-- **A list of roots in order.** -/
structure Rooted (h : Heap) (held : List (RootId × Value)) : Prop where
  /-- Registered roots are listed with their values, and no others. -/
  listed : ∀ root value, (root, value) ∈ held ↔ h.roots[root.index]? = some (some value)
  /-- Free ids are those of removed roots. -/
  free : ∀ i ∈ h.freeRoots, h.roots[i]? = some none
  /-- No id is free twice. -/
  nodup : h.freeRoots.Nodup

variable {h : Heap} {held : List (RootId × Value)} {root : RootId} {value : Value} {id : Handle}

theorem rootId_ext {a b : RootId} (h : a.index = b.index) : a = b := by
  cases a
  cases b
  exact congrArg RootId.mk h

/-! ### Steps -/

/-- A root that is not listed at an id. -/
theorem Rooted.not_mem (hr : h.Rooted held) {i : Nat} (hi : ∀ value, h.roots[i]? ≠ some (some value)) :
    (⟨i⟩, value) ∉ held := fun hm => hi value ((hr.listed ⟨i⟩ value).mp hm)

/-- **The id of a new root** is not that of a registered one. -/
theorem Rooted.add_fresh (hr : h.Rooted held) (value old : Value) :
    ((h.addRoot value).1, old) ∉ held := by
  unfold addRoot
  cases hf : h.freeRoots with
  | nil => exact hr.not_mem fun value => by simp
  | cons i rest =>
    have hi := hr.free i (by rw [hf]; exact List.mem_cons_self)
    exact hr.not_mem fun value => by simp [hi]

theorem Rooted.add (hr : h.Rooted held) (value : Value) :
    (h.addRoot value).2.Rooted (((h.addRoot value).1, value) :: held) := by
  unfold addRoot
  cases hf : h.freeRoots with
  | nil =>
    refine ⟨fun root v => ?_, fun i hi => by simp at hi, by simp⟩
    rw [List.mem_cons, hr.listed, Prod.mk.injEq, Array.getElem?_push]
    by_cases hi : root.index = h.roots.size
    · have : root = ⟨h.roots.size⟩ := rootId_ext hi
      simp [this, eq_comm]
    · have : root ≠ ⟨h.roots.size⟩ := fun heq => hi (by rw [heq])
      simp [hi, this]
  | cons i rest =>
    have hi := hr.free i (by rw [hf]; exact List.mem_cons_self)
    have hlt := (Array.getElem?_eq_some_iff.mp hi).1
    have hn := hr.nodup
    rw [hf, List.nodup_cons] at hn
    refine ⟨fun root v => ?_, fun j hj => ?_, hn.2⟩
    · rw [List.mem_cons, hr.listed, Prod.mk.injEq]
      by_cases hsame : root.index = i
      · have : root = ⟨i⟩ := rootId_ext hsame
        rw [this, Array.getElem?_setIfInBounds_self_of_lt hlt, hi]
        simp [eq_comm]
      · have : root ≠ ⟨i⟩ := fun heq => hsame (by rw [heq])
        simp [this, Ne.symm hsame]
    · have hne : i ≠ j := fun heq => hn.1 (heq ▸ hj)
      have := hr.free j (by rw [hf]; exact List.mem_cons_of_mem _ hj)
      simpa [hne] using this

theorem Rooted.set (hr : h.Rooted held) {old : Value} (hm : (root, old) ∈ held) (value : Value) :
    (h.setRoot root value).Rooted (held.map fun p => if p.1 = root then (root, value) else p) := by
  have hold := (hr.listed root old).mp hm
  have hlt := (Array.getElem?_eq_some_iff.mp hold).1
  refine ⟨fun root' v => ?_, fun i hi => ?_, hr.nodup⟩
  · simp only [setRoot, List.mem_map]
    by_cases hsame : root' = root
    · subst hsame
      simp only [Array.getElem?_setIfInBounds_self_of_lt hlt, Option.some.injEq]
      refine ⟨?_, fun heq => ⟨(root', old), hm, by simp [heq]⟩⟩
      rintro ⟨⟨other, v'⟩, -, heq⟩
      by_cases ho : other = root'
      · simpa [ho] using heq
      · simp [ho] at heq
    · have hne : root.index ≠ root'.index := fun heq => hsame (rootId_ext heq.symm)
      rw [Array.getElem?_setIfInBounds_ne hne, ← hr.listed]
      constructor
      · rintro ⟨⟨other, v'⟩, hmem, heq⟩
        by_cases ho : other = root
        · simp only [ho, if_true, Prod.mk.injEq] at heq
          exact absurd heq.1.symm hsame
        · simp only [ho, if_false] at heq
          exact heq ▸ hmem
      · exact fun hmem => ⟨_, hmem, by simp [hsame]⟩
  · have hi := hr.free i hi
    have hne : root.index ≠ i := by
      rintro rfl
      rw [hold] at hi
      cases hi
    simpa [setRoot, hne] using hi

/-- **Removing a root**, be it registered or not. -/
theorem Rooted.remove (hr : h.Rooted held) (root : RootId) :
    (h.removeRoot root).Rooted (held.filter fun p => p.1 ≠ root) := by
  unfold removeRoot
  split
  case h_1 old hold =>
    have hlt := (Array.getElem?_eq_some_iff.mp hold).1
    refine ⟨fun root' v => ?_, fun i hi => ?_, List.nodup_cons.mpr ⟨fun hmem => ?_, hr.nodup⟩⟩
    · rw [List.mem_filter, hr.listed]
      by_cases hsame : root' = root
      · simp [hsame, hlt]
      · have hne : root.index ≠ root'.index := fun heq => hsame (rootId_ext heq.symm)
        simp [hsame, hne]
    · rcases List.mem_cons.mp hi with rfl | hi
      · simp [hlt]
      · have hi := hr.free i hi
        have hne : root.index ≠ i := by
          rintro rfl
          rw [hold] at hi
          cases hi
        simpa [hne] using hi
    · rw [hr.free _ hmem] at hold
      cases hold
  case h_2 hnone =>
    refine ⟨fun root' v => ?_, hr.free, hr.nodup⟩
    rw [List.mem_filter, hr.listed]
    refine ⟨And.left, fun h => ⟨h, ?_⟩⟩
    have : root' ≠ root := by
      rintro rfl
      exact hnone v h
    simpa using this

/-! ### Runs -/

/-- **Registered roots are listed**, whatever else was done. -/
theorem Holds.rooted (hh : h.Holds held) : h.Rooted held := by
  induction hh with
  | new limits =>
    exact ⟨fun root value => by simp [Heap.new], fun i hi => (by cases hi), List.nodup_nil⟩
  | add value _ ih => exact ih.add value
  | set old value _ hm ih => exact ih.set hm value
  | remove root _ ih => exact ih.remove root
  | other _ hroots hfree ih =>
    exact ⟨by rw [hroots]; exact ih.listed, by rw [hroots, hfree]; exact ih.free,
      by rw [hfree]; exact ih.nodup⟩

/-- **A new root gets an id of its own.** -/
theorem addRoot_fresh (hh : h.Holds held) (value : Value) :
    ∀ p ∈ held, p.1 ≠ (h.addRoot value).1 := by
  rintro ⟨root, old⟩ hp rfl
  exact hh.rooted.add_fresh value old hp

/-- **A collection keeps the cell of a root.** -/
theorem isLive_collect_of_root (hh : h.Holds held) (hw : h.AllWhite)
    (hm : (root, .cell id) ∈ held) (hl : h.isLive id = true) (values : List Value)
    (words : List UInt64) : (h.collect values words).2.isLive id = true := by
  obtain ⟨c, hcell⟩ := isLive_iff.mp hl
  have hroot : .cell id ∈ h.allRoots values words := by
    rw [mem_allRoots]
    exact .inr (.inr (.inl (Array.mem_of_getElem? ((hh.rooted.listed root _).mp hm))))
  exact isLive_of_cell? ((cell?_collect hw values words).mpr
    ⟨hcell, .root hroot hl⟩)

/-- A removed root that is set is registered again, but its id stays free: it can then be removed once
more, and two new roots get it. -/
example : let h := (((((Heap.new {}).addRoot .null).2.removeRoot ⟨0⟩).setRoot ⟨0⟩ .null).removeRoot ⟨0⟩)
    (h.addRoot .undefined).1 = ⟨0⟩ ∧ ((h.addRoot .undefined).2.addRoot .undefined).1 = ⟨0⟩ := by
  decide

end Heap

end ScriptMachine
