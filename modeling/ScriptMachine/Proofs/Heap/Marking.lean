import ScriptMachine.Proofs.Heap.Cells

/-! # Marking

The object graph of a heap (`Heap.Refers`), the cells that can be reached in it (`Heap.Reachable`),
and the worklist that marks them. `Heap.Marking` is what the worklist keeps true: the gray cells are
exactly those on the list, colored cells can be reached, and a black cell refers to no white cell but
those still to be met. Every cell is taken from the list once, so one step for each slot empties it.

The main statements are `mark_reachable`, that marking colors exactly what can be reached, and
`drain_of_le`, that more steps change nothing. -/

namespace ScriptMachine

namespace Heap

/-! ### The object graph -/

/-- **The edges of the object graph**: the cells a cell refers to. -/
inductive Refers (h : Heap) (c : Cell) : Handle → Prop
  /-- The prototype of its shape. -/
  | prototype {b} : (h.shapes.get c.shape).prototype = .cell b → Refers h c b
  /-- The value of a property. -/
  | property {b} : .cell b ∈ c.slots → Refers h c b
  /-- An element. -/
  | element {e b} : c.payload = .array e → .cell b ∈ e.items → Refers h c b
  /-- The scope a function closes over. -/
  | scope {d b} : c.payload = .function d → d.scope = some b → Refers h c b
  /-- A variable of a scope record. -/
  | binding {s room b} : c.payload = .activation s room → .cell b ∈ s.slots → Refers h c b
  /-- The enclosing scope. -/
  | parent {s room b} : c.payload = .activation s room → s.parent = some b → Refers h c b

/-- **The live cells that can be reached** from values along the edges between live cells. -/
inductive Reachable (h : Heap) (roots : List Value) : Handle → Prop
  /-- A cell among the values. -/
  | root {id} : .cell id ∈ roots → h.isLive id → Reachable h roots id
  /-- A cell that a reached cell refers to. -/
  | step {a c b} : Reachable h roots a → h.cell? a = some c → h.Refers c b → h.isLive b →
      Reachable h roots b

variable {h₀ h : Heap} {roots pending : List Value} {id other : Handle} {c : Cell}

theorem mem_references {b : Handle} : .cell b ∈ h.references c ↔ h.Refers c b := by
  constructor
  · intro hm
    simp only [references, List.cons_append, List.mem_cons, List.mem_append, Array.mem_toList_iff]
      at hm
    rcases hm with hp | hs | hr
    · exact .prototype hp.symm
    · exact .property hs
    · cases hc : c.payload with
      | plain => simp [hc, Payload.references] at hr
      | string => simp [hc, Payload.references] at hr
      | array e => exact .element hc (by simpa [hc, Payload.references] using hr)
      | function d =>
        exact .scope hc (by simpa [hc, Payload.references] using hr)
      | activation s =>
        simp only [hc, Payload.references, List.mem_append, Array.mem_toList_iff,
          Option.mem_toList, Option.map_eq_some_iff, Value.cell_inj] at hr
        rcases hr with hr | ⟨p, hp, rfl⟩
        · exact .binding hc hr
        · exact .parent hc hp
  · intro hr
    simp only [references, List.cons_append, List.mem_cons, List.mem_append, Array.mem_toList_iff]
    cases hr with
    | prototype hp => exact .inl hp.symm
    | property hs => exact .inr (.inl hs)
    | element hc hm => exact .inr (.inr (by simpa [hc, Payload.references] using hm))
    | scope hc hm => exact .inr (.inr (by simpa [hc, Payload.references] using hm))
    | binding hc hm => exact .inr (.inr (by simp [hc, Payload.references, hm]))
    | parent hc hm => exact .inr (.inr (by simp [hc, Payload.references, hm]))

theorem Reachable.isLive (hr : h.Reachable roots id) : h.isLive id := by
  cases hr with
  | root _ hl => exact hl
  | step _ _ _ hl => exact hl

/-! ### Colors -/

/-- The color of the cell a handle names. -/
def color? (h : Heap) (id : Handle) : Option MarkColor :=
  match h.slots[id.index.toNat]? with
  | some slot =>
    if slot.generation = id.generation ∧ slot.cell.isSome then some slot.color else none
  | none => none

/-- All slots are white, as they are outside a collection. -/
def AllWhite (h : Heap) : Prop := ∀ slot ∈ h.slots, slot.color = .white

theorem isWhite_iff : h.isWhite id = true ↔ h.color? id = some .white := by
  unfold isWhite color?
  cases h.slots[id.index.toNat]? with
  | none => simp
  | some slot => by_cases hg : slot.generation = id.generation <;> simp [hg]

theorem isSome_color? : (h.color? id).isSome = h.isLive id := by
  unfold color? isLive cell?
  cases h.slots[id.index.toNat]? with
  | none => rfl
  | some slot =>
    by_cases hg : slot.generation = id.generation <;> cases hc : slot.cell <;> simp [hg, hc]

theorem isLive_of_color? {k : MarkColor} (hc : h.color? id = some k) : h.isLive id = true := by
  rw [← isSome_color?, hc]
  rfl

theorem AllWhite.color?_eq {k : MarkColor} (hw : h.AllWhite) (hc : h.color? id = some k) :
    k = .white := by
  unfold color? at hc
  split at hc
  case h_1 slot hs =>
    split at hc
    case isTrue => exact (Option.some.inj hc) ▸ hw slot (Array.mem_of_getElem? hs)
    case isFalse => cases hc
  case h_2 => cases hc

theorem color?_setColor {k : MarkColor} (hl : h.isLive id) :
    (h.setColor id.index k).color? other = if other = id then some k else h.color? other := by
  obtain ⟨c, hc⟩ := isLive_iff.mp hl
  obtain ⟨slot, hs, hg, hcell⟩ := cell?_eq_some.mp hc
  obtain ⟨i, g⟩ := id
  obtain ⟨j, g'⟩ := other
  simp only [color?, setColor, Array.getElem?_modify, Handle.mk.injEq] at *
  by_cases hj : j = i
  · subst hj
    by_cases hg' : g' = g
    · simp [hs, hg, hg', hcell]
    · have : ¬slot.generation = g' := fun e => hg' (e.symm.trans hg)
      simp [hs, hg', this]
  · have : i.toNat ≠ j.toNat := fun e => hj (UInt32.toNat_inj.mp e).symm
    simp [hj, this]

/-- The number of white cells. -/
def whites (h : Heap) : Nat :=
  slotSum (fun slot => if slot.cell.isSome ∧ slot.color = .white then 1 else 0) h.slots

theorem whites_le (h : Heap) : h.whites ≤ h.slots.size :=
  slotSum_le_size fun slot => by split <;> omega

theorem whites_setColor_gray (hw : h.color? id = some .white) :
    (h.setColor id.index .gray).whites + 1 = h.whites := by
  obtain ⟨c, hc⟩ := isLive_iff.mp (isLive_of_color? hw)
  obtain ⟨slot, hs, hg, hc⟩ := cell?_eq_some.mp hc
  have hk : slot.color = .white := by simpa [color?, hs, hg, hc] using hw
  have := slotSum_modify (fun slot => if slot.cell.isSome ∧ slot.color = .white then 1 else 0)
    (fun slot => { slot with color := MarkColor.gray }) hs
  simpa [hc, hk, whites, setColor] using this

theorem whites_setColor_black (hw : h.color? id = some .gray) :
    (h.setColor id.index .black).whites = h.whites := by
  obtain ⟨c, hc⟩ := isLive_iff.mp (isLive_of_color? hw)
  obtain ⟨slot, hs, hg, hc⟩ := cell?_eq_some.mp hc
  have hk : slot.color = .gray := by simpa [color?, hs, hg, hc] using hw
  have := slotSum_modify (fun slot => if slot.cell.isSome ∧ slot.color = .white then 1 else 0)
    (fun slot => { slot with color := MarkColor.black }) hs
  simpa [hk, whites, setColor] using this

/-! ### The worklist -/

/-- **What the worklist keeps true** while the values `pending` are still to be met: only colors
change, the gray cells are those on the list, colored cells can be reached, and a value met, a root
or a reference of a black cell, is not white. -/
structure Marking (h₀ : Heap) (roots pending : List Value) (s : Heap × List Handle) : Prop where
  /-- Nothing but slots changes. -/
  frame : s.1 = { h₀ with slots := s.1.slots }
  /-- Nothing but colors changes in a slot. -/
  slots : s.1.slots.map ({ · with color := .white }) = h₀.slots
  /-- Empty slots are not colored. -/
  empty : ∀ slot ∈ s.1.slots, slot.cell = none → slot.color = .white
  /-- The gray cells are on the list. -/
  gray : ∀ id, id ∈ s.2 ↔ s.1.color? id = some .gray
  /-- Each of them once. -/
  nodup : s.2.Nodup
  /-- Colored cells can be reached. -/
  sound : ∀ id k, s.1.color? id = some k → k ≠ .white → h₀.Reachable roots id
  /-- What is still to be met can be reached. -/
  pending_sound : ∀ id, .cell id ∈ pending → h₀.isLive id → h₀.Reachable roots id
  /-- Roots are met. -/
  roots_met : ∀ id, .cell id ∈ roots → s.1.color? id = some .white → .cell id ∈ pending
  /-- The references of black cells are met. -/
  closed : ∀ a c b, s.1.color? a = some .black → h₀.cell? a = some c → h₀.Refers c b →
    s.1.color? b = some .white → .cell b ∈ pending

namespace Marking

variable {s : Heap × List Handle}

theorem start (hw : h₀.AllWhite) (roots : List Value) : Marking h₀ roots roots (h₀, []) where
  frame := rfl
  slots := by
    rw [Array.map_congr_left (g := id)]
    · simp
    · intro slot hs
      simp [← hw slot hs]
  empty slot hs _ := hw slot hs
  gray id := by
    refine ⟨fun hm => absurd hm List.not_mem_nil, fun hc => ?_⟩
    cases hw.color?_eq hc
  nodup := .nil
  sound id k hc hk := absurd (hw.color?_eq hc) hk
  pending_sound id hm hl := .root hm hl
  roots_met id hm _ := hm
  closed a c b hc _ _ _ := by cases hw.color?_eq hc

theorem cell? (hm : Marking h₀ roots pending s) : s.1.cell? = h₀.cell? := by
  funext id
  have hs := congrArg (·[id.index.toNat]?) hm.slots
  simp only [Array.getElem?_map] at hs
  unfold Heap.cell?
  rw [← hs]
  cases s.1.slots[id.index.toNat]? <;> rfl

theorem isLive (hm : Marking h₀ roots pending s) : s.1.isLive = h₀.isLive := isLive_congr hm.cell?

theorem references (hm : Marking h₀ roots pending s) : s.1.references = h₀.references := by
  funext c
  rw [hm.frame]
  rfl

/-- The slots stay the same up to colors when one of them is colored. -/
theorem slots_setColor (hm : Marking h₀ roots pending s) (i : UInt32) (k : MarkColor) :
    (s.1.setColor i k).slots.map ({ · with color := .white }) = h₀.slots := by
  rw [← hm.slots]
  apply Array.ext_getElem?
  intro j
  simp only [setColor, Array.getElem?_map, Array.getElem?_modify]
  split <;> simp [Function.comp_def]

theorem frame_setColor (hm : Marking h₀ roots pending s) (i : UInt32) (k : MarkColor) :
    s.1.setColor i k = { h₀ with slots := (s.1.setColor i k).slots } := by
  conv_lhs => rw [setColor, hm.frame]
  rfl

/-- Only the slot of a cell is colored. -/
theorem empty_setColor (hm : Marking h₀ roots pending s) (hl : s.1.isLive id) (k : MarkColor) :
    ∀ slot ∈ (s.1.setColor id.index k).slots, slot.cell = none → slot.color = .white := by
  intro slot hs hc
  simp only [setColor] at hs
  rcases mem_modify hs with hs | ⟨old, ho, rfl⟩
  · exact hm.empty slot hs hc
  · obtain ⟨c, hlive⟩ := isLive_iff.mp hl
    obtain ⟨slot', hs', -, hc'⟩ := cell?_eq_some.mp hlive
    rw [hs', Option.some.injEq] at ho
    subst ho
    exact absurd hc (by simp [hc'])

/-- Meeting the next value. -/
theorem shade {v : Value} (hm : Marking h₀ roots (v :: pending) s) :
    Marking h₀ roots pending (shade s v) := by
  obtain ⟨h, worklist⟩ := s
  have pending_of {id : Handle} (hne : v ≠ .cell id) (hp : .cell id ∈ v :: pending) :
      .cell id ∈ pending := (List.mem_cons.mp hp).resolve_left hne.symm
  by_cases hw : ∃ id, v = .cell id ∧ h.color? id = some .white
  · obtain ⟨id, rfl, hw⟩ := hw
    have hl := isLive_of_color? hw
    have heq : Heap.shade (h, worklist) (.cell id) = (h.setColor id.index .gray, id :: worklist) := by
      simp [Heap.shade, isWhite_iff.mpr hw]
    rw [heq]
    refine ⟨hm.frame_setColor _ _, hm.slots_setColor _ _, hm.empty_setColor hl _,
      ?_, ?_, ?_, ?_, ?_, ?_⟩
    · intro b
      rw [color?_setColor hl, List.mem_cons, hm.gray b]
      by_cases hb : b = id <;> simp [hb]
    · refine List.nodup_cons.mpr ⟨fun hmem => ?_, hm.nodup⟩
      rw [hm.gray id, hw] at hmem
      cases hmem
    · intro b k hk hne
      rw [color?_setColor hl] at hk
      by_cases hb : b = id
      · subst hb
        exact hm.pending_sound _ List.mem_cons_self (by rw [← hm.isLive]; exact hl)
      · rw [if_neg hb] at hk
        exact hm.sound _ _ hk hne
    · exact fun b hb => hm.pending_sound b (List.mem_cons_of_mem _ hb)
    · intro b hb hk
      rw [color?_setColor hl] at hk
      split at hk
      case isTrue => cases hk
      case isFalse hne => exact pending_of (by simp [Ne.symm hne]) (hm.roots_met b hb hk)
    · intro a c b ha hc hr hk
      rw [color?_setColor hl] at ha hk
      split at ha
      case isTrue => cases ha
      case isFalse =>
        split at hk
        case isTrue => cases hk
        case isFalse hne => exact pending_of (by simp [Ne.symm hne]) (hm.closed a c b ha hc hr hk)
  · have heq : Heap.shade (h, worklist) v = (h, worklist) := by
      unfold Heap.shade
      cases hv : v.cell? with
      | none => rfl
      | some id =>
        have : ¬h.isWhite id = true := fun hi => hw ⟨id, Value.cell?_eq_some.mp hv, isWhite_iff.mp hi⟩
        simp [this]
    rw [heq]
    have skip {id : Handle} (hk : h.color? id = some .white) : v ≠ .cell id :=
      fun hv => hw ⟨id, hv, hk⟩
    exact { hm with
      pending_sound := fun b hb => hm.pending_sound b (List.mem_cons_of_mem _ hb)
      roots_met := fun b hb hk => pending_of (skip hk) (hm.roots_met b hb hk)
      closed := fun a c b ha hc hr hk => pending_of (skip hk) (hm.closed a c b ha hc hr hk) }

theorem foldl_shade (hm : Marking h₀ roots pending s) :
    Marking h₀ roots [] (pending.foldl Heap.shade s) := by
  induction pending generalizing s with
  | nil => exact hm
  | cons v pending ih => exact ih hm.shade

/-- Taking a gray cell from the list, which leaves its references to be met. -/
theorem blacken {worklist : List Handle} (hm : Marking h₀ roots [] (h, id :: worklist))
    (hc : h.cell? id = some c) :
    Marking h₀ roots (h.references c) (h.setColor id.index .black, worklist) := by
  have hgray := (hm.gray id).mp List.mem_cons_self
  have hl := isLive_of_color? hgray
  have hr := hm.sound id .gray hgray (by simp)
  have hc₀ : h₀.cell? id = some c := by rw [← hm.cell?]; exact hc
  have href : h.references c = h₀.references c := congrFun hm.references c
  obtain ⟨hnot, hnodup⟩ := List.nodup_cons.mp hm.nodup
  refine ⟨hm.frame_setColor _ _, hm.slots_setColor _ _, hm.empty_setColor hl _,
    ?_, hnodup, ?_, ?_, ?_, ?_⟩
  · intro b
    rw [color?_setColor hl]
    by_cases hb : b = id
    · subst hb
      simpa using hnot
    · simpa [hb] using hm.gray b
  · intro b k hk hne
    rw [color?_setColor hl] at hk
    by_cases hb : b = id
    · exact hb ▸ hr
    · rw [if_neg hb] at hk
      exact hm.sound _ _ hk hne
  · intro b hb hl
    rw [href, mem_references] at hb
    exact .step hr hc₀ hb hl
  · intro b hb hk
    rw [color?_setColor hl] at hk
    split at hk
    case isTrue => cases hk
    case isFalse => exact absurd (hm.roots_met b hb hk) List.not_mem_nil
  · intro a c' b ha hca hrb hk
    rw [color?_setColor hl] at ha hk
    split at hk
    case isTrue => cases hk
    case isFalse =>
      split at ha
      case isTrue heq =>
        subst heq
        rw [hc₀, Option.some.injEq] at hca
        subst hca
        rw [href]
        exact mem_references.mpr hrb
      case isFalse => exact absurd (hm.closed a c' b ha hca hrb hk) List.not_mem_nil

/-- A finished worklist has colored exactly the cells that can be reached. -/
theorem complete (hm : Marking h₀ roots [] (h, [])) (hl : h₀.isLive id) :
    h₀.Reachable roots id ↔ h.color? id ≠ some .white := by
  have black {b : Handle} (hb : h₀.isLive b) (hne : h.color? b ≠ some .white) :
      h.color? b = some .black := by
    obtain ⟨k, hk⟩ := Option.isSome_iff_exists.mp (by
      rw [isSome_color?, hm.isLive]; exact hb : (h.color? b).isSome = true)
    cases k with
    | white => exact absurd hk hne
    | gray => exact absurd ((hm.gray b).mpr hk) List.not_mem_nil
    | black => exact hk
  constructor
  · intro hr
    clear hl
    induction hr with
    | root hroot _ => exact fun hk => List.not_mem_nil (hm.roots_met _ hroot hk)
    | step ha hc he _ ih =>
      exact fun hk => List.not_mem_nil (hm.closed _ _ _ (black ha.isLive ih) hc he hk)
  · intro hne
    exact hm.sound id .black (black hl hne) (by simp)

end Marking

/-! ### Running the worklist -/

/-- Meeting a value moves one cell from the white ones to the list, or none. -/
theorem whites_shade (s : Heap × List Handle) (v : Value) :
    (shade s v).1.whites + (shade s v).2.length = s.1.whites + s.2.length := by
  obtain ⟨h, worklist⟩ := s
  unfold shade
  cases v.cell? with
  | none => rfl
  | some id =>
    dsimp only
    split
    case isTrue hw =>
      have := whites_setColor_gray (isWhite_iff.mp hw)
      simp only [List.length_cons]
      omega
    case isFalse => rfl

theorem whites_foldl_shade (values : List Value) (s : Heap × List Handle) :
    (values.foldl shade s).1.whites + (values.foldl shade s).2.length =
      s.1.whites + s.2.length := by
  induction values generalizing s with
  | nil => rfl
  | cons v values ih => rw [List.foldl_cons, ih, whites_shade]

theorem drain_nil (fuel : Nat) (h : Heap) : drain fuel (h, []) = h := by cases fuel <;> rfl

/-- With one step for each white cell and each cell on the list, the list is emptied. -/
theorem drain_spec {fuel : Nat} {s : Heap × List Handle} (hm : Marking h₀ roots [] s)
    (hf : s.1.whites + s.2.length ≤ fuel) :
    Marking h₀ roots [] (drain fuel s, []) ∧ ∀ more, drain (fuel + more) s = drain fuel s := by
  induction fuel generalizing s with
  | zero =>
    obtain ⟨h, worklist⟩ := s
    obtain rfl : worklist = [] := List.length_eq_zero_iff.mp (by simp only at hf; omega)
    exact ⟨hm, fun more => by rw [drain_nil, drain_nil]⟩
  | succ fuel ih =>
    obtain ⟨h, worklist⟩ := s
    cases worklist with
    | nil =>
      refine ⟨?_, fun more => ?_⟩
      · rw [drain_nil]
        exact hm
      · rw [drain_nil, drain_nil]
    | cons id worklist =>
      have hgray := (hm.gray id).mp List.mem_cons_self
      obtain ⟨c, hc⟩ := isLive_iff.mp (isLive_of_color? hgray)
      have hstep (n : Nat) : drain (n + 1) (h, id :: worklist) =
          drain n ((h.references c).foldl shade (h.setColor id.index .black, worklist)) := by
        rw [drain, hc]
      have hcount := whites_foldl_shade (h.references c) (h.setColor id.index .black, worklist)
      rw [whites_setColor_black hgray] at hcount
      obtain ⟨hend, hmore⟩ := ih (hm.blacken hc).foldl_shade (by
        simp only [List.length_cons] at hf hcount
        omega)
      refine ⟨by rw [hstep]; exact hend, fun more => ?_⟩
      rw [hstep, show fuel + 1 + more = (fuel + more) + 1 by omega, hstep, hmore]

theorem mark_marking (hw : h₀.AllWhite) (roots : List Value) :
    Marking h₀ roots [] (h₀.mark roots, []) := by
  refine (drain_spec (Marking.start hw roots).foldl_shade ?_).1
  rw [whites_foldl_shade]
  exact h₀.whites_le

/-- **Marking ends**: the worklist is empty after one step for each slot, so that any greater number
of steps gives the same heap. -/
theorem drain_of_le (hw : h₀.AllWhite) (roots : List Value) {fuel : Nat}
    (hf : h₀.slots.size ≤ fuel) :
    drain fuel (roots.foldl shade (h₀, [])) = h₀.mark roots := by
  obtain ⟨more, rfl⟩ := Nat.exists_eq_add_of_le hf
  refine (drain_spec (Marking.start hw roots).foldl_shade ?_).2 more
  rw [whites_foldl_shade]
  exact h₀.whites_le

/-- **Marking colors exactly what can be reached.** -/
theorem mark_reachable (hw : h₀.AllWhite) (roots : List Value) (hl : h₀.isLive id) :
    h₀.Reachable roots id ↔ (h₀.mark roots).color? id ≠ some .white :=
  (mark_marking hw roots).complete hl

end Heap

end ScriptMachine
