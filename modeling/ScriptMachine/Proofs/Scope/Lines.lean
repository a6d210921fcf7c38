import ScriptMachine.Proofs.Events.Callers

/-! # Lines of scope records

A scope chain that ends is the line of its records (`Heap.Line`): the scope is the first of them, each is
enclosed by the next, and the last is enclosed by nothing. A scope has one line at most (`Line.unique`), so
that no record occurs twice in it and it is no longer than the heap.

For a frame the line is in three parts (`Machine.Scopes`): a record for each open block scope, the record of
its variables once they have moved, and the line that its function captured. What the running frame does to
its scopes takes block scopes away or adds one, or adds the record of its variables; the captured line stays
(`Scopes.leaves`, `Scopes.opens`, `Scopes.tears`). -/

namespace ScriptMachine

namespace Heap

/-- **A scope chain that ends**: from a scope through exactly the given records. -/
def Line (h : Heap) : List Handle → Option Handle → Prop
  | [], scope => scope = none
  | id :: ids, scope => scope = some id ∧ ∃ parent, h.link? id = some parent ∧ h.Line ids parent

namespace Line

variable {h h' : Heap} {id : Handle} {ids ids' : List Handle} {scope : Option Handle}

theorem chain (hl : h.Line ids scope) : h.Chain ids scope := by
  induction ids generalizing scope with
  | nil => trivial
  | cons first rest ih =>
    obtain ⟨hs, parent, hlink, hrest⟩ := hl
    exact ⟨hs, parent, hlink, ih hrest⟩

/-- The scope is the first record. -/
theorem head (hl : h.Line ids scope) : scope = ids.head? := by
  cases ids with
  | nil => exact hl
  | cons first rest => exact hl.1

/-- **A scope has one line.** -/
theorem unique (hl : h.Line ids scope) (hl' : h.Line ids' scope) : ids = ids' := by
  induction ids generalizing ids' scope with
  | nil =>
    obtain rfl := hl
    cases ids' with
    | nil => rfl
    | cons _ _ => cases hl'.1
  | cons first rest ih =>
    obtain ⟨rfl, parent, hlink, hrest⟩ := hl
    cases ids' with
    | nil => cases hl'
    | cons first' rest' =>
      obtain ⟨hfirst, parent', hlink', hrest'⟩ := hl'
      obtain rfl := Option.some.inj hfirst
      obtain rfl := Option.some.inj (hlink.symm.trans hlink')
      rw [ih hrest hrest']

/-- What is left of a line after its first records. -/
theorem drop (hl : h.Line ids scope) (n : Nat) : h.Line (ids.drop n) (h.enclosing^[n] scope) := by
  induction n generalizing ids scope with
  | zero => exact hl
  | succ n ih =>
    rw [Function.iterate_succ_apply]
    cases ids with
    | nil =>
      obtain rfl := hl
      have hnil := ih (show h.Line [] none from rfl)
      rwa [List.drop_nil] at hnil ⊢
    | cons first rest =>
      obtain ⟨rfl, parent, hlink, hrest⟩ := hl
      have hparent : h.enclosing (some first) = parent := by
        simp only [enclosing, Option.bind_some, hlink, Option.join_some]
      rw [hparent]
      exact ih hrest

/-- No record occurs twice. -/
theorem nodup (hl : h.Line ids scope) : ids.Nodup := by
  induction ids generalizing scope with
  | nil => exact List.nodup_nil
  | cons first rest ih =>
    obtain ⟨-, parent, hlink, hrest⟩ := hl
    refine List.nodup_cons.mpr ⟨fun hmem => ?_, ih hrest⟩
    -- from its second occurrence on, the line would be the whole line
    obtain ⟨before, after, rfl⟩ := List.append_of_mem hmem
    have hagain := hrest.drop before.length
    rw [List.drop_left] at hagain
    have hsame : first :: after = first :: (before ++ first :: after) :=
      hagain.unique ⟨hagain.1, parent, hlink, hrest⟩
    have hlength := congrArg List.length hsame
    simp only [List.length_cons, List.length_append] at hlength
    omega

/-- A line is no longer than the heap. -/
theorem length_le (hl : h.Line ids scope) : ids.length ≤ h.slots.size :=
  Scoped.le_size ⟨ids, hl.nodup, rfl, hl.chain⟩

theorem transfer (hl : h.Line ids scope) (hkeep : ∀ id ∈ ids, h'.link? id = h.link? id) :
    h'.Line ids scope := by
  induction ids generalizing scope with
  | nil => exact hl
  | cons first rest ih =>
    obtain ⟨hs, parent, hlink, hrest⟩ := hl
    refine ⟨hs, parent, ?_, ih hrest fun id hid => hkeep id (List.mem_cons_of_mem _ hid)⟩
    rw [hkeep first List.mem_cons_self, hlink]

/-- The records of a line that is kept are enclosed by the same records. -/
theorem link?_eq (hl : h.Line ids scope) (hl' : h'.Line ids scope) :
    ∀ id ∈ ids, h'.link? id = h.link? id := by
  induction ids generalizing scope with
  | nil =>
    intro id hid
    cases hid
  | cons first rest ih =>
    obtain ⟨-, parent, hlink, hrest⟩ := hl
    obtain ⟨-, parent', hlink', hrest'⟩ := hl'
    obtain rfl : parent = parent' := hrest.head.trans hrest'.head.symm
    intro id hid
    rcases List.mem_cons.mp hid with rfl | hid
    · rw [hlink, hlink']
    · exact ih hrest hrest' id hid

/-- **An allocation** keeps lines. -/
theorem allocate (hl : h.Line ids scope) (hf : h.FreeListed) (shape : ShapeId) (payload : Payload)
    (hr : (h.allocate shape payload).2.slots.size ≤ 2 ^ 32) :
    (h.allocate shape payload).2.Line ids scope := by
  refine hl.transfer fun id hid => ?_
  obtain ⟨parent, hlink⟩ := hl.chain.link hid
  rw [link?_allocate hf hr id parent hlink, hlink]

/-- **A collection** keeps the lines of scopes that can be reached. -/
theorem collect (hl : h.Line ids scope) (hw : h.AllWhite) (values : List Value) (words : List UInt64)
    (hs : ∀ id, scope = some id → h.isLive id = true → h.Reachable (h.allRoots values words) id) :
    (h.collect values words).2.Line ids scope := by
  refine hl.transfer fun id hid => ?_
  have hreach := hl.chain.reachable _ hs id hid
  obtain ⟨c, hc⟩ := isLive_iff.mp hreach.isLive
  unfold link?
  rw [(cell?_collect hw values words).mpr ⟨hc, hreach⟩, hc]

end Line

end Heap

namespace Machine

/-! ### The scopes of a frame -/

/-- **The scope chain of a frame**: a record for each of its open block scopes, innermost first, the record
of its variables if they have moved, and the line that its function captured. -/
structure Scopes (m : Machine) (f : Frame) (blocks outer : List Handle) : Prop where
  /-- A record for each open block scope. -/
  depth : blocks.length = f.scopeDepth.toNat
  /-- What the function captured. -/
  captured : m.heap.Line outer (m.captured f)
  /-- The whole chain. -/
  line : m.heap.Line (blocks ++ f.activation.toList ++ outer) f.scope

namespace Scopes

variable {m m' : Machine} {f : Frame} {id : Handle} {blocks outer blocks' outer' : List Handle}

/-- **The scope chain of a frame is in these parts in one way.** -/
theorem unique (hs : m.Scopes f blocks outer) (hs' : m.Scopes f blocks' outer') :
    blocks = blocks' ∧ outer = outer' := by
  obtain rfl := hs.captured.unique hs'.captured
  have hsame := hs.line.unique hs'.line
  rw [List.append_assoc, List.append_assoc] at hsame
  exact ⟨(List.append_inj hsame (hs.depth.trans hs'.depth.symm)).1, rfl⟩

/-- A chain that is kept. -/
theorem transfer (hs : m.Scopes f blocks outer) (hcaptured : m'.captured f = m.captured f)
    (hline : m'.heap.Line (blocks ++ f.activation.toList ++ outer) f.scope) : m'.Scopes f blocks outer := by
  refine ⟨hs.depth, ?_, hline⟩
  rw [hcaptured]
  exact hs.captured.transfer fun id hid => hs.line.link?_eq hline id (List.mem_append_right _ hid)

/-- Only the heap matters. -/
theorem congr (hs : m.Scopes f blocks outer) (hheap : m'.heap = m.heap) : m'.Scopes f blocks outer := by
  refine hs.transfer ?_ (by rw [hheap]; exact hs.line)
  unfold Machine.captured functionData?
  rw [hheap]

/-- **Leaving block scopes**: only records of block scopes are taken away. -/
theorem leaves (hs : m.Scopes f blocks outer) {depth : UInt32} (hd : depth ≤ f.scopeDepth) (pc : UInt32) :
    m.Scopes { f with pc, scope := f.headAt m.heap depth.toNat, scopeDepth := depth }
      (blocks.drop (f.scopeDepth.toNat - depth.toNat)) outer where
  depth := by
    have hle := UInt32.le_iff_toNat_le.mp hd
    rw [List.length_drop, hs.depth]
    exact Nat.sub_sub_self hle
  captured := hs.captured
  line := by
    have hline := hs.line.drop (f.scopeDepth.toNat - depth.toNat)
    rw [List.append_assoc, List.drop_append_of_le_length (by rw [hs.depth]; exact Nat.sub_le _ _),
      ← List.append_assoc] at hline
    exact hline

/-- **Opening a block scope** puts its record in front. -/
theorem opens (hs : m.Scopes f blocks outer) (hr : m.heap.Roomy) (hlink : m.heap.link? id = some f.scope) :
    m.Scopes { f with scope := some id, scopeDepth := f.scopeDepth + 1 } (id :: blocks) outer := by
  have hline : m.heap.Line (id :: blocks ++ f.activation.toList ++ outer) (some id) :=
    ⟨rfl, f.scope, hlink, hs.line⟩
  refine ⟨?_, hs.captured, hline⟩
  -- the depth does not overflow: the line is no longer than the heap
  have hlt : f.scopeDepth.toNat + 1 < 2 ^ 32 := by
    refine Nat.lt_of_le_of_lt ?_ (Nat.lt_of_le_of_lt hline.length_le hr)
    rw [← hs.depth, List.append_assoc, List.length_append, List.length_cons]
    exact Nat.le_add_right _ _
  change blocks.length + 1 = (f.scopeDepth + 1).toNat
  rw [hs.depth, UInt32.toNat_add]
  exact (Nat.mod_eq_of_lt hlt).symm

/-- **Moving the variables** before a block scope is open puts their record in front of what the function
captured. -/
theorem tears (hs : m.Scopes f blocks outer) (ha : f.activation = none) (hd : f.scopeDepth = 0)
    (hlink : m.heap.link? id = some f.scope) :
    m.Scopes { f with activation := some id, scope := some id } [] outer := by
  have hline := hs.line
  have hnil : blocks = [] := List.eq_nil_of_length_eq_zero (by rw [hs.depth, hd]; rfl)
  rw [hnil, ha] at hline
  exact ⟨by rw [hd]; rfl, hs.captured, rfl, f.scope, hlink, hline⟩

end Scopes

end Machine

end ScriptMachine
