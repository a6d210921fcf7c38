import ScriptMachine.Proofs.Shape.Integrity

/-! # The history of a table of shapes

`ShapeTable.Step` says what can be done with a table: look up an empty shape, move along a transition
from a live shape, or sweep. Every table reached by such steps from the empty one is intact
(`Reached.intact`), whatever the order of the steps and whichever ids were used again on the way, and
a shared shape stays as it is for as long as it is live (`Outlives.shared`). -/

namespace ScriptMachine

namespace ShapeTable

/-- **One step** of a table. Transitions start at live shapes; a property that is added has a new
name, and a sweep is told of live shapes in use. -/
inductive Step (t : ShapeTable) : ShapeTable → Prop
  /-- The empty shape of a kind and prototype is looked up. -/
  | root (kind : CellKind) (prototype : Value) : Step t (t.root kind prototype).2
  /-- A property is added. -/
  | add {source : ShapeId} {name : Atom} (attributes : Attributes) : t.isLive source = true →
      t.lookup? source name = none → Step t (t.addProperty source name attributes).2.2
  /-- A property is removed. -/
  | remove {source : ShapeId} (name : Atom) : t.isLive source = true →
      Step t (t.removeProperty source name).2.2
  /-- The prototype is changed. -/
  | prototype {source : ShapeId} (prototype : Value) : t.isLive source = true →
      Step t (t.changePrototype source prototype).2
  /-- The attributes of a property are changed. -/
  | attributes {source : ShapeId} (name : Atom) (attributes : Attributes) :
      t.isLive source = true → Step t (t.changeAttributes source name attributes).2
  /-- A dictionary is made. -/
  | dictionary {source : ShapeId} : t.isLive source = true → Step t (t.toDictionary source).2
  /-- What is not needed is given back. -/
  | sweep {inUse : List ShapeId} (alive : Value → Bool) : (∀ id ∈ inUse, t.isLive id = true) →
      Step t (t.sweep inUse alive).2

/-- **The tables that steps lead to.** -/
inductive Reached : ShapeTable → Prop
  /-- The empty table. -/
  | empty : Reached {}
  /-- One more step. -/
  | step {t t' : ShapeTable} : Reached t → Step t t' → Reached t'

/-- Steps in which a shape stays live throughout. -/
inductive Outlives (id : ShapeId) (t : ShapeTable) : ShapeTable → Prop
  /-- No step. -/
  | refl : Outlives id t t
  /-- One more step, after which the shape is live. -/
  | step {t' t'' : ShapeTable} : Outlives id t t' → Step t' t'' → t''.isLive id = true →
      Outlives id t t''

variable {t t' : ShapeTable} {id : ShapeId}

/-- **Every step keeps a table intact.** -/
theorem Step.intact (hi : t.Intact) (hs : Step t t') : t'.Intact := by
  cases hs with
  | root kind prototype => exact root_intact hi kind prototype
  | add attributes hl hn => exact addProperty_intact hi hl hn attributes
  | remove name hl => exact removeProperty_intact hi hl name
  | prototype prototype hl => exact changePrototype_intact hi hl prototype
  | attributes name attributes hl => exact changeAttributes_intact hi hl name attributes
  | dictionary hl => exact toDictionary_intact hi hl
  | sweep alive _ => exact sweep_intact hi _ alive

theorem Reached.intact (hr : Reached t) : t.Intact := by
  induction hr with
  | empty => exact intact_empty
  | step _ hs ih => exact hs.intact ih

/-- **A shared shape that a step leaves live stays as it is.** -/
theorem Step.shared (ho : t.Ordered) (hs : Step t t') (hid : t.Shared id)
    (hl' : t'.isLive id = true) : t'.Shared id ∧ t'.get id = t.get id := by
  cases hs with
  | root kind prototype => exact (root_spec ho kind prototype).1.shared hid
  | add attributes hl hn => exact (addProperty_spec ho hl hn attributes).moves.grows.shared hid
  | remove name hl => exact (removeProperty_spec ho hl name).1.grows.shared hid
  | prototype prototype hl => exact (changePrototype_spec ho hl prototype).1.grows.shared hid
  | attributes name attributes hl =>
    exact (changeAttributes_spec ho hl name attributes).1.grows.shared hid
  | dictionary hl => exact (toDictionary_spec ho hl).1.grows.shared hid
  | sweep alive _ =>
    obtain ⟨-, hk⟩ := (sweep_isLive t _ alive id).mp hl'
    exact ⟨sweep_shared t _ alive id hid hk, sweep_get t _ alive id (.inl hk)⟩

theorem Outlives.shared (hi : t.Intact) (ho : Outlives id t t') (hid : t.Shared id) :
    t'.Intact ∧ t'.Shared id ∧ t'.get id = t.get id := by
  induction ho with
  | refl => exact ⟨hi, hid, rfl⟩
  | step _ hs hl ih =>
    obtain ⟨hi', hshared, hget⟩ := ih
    obtain ⟨hshared', hget'⟩ := hs.shared hi'.toOrdered hshared hl
    exact ⟨hs.intact hi', hshared', hget'.trans hget⟩

/-- **The integrity of every table that steps lead to.** The free list holds exactly the reclaimed
ids, each once; live shapes descend from live shapes, in finitely many links; roots are live and
empty; an addition leads from a shared shape to a shared one that was derived from it and has the
property at the end; a change of prototype joins live shapes of the same layout; a shared shape does
not change as long as it is live; and a sweep leaves the live shapes that are needed. -/
theorem integrity (hr : Reached t) :
    (t.free.Nodup ∧ ∀ id, id ∈ t.free ↔ id.index < t.shapes.size ∧ t.isLive id = false) ∧
    (∀ id, t.isLive id = true → t.Descends id ∧
      ∀ parent, (t.get id).previous = some parent → t.isLive parent = true) ∧
    (∀ kind prototype id, t.roots[(kind, prototype)]? = some id →
      t.isLive id = true ∧ t.get id = { kind, prototype }) ∧
    (∀ source name attributes id, t.additions[(source, name, attributes)]? = some id →
      t.Shared source ∧ t.Shared id ∧
      (∃ offset, (t.get id).properties = (t.get source).properties.push ⟨name, offset, attributes⟩) ∧
      (t.get id).kind = (t.get source).kind ∧ (t.get id).prototype = (t.get source).prototype ∧
      (t.get id).previous = some source) ∧
    (∀ source prototype id, t.prototypeChanges[(source, prototype)]? = some id →
      t.isLive source = true ∧ t.isLive id = true ∧
      t.get id = { t.get source with previous := some source, prototype }) ∧
    (∀ id t', t.Shared id → Outlives id t t' → t'.get id = t.get id) ∧
    (∀ inUse alive id, (t.sweep inUse alive).2.isLive id = true ↔
      t.isLive id = true ∧ t.Needed inUse alive id) := by
  have hi := hr.intact
  refine ⟨⟨hi.nodup, fun id => hi.mem_free⟩, fun id hl => ⟨hi.descends id hl, fun parent h =>
    (hi.parent h).2⟩, fun kind prototype id h => ?_, fun source name attributes id h => ?_,
    fun source prototype id h => ?_, fun id t' hid ho => (ho.shared hi hid).2.2,
    fun inUse alive id => ?_⟩
  · obtain ⟨hid, hk, hp, -⟩ := hi.root kind prototype id h
    refine ⟨hid.1, ?_⟩
    rw [(hi.derived id hid.1).origin (hi.rooted _ id h), hk, hp]
  · obtain ⟨hsource, hid, hk, hp, he⟩ := hi.addition source name attributes id h
    exact ⟨hsource, hid, he, hk, hp, hi.added _ id h⟩
  · obtain ⟨hsource, hid, -⟩ := hi.change source prototype id h
    exact ⟨hsource.1, hid.1, hi.changed _ id h⟩
  · rw [sweep_isLive]
    exact and_congr_right fun hl => keeps_iff_needed hi.parented (isLive_iff.mp hl).1

/-- The table with the empty object of prototype null and the shape that a first property leads
to. -/
def small : ShapeTable :=
  ((({} : ShapeTable).root .object .null).2.addProperty ⟨0⟩ ⟨0⟩ .none).2.2

theorem small_reached : Reached small := by
  have hroot : (({} : ShapeTable).root .object .null).2.isLive ⟨0⟩ = true ∧
      (({} : ShapeTable).root .object .null).2.lookup? ⟨0⟩ ⟨0⟩ = none := by
    simp [root, push, isLive, lookup?, get, Shape.lookup?]
  exact .step (.step .empty (.root .object .null)) (.add .none hroot.1 hroot.2)

theorem small_shapes : small.shapes =
    #[{ kind := .object, prototype := .null },
      { kind := .object, prototype := .null, properties := #[⟨⟨0⟩, 0, .none⟩]
        index := ({} : Std.TreeMap Atom Nat).insert ⟨0⟩ 0
        previous := some ⟨0⟩, transitionCount := 1, slotCount := 1 }] := by
  simp [small, root, push, addProperty, get, maxTransitionLength, Shape.insert]

theorem small_live : small.isLive ⟨0⟩ = true ∧ small.isLive ⟨1⟩ = true := by
  simp [isLive, small_shapes]

/-- The small table after a sweep with only the empty object in use. -/
def swept : ShapeTable := (small.sweep [⟨0⟩] fun _ => false).2

theorem swept_reached : Reached swept :=
  .step small_reached (.sweep _ fun _ hid => List.mem_singleton.mp hid ▸ small_live.1)

/-- The first shape is left, and the second one is given back. -/
theorem swept_live : swept.isLive ⟨0⟩ = true ∧ swept.isLive ⟨1⟩ = false ∧ swept.free = [⟨1⟩] := by
  have hneeded (id : ShapeId) : small.Needed [⟨0⟩] (fun _ => false) id → id = ⟨0⟩ := by
    intro h
    induction h with
    | used hmem => exact List.mem_singleton.mp hmem
    | root _ halive => cases halive
    | previous _ hprevious ih =>
      rw [ih] at hprevious
      simp [get, small_shapes] at hprevious
  have hlive (id : ShapeId) (hid : small.isLive id = true) : swept.isLive id = true ↔ id = ⟨0⟩ := by
    rw [swept, sweep_isLive, keeps_iff_needed small_reached.intact.parented (isLive_iff.mp hid).1]
    exact ⟨fun h => hneeded id h.2, fun h => ⟨hid, .used (h ▸ List.mem_singleton_self _)⟩⟩
  have hkept : swept.isLive ⟨0⟩ = true := (hlive _ small_live.1).mpr rfl
  have hgone : swept.isLive ⟨1⟩ = false := by
    refine Bool.eq_false_iff.mpr fun h => ?_
    cases (hlive _ small_live.2).mp h
  refine ⟨hkept, hgone, List.perm_singleton.mp ?_⟩
  have hsize : swept.shapes.size = 2 := by
    rw [swept, size_sweep, small_shapes]
    rfl
  refine (List.perm_ext_iff_of_nodup swept_reached.intact.nodup (List.nodup_singleton _)).mpr fun id => ?_
  rw [swept_reached.intact.mem_free, hsize, List.mem_singleton]
  constructor
  · rintro ⟨hlt, hdead⟩
    obtain ⟨index⟩ := id
    obtain rfl | rfl : index = 0 ∨ index = 1 := by simp only at hlt; omega
    · cases hkept.symm.trans hdead
    · rfl
  · rintro rfl
    exact ⟨by decide, hgone⟩

/-- The table in which the id that was given back is in use again, for a dictionary. -/
def recycled : ShapeTable := (swept.toDictionary ⟨0⟩).2

/-- The id of the second shape is free after the sweep, and used again for a shape that descends from the first
one. -/
theorem integrity_recycled :
    (small.isLive ⟨1⟩ = true ∧ swept.isLive ⟨1⟩ = false ∧ ⟨1⟩ ∈ swept.free) ∧
    recycled.free = [] ∧ (recycled.get ⟨1⟩).dictionary = true ∧ recycled.isLive ⟨1⟩ = true ∧
      recycled.Descends ⟨1⟩ := by
  obtain ⟨hkept, hgone, honly⟩ := swept_live
  have hfree : (⟨1⟩ : ShapeId) ∈ swept.free := by simp [honly]
  have hsize : 1 < swept.shapes.size := (swept_reached.intact.mem_free.mp hfree).1
  have hpush : recycled = { swept with
      shapes := swept.shapes.setIfInBounds 1 { swept.get ⟨0⟩ with previous := some ⟨0⟩, dictionary := true }
      free := [] } := by
    rw [recycled, toDictionary, push, honly]
  have hshape : recycled.shapes[1]? =
      some { swept.get ⟨0⟩ with previous := some ⟨0⟩, dictionary := true } := by
    rw [hpush]
    simp [hsize]
  have hlive : recycled.isLive ⟨1⟩ = true := by simp [isLive, hshape, (isLive_iff.mp hkept).2]
  have hdictionary : (recycled.get ⟨1⟩).dictionary = true := by
    simp [get, Array.getD_eq_getD_getElem?, hshape]
  obtain ⟨⟨-, hfree⟩, -⟩ := integrity swept_reached
  obtain ⟨-, hdescends, -⟩ := integrity (.step swept_reached (.dictionary hkept))
  exact ⟨⟨small_live.2, hgone, (hfree ⟨1⟩).mpr ⟨hsize, hgone⟩⟩, congrArg ShapeTable.free hpush, hdictionary,
    hlive, (hdescends ⟨1⟩ hlive).1⟩

/-- **A sweep may leave a shape that is neither in use nor a root of a live prototype**: one that a
shape in use was derived from. -/
theorem sweep_leaves_ancestors : ¬ ∀ t inUse alive id, Reached t →
    (∀ used ∈ inUse, t.isLive used = true) → t.isLive id = true →
    ((t.sweep inUse alive).2.isLive id = false ↔
      id ∉ inUse ∧ ¬∃ (kind : CellKind) (prototype : Value),
        t.roots[(kind, prototype)]? = some id ∧ alive prototype = true) := by
  intro hall
  obtain ⟨hl, hused⟩ := small_live
  have hprevious : (small.get ⟨1⟩).previous = some ⟨0⟩ := by simp [get, small_shapes]
  have hgone := (hall small [⟨1⟩] (fun _ => false) ⟨0⟩ small_reached (by simpa using hused) hl).mpr
    (by simp)
  have hstays : (small.sweep [⟨1⟩] fun _ => false).2.isLive ⟨0⟩ = true := by
    refine (sweep_isLive _ _ _ _).mpr ⟨hl, ?_⟩
    refine (keeps_iff_needed small_reached.intact.parented (isLive_iff.mp hl).1).mpr ?_
    exact .previous (.used (List.mem_singleton_self _)) hprevious
  rw [hgone] at hstays
  cases hstays

end ShapeTable

end ScriptMachine
