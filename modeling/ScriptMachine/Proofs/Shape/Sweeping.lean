import ScriptMachine.Proofs.Shape.Table

/-! # Giving shapes back

A sweep of the table keeps the shapes in use and the roots of live prototypes, and with them the
shapes they were derived from. The shapes it keeps stay as they are, all others are reclaimed
(`sweep_isLive`), edges stay if the shapes they join do, and the table stays in order. When nothing
was given back, nothing has changed. -/

namespace ScriptMachine

namespace ShapeTable

variable {t : ShapeTable} {keep : Array Bool} {index : Nat} {id : ShapeId}

theorem getD_keepOne (hk : keep.getD index false = true) (id : ShapeId) :
    (keepOne keep id).getD index false = true := by
  simp only [keepOne, Array.getD_eq_getD_getElem?, Array.getElem?_setIfInBounds] at hk ⊢
  by_cases hi : id.index = index
  · by_cases hlt : index < keep.size
    · simp [hi, hlt]
    · rw [Array.getElem?_eq_none (by omega)] at hk
      cases hk
  · rwa [if_neg hi]

theorem getD_keepChain (fuel : Nat) (previous : Option ShapeId)
    (hk : keep.getD index false = true) :
    (t.keepChain fuel keep previous).getD index false = true := by
  induction fuel generalizing keep previous with
  | zero => exact hk
  | succ fuel ih =>
    cases previous with
    | none => exact hk
    | some id =>
      unfold keepChain
      split
      case isTrue => exact hk
      case isFalse => exact ih _ (getD_keepOne hk id)

theorem size_keepOne (id : ShapeId) : (keepOne keep id).size = keep.size := by
  simp [keepOne]

theorem getD_foldl_keepOne {inUse : List ShapeId} {id : ShapeId} (hmem : id ∈ inUse)
    (hlt : id.index < keep.size) : (inUse.foldl keepOne keep).getD id.index false = true := by
  induction inUse generalizing keep with
  | nil => cases hmem
  | cons other l ih =>
    rw [List.foldl_cons]
    rcases List.mem_cons.mp hmem with rfl | hmem
    · refine List.foldlRecOn (motive := fun keep : Array Bool => keep.getD id.index false = true) _ _ ?_
        fun _ hk other _ => getD_keepOne hk other
      simp [keepOne, Array.getD_eq_getD_getElem?, hlt]
    · exact ih hmem (by rw [size_keepOne]; exact hlt)

/-- The shapes in use are kept. -/
theorem getD_kept {inUse : List ShapeId} {id : ShapeId} (hmem : id ∈ inUse)
    (hlt : id.index < t.shapes.size) (alive : Value → Bool) :
    (t.kept inUse alive).getD id.index false = true := by
  simp only [kept, Std.HashMap.fold_eq_foldl_toList]
  refine List.foldlRecOn (motive := fun keep : Array Bool => keep.getD id.index false = true) _ _
    (List.foldlRecOn (motive := fun keep : Array Bool => keep.getD id.index false = true) _ _
      (getD_foldl_keepOne hmem (by simpa using hlt)) fun keep hk edge _ => ?_)
    fun keep hk i _ => ?_
  · split
    case isTrue => exact getD_keepOne hk _
    case isFalse => exact hk
  · split
    case isTrue => exact getD_keepChain _ _ hk
    case isFalse => exact hk

/-- The roots of live prototypes are kept. -/
theorem getD_kept_root {kind : CellKind} {prototype : Value} {alive : Value → Bool}
    (inUse : List ShapeId) (hr : t.roots[(kind, prototype)]? = some id)
    (ha : alive prototype = true) (hlt : id.index < t.shapes.size) :
    (t.kept inUse alive).getD id.index false = true := by
  simp only [kept, Std.HashMap.fold_eq_foldl_toList]
  refine List.foldlRecOn (motive := fun keep : Array Bool => keep.getD id.index false = true) _ _
    ?_ fun keep hk i _ => ?_
  · have hmem : ((kind, prototype), id) ∈ t.roots.toList :=
      Std.HashMap.mem_toList_iff_getElem?_eq_some.mpr hr
    have hsize : id.index < (inUse.foldl keepOne (Array.replicate t.shapes.size false)).size :=
      List.foldlRecOn (motive := fun keep : Array Bool => id.index < keep.size) _ _
        (by simpa using hlt) fun keep hk other _ => by rwa [size_keepOne]
    generalize inUse.foldl keepOne (Array.replicate t.shapes.size false) = keep at hsize
    generalize t.roots.toList = edges at hmem
    induction edges generalizing keep with
    | nil => cases hmem
    | cons edge edges ih =>
      rw [List.foldl_cons]
      rcases List.mem_cons.mp hmem with rfl | hmem
      · refine List.foldlRecOn (motive := fun keep : Array Bool => keep.getD id.index false = true)
          _ _ ?_ fun keep hk edge _ => ?_
        · simp [ha, keepOne, Array.getD_eq_getD_getElem?, hsize]
        · split
          case isTrue => exact getD_keepOne hk _
          case isFalse => exact hk
      · refine ih _ ?_ hmem
        split
        case isTrue => rwa [size_keepOne]
        case isFalse => exact hsize
  · split
    case isTrue => exact getD_keepChain _ _ hk
    case isFalse => exact hk

/-! ### One shape after the other -/

/-- What giving back the unkept ones of the first `k` shapes has done. -/
structure Reclaimed (t : ShapeTable) (keep : Array Bool) (k : Nat) (u : ShapeTable) : Prop where
  /-- Edges stay. -/
  edges : u = { t with shapes := u.shapes, free := u.free }
  /-- The unkept shapes are reclaimed. -/
  shapes : ∀ i, u.shapes[i]? =
    if i < k ∧ keep.getD i false = false ∧ t.isLive ⟨i⟩ = true then t.shapes[i]?.map Shape.reclaim
    else t.shapes[i]?
  /-- Their ids are free, each once. -/
  free : ∃ new : List ShapeId, u.free = new ++ t.free ∧ new.Nodup ∧
    ∀ id, id ∈ new ↔ id.index < k ∧ keep.getD id.index false = false ∧ t.isLive id = true

theorem reclaimed_foldl (t : ShapeTable) (keep : Array Bool) {k : Nat} (hk : k ≤ t.shapes.size) :
    Reclaimed t keep k ((List.range k).foldl (reclaimOne keep) t) := by
  induction k with
  | zero => exact ⟨rfl, by simp, [], by simp⟩
  | succ k ih =>
    obtain ⟨hedges, hshapes, new, hfree, hnodup, hnew⟩ := ih (by omega)
    rw [List.range_succ, List.foldl_append]
    generalize (List.range k).foldl (reclaimOne keep) t = u at *
    have hget : u.get ⟨k⟩ = t.get ⟨k⟩ := by
      simp [get, Array.getD_eq_getD_getElem?, hshapes]
    have hlive : t.isLive ⟨k⟩ = !(t.get ⟨k⟩).reclaimed := by
      cases hr : (t.get ⟨k⟩).reclaimed with
      | true =>
        simp only [Bool.not_true]
        rw [Bool.eq_false_iff]
        intro hl
        simp [(isLive_iff.mp hl).2] at hr
      | false => exact isLive_iff.mpr ⟨hk, hr⟩
    simp only [List.foldl_cons, List.foldl_nil, reclaimOne, hget]
    by_cases hcond : keep.getD k false = false ∧ t.isLive ⟨k⟩ = true
    · have hr : (t.get ⟨k⟩).reclaimed = false := (isLive_iff.mp hcond.2).2
      rw [if_neg (by simp [hcond.1, hr])]
      refine ⟨?_, fun i => ?_, ⟨k⟩ :: new, by simp [hfree], ?_, fun id => ?_⟩
      · rw [hedges]
        rfl
      · simp only [modify, Array.getElem?_modify, hshapes]
        by_cases hi : k = i
        · subst hi
          simp [hcond]
        · have : i < k ↔ i < k + 1 := by omega
          simp [hi, this]
      · refine List.nodup_cons.mpr ⟨fun hmem => ?_, hnodup⟩
        have := ((hnew _).mp hmem).1
        simp at this
      · rw [List.mem_cons, hnew]
        constructor
        · rintro (rfl | ⟨hlt, h⟩)
          · exact ⟨Nat.lt_succ_self _, hcond⟩
          · exact ⟨by omega, h⟩
        · rintro ⟨hlt, h⟩
          by_cases hi : id.index = k
          · exact .inl (shapeId_ext hi)
          · exact .inr ⟨by omega, h⟩
    · have hkeep : (keep.getD k false || (t.get ⟨k⟩).reclaimed) = true := by
        cases hkeep : keep.getD k false with
        | true => rfl
        | false =>
          rw [hkeep, hlive] at hcond
          simpa using hcond
      rw [if_pos hkeep]
      refine ⟨hedges, fun i => ?_, new, hfree, hnodup, fun id => ?_⟩
      · rw [hshapes]
        by_cases hi : i = k
        · subst hi
          simp only [Nat.lt_irrefl, false_and, if_false]
          rw [if_neg fun h => hcond h.2]
        · have : i < k ↔ i < k + 1 := by omega
          simp only [this]
      · rw [hnew]
        constructor
        · rintro ⟨hlt, h⟩
          exact ⟨by omega, h⟩
        · rintro ⟨hlt, h⟩
          by_cases hi : id.index = k
          · obtain rfl : id = ⟨k⟩ := shapeId_ext hi
            exact absurd h hcond
          · exact ⟨by omega, h⟩

/-! ### The whole table -/

section Sweep

variable (t) (inUse : List ShapeId) (alive : Value → Bool)

theorem sweep_reclaimed : Reclaimed t (t.kept inUse alive) t.shapes.size
    ((List.range t.shapes.size).foldl (reclaimOne (t.kept inUse alive)) t) :=
  reclaimed_foldl t _ (Nat.le_refl _)

/-- The id is kept by a sweep. -/
def keeps (id : ShapeId) : Bool := (t.kept inUse alive).getD id.index false

/-- A shape of the swept table. -/
theorem sweep_shape (id : ShapeId) : (t.sweep inUse alive).2.shapes[id.index]? =
    if t.isLive id = true ∧ t.keeps inUse alive id = false then
      t.shapes[id.index]?.map Shape.reclaim
    else t.shapes[id.index]? := by
  refine ((sweep_reclaimed t inUse alive).shapes id.index).trans ?_
  have : id.index < t.shapes.size ∧ (t.kept inUse alive).getD id.index false = false ∧
      t.isLive id = true ↔ t.isLive id = true ∧ t.keeps inUse alive id = false :=
    ⟨fun ⟨_, hk, hl⟩ => ⟨hl, hk⟩, fun ⟨hl, hk⟩ => ⟨(isLive_iff.mp hl).1, hk, hl⟩⟩
  simp only [this]

/-- **The live shapes of the swept table** are the live ones that are kept. -/
theorem sweep_isLive (id : ShapeId) : (t.sweep inUse alive).2.isLive id = true ↔
    t.isLive id = true ∧ t.keeps inUse alive id = true := by
  have hs := sweep_shape t inUse alive id
  by_cases hc : t.isLive id = true ∧ t.keeps inUse alive id = false
  · rw [if_pos hc] at hs
    have hdead : (t.sweep inUse alive).2.isLive id = false := by
      unfold isLive
      rw [hs]
      cases t.shapes[id.index]? <;> rfl
    simp [hdead, hc.2]
  · rw [if_neg hc] at hs
    have hsame : (t.sweep inUse alive).2.isLive id = t.isLive id := by
      unfold isLive
      rw [hs]
    rw [hsame]
    refine ⟨fun hl => ⟨hl, ?_⟩, And.left⟩
    cases hk : t.keeps inUse alive id with
    | true => rfl
    | false => exact absurd ⟨hl, hk⟩ hc

/-- A shape that is not given back stays as it is. -/
theorem sweep_get (id : ShapeId) (hk : t.keeps inUse alive id = true ∨ t.isLive id = false) :
    (t.sweep inUse alive).2.get id = t.get id := by
  have hs := sweep_shape t inUse alive id
  rw [if_neg (by rintro ⟨hl, hno⟩; simp [hl, hno] at hk)] at hs
  simp only [get, Array.getD_eq_getD_getElem?, hs]

theorem sweep_shared (id : ShapeId) (hs : t.Shared id) (hk : t.keeps inUse alive id = true) :
    (t.sweep inUse alive).2.Shared id := by
  refine ⟨(sweep_isLive t inUse alive id).mpr ⟨hs.1, hk⟩, ?_⟩
  rw [sweep_get t inUse alive id (.inl hk)]
  exact hs.2

theorem sweep_roots (key : CellKind × Value) (id : ShapeId) :
    (t.sweep inUse alive).2.roots[key]? = some id ↔
      t.roots[key]? = some id ∧ t.keeps inUse alive id = true ∧ alive key.2 = true := by
  have hedges := (sweep_reclaimed t inUse alive).edges
  simp only [sweep]
  rw [hedges, Std.HashMap.getElem?_filter']
  simp [keeps]

theorem sweep_additions (key : ShapeId × Atom × Attributes) (id : ShapeId) :
    (t.sweep inUse alive).2.additions[key]? = some id ↔
      t.additions[key]? = some id ∧ t.keeps inUse alive key.1 = true ∧
        t.keeps inUse alive id = true := by
  have hedges := (sweep_reclaimed t inUse alive).edges
  simp only [sweep]
  rw [hedges, Std.HashMap.getElem?_filter']
  simp [keeps]

theorem sweep_prototypeChanges (key : ShapeId × Value) (id : ShapeId) :
    (t.sweep inUse alive).2.prototypeChanges[key]? = some id ↔
      t.prototypeChanges[key]? = some id ∧ t.keeps inUse alive key.1 = true ∧
        t.keeps inUse alive id = true ∧ alive key.2 = true := by
  have hedges := (sweep_reclaimed t inUse alive).edges
  simp only [sweep]
  rw [hedges, Std.HashMap.getElem?_filter']
  simp [keeps, and_assoc]

theorem size_sweep : (t.sweep inUse alive).2.shapes.size = t.shapes.size := by
  refine List.foldlRecOn (motive := fun u : ShapeTable => u.shapes.size = t.shapes.size)
    (List.range t.shapes.size) (reclaimOne (t.kept inUse alive)) rfl fun u hu i _ => ?_
  unfold reclaimOne
  split
  case isTrue => exact hu
  case isFalse => simpa [modify] using hu

/-- The free ids of the swept table: those that were free, and those of the reclaimed shapes. -/
theorem mem_free_sweep : id ∈ (t.sweep inUse alive).2.free ↔
    id ∈ t.free ∨ t.isLive id = true ∧ t.keeps inUse alive id = false := by
  obtain ⟨new, hfree, -, hnew⟩ := (sweep_reclaimed t inUse alive).free
  have hfree : (t.sweep inUse alive).2.free = new ++ t.free := hfree
  rw [hfree, List.mem_append, hnew, or_comm]
  refine or_congr_right ⟨fun ⟨_, hk, hl⟩ => ⟨hl, hk⟩, fun ⟨hl, hk⟩ => ⟨(isLive_iff.mp hl).1, hk, hl⟩⟩

/-- What is left of a shape that is given back. -/
theorem sweep_get_reclaimed (hl : t.isLive id = true) (hk : t.keeps inUse alive id = false) :
    (t.sweep inUse alive).2.get id = (t.get id).reclaim := by
  have hs := sweep_shape t inUse alive id
  rw [if_pos ⟨hl, hk⟩] at hs
  simp [get, Array.getD_eq_getD_getElem?, hs,
    Array.getElem?_eq_getElem (isLive_iff.mp hl).1]

/-- **A swept table is in order.** -/
theorem sweep_ordered (ho : t.Ordered) : (t.sweep inUse alive).2.Ordered := by
  obtain ⟨new, hfree, hnodup, hnew⟩ := (sweep_reclaimed t inUse alive).free
  have hfree : (t.sweep inUse alive).2.free = new ++ t.free := hfree
  have hdead {id : ShapeId} (hid : id ∈ t.free) : t.isLive id = false := (ho.free id hid).2
  have hsize := size_sweep t inUse alive
  refine ⟨?_, fun id hid => ?_, fun kind prototype id h => ?_,
    fun source name attributes id h => ?_, fun source prototype id h => ?_, fun id => ?_⟩
  · rw [hfree, List.nodup_append]
    refine ⟨hnodup, ho.nodup, ?_⟩
    rintro id hid _ hid' rfl
    have hl := ((hnew id).mp hid).2.2
    rw [hdead hid'] at hl
    cases hl
  · rw [hsize]
    rw [hfree, List.mem_append] at hid
    have hno : (t.sweep inUse alive).2.isLive id ≠ true := by
      rw [Ne, sweep_isLive]
      rintro ⟨hl, hk⟩
      rcases hid with hid | hid
      · simp [keeps, ((hnew id).mp hid).2.1] at hk
      · simp [hdead hid] at hl
    refine ⟨?_, by simpa using hno⟩
    rcases hid with hid | hid
    · exact ((hnew id).mp hid).1
    · exact (ho.free id hid).1
  · obtain ⟨h, hk, -⟩ := (sweep_roots t inUse alive _ id).mp h
    obtain ⟨hs, h⟩ := ho.root kind prototype id h
    refine ⟨sweep_shared t inUse alive id hs hk, ?_⟩
    rw [sweep_get t inUse alive id (.inl hk)]
    exact h
  · obtain ⟨h, hks, hk⟩ := (sweep_additions t inUse alive _ id).mp h
    obtain ⟨hsource, hs, h⟩ := ho.addition source name attributes id h
    refine ⟨sweep_shared t inUse alive _ hsource hks, sweep_shared t inUse alive id hs hk, ?_⟩
    rw [sweep_get t inUse alive id (.inl hk), sweep_get t inUse alive source (.inl hks)]
    exact h
  · obtain ⟨h, hks, hk, -⟩ := (sweep_prototypeChanges t inUse alive _ id).mp h
    obtain ⟨hsource, hs, h⟩ := ho.change source prototype id h
    refine ⟨sweep_shared t inUse alive _ hsource hks, sweep_shared t inUse alive id hs hk, ?_⟩
    rw [sweep_get t inUse alive id (.inl hk), sweep_get t inUse alive source (.inl hks)]
    exact h
  · by_cases hgone : t.isLive id = true ∧ t.keeps inUse alive id = false
    · rw [sweep_get_reclaimed t inUse alive hgone.1 hgone.2]
      exact .of_empty rfl rfl
    · rw [sweep_get t inUse alive id (by grind)]
      exact ho.indexed id

/-- When no shape was given back, all live ones are kept. -/
theorem sweep_none (hz : (t.sweep inUse alive).1 = 0) (id : ShapeId) (hl : t.isLive id = true) :
    t.keeps inUse alive id = true := by
  obtain ⟨new, hfree, -, hnew⟩ := (sweep_reclaimed t inUse alive).free
  have hlen : (new ++ t.free).length - t.free.length = 0 := by rw [← hfree]; exact hz
  have hnil : new = [] := List.length_eq_zero_iff.mp (by rw [List.length_append] at hlen; omega)
  cases hk : t.keeps inUse alive id with
  | true => rfl
  | false =>
    have := (hnew id).mpr ⟨(isLive_iff.mp hl).1, hk, hl⟩
    simp [hnil] at this

variable {inUse alive}

theorem keeps_of_mem (hmem : id ∈ inUse) (hl : t.isLive id = true) :
    t.keeps inUse alive id = true := getD_kept hmem (isLive_iff.mp hl).1 alive

theorem keeps_of_root {kind : CellKind} {prototype : Value} (ho : t.Ordered)
    (hr : t.roots[(kind, prototype)]? = some id) (ha : alive prototype = true) :
    t.keeps inUse alive id = true :=
  getD_kept_root inUse hr ha (isLive_iff.mp (ho.root kind prototype id hr).1.1).1

/-- **A sweep leaves the shapes in use as they are.** -/
theorem get_sweep (hmem : id ∈ inUse) (alive : Value → Bool) :
    (t.sweep inUse alive).2.get id = t.get id := by
  refine sweep_get t inUse alive id ?_
  cases hl : t.isLive id with
  | false => exact .inr rfl
  | true => exact .inl (keeps_of_mem t hmem hl)

end Sweep

end ShapeTable

/-! ## Root shapes that stay

A shape that is listed in a table as the root of its kind and its prototype (`ShapeTable.Founds`) stays there as
it is, whatever transitions are made, be the table in order or not: a table changes dictionaries in place only,
and stores new shapes under ids that are free. A sweep keeps it as long as the prototype is alive
(`Founds.sweep`). -/

namespace ShapeTable

/-- **A root shape** is listed, and stored under an id that is not free. -/
structure Founds (t : ShapeTable) (shape : Shape) (id : ShapeId) : Prop where
  listed : t.roots[(shape.kind, shape.prototype)]? = some id
  unused : id ∉ t.free
  stored : t.shapes[id.index]? = some shape
  shared : shape.dictionary = false

variable {t : ShapeTable} {shape : Shape} {id other : ShapeId}

theorem index_ne (h : other ≠ id) : other.index ≠ id.index := fun he => h (by cases other; cases id; simp_all)

namespace Founds

theorem get (h : t.Founds shape id) : t.get id = shape := by
  rw [ShapeTable.get, Array.getD_eq_getD_getElem?, h.stored, Option.getD_some]

/-- A dictionary is another shape. -/
theorem ne_dictionary (h : t.Founds shape id) (hd : (t.get other).dictionary = true) : other ≠ id := by
  rintro rfl
  rw [h.get, h.shared] at hd
  cases hd

/-- **A shape that is stored** gets another id. -/
theorem push (h : t.Founds shape id) (new : Shape) :
    (t.push new).1 ≠ id ∧ (t.push new).2.Founds shape id := by
  have hlt := (Array.getElem?_eq_some_iff.mp h.stored).1
  unfold ShapeTable.push
  cases hfree : t.free with
  | nil =>
    have hunused : id ∉ ([] : List ShapeId) := hfree ▸ h.unused
    refine ⟨fun hid => ?_, h.listed, hunused, ?_, h.shared⟩
    · rw [← hid] at hlt
      exact Nat.lt_irrefl _ hlt
    · exact (Array.getElem?_push_lt hlt).trans (Array.getElem?_eq_getElem hlt ▸ h.stored)
  | cons first rest =>
    have hne : first ≠ id := fun hid => h.unused (by rw [hfree, hid]; exact List.mem_cons_self)
    refine ⟨hne, h.listed, fun hmem => h.unused (hfree ▸ List.mem_cons_of_mem _ hmem), ?_, h.shared⟩
    exact (Array.getElem?_setIfInBounds_ne (index_ne hne)).trans h.stored

/-- A change of another shape. -/
theorem modify (h : t.Founds shape id) (hne : other ≠ id) (f : Shape → Shape) :
    (t.modify other f).Founds shape id := by
  refine ⟨h.listed, h.unused, ?_, h.shared⟩
  change (t.shapes.modify other.index f)[id.index]? = _
  rw [Array.getElem?_modify, if_neg (index_ne hne), h.stored]

theorem ensureDictionary (h : t.Founds shape id) (source : ShapeId) :
    (t.ensureDictionary source).1 ≠ id ∧ (t.ensureDictionary source).2.Founds shape id := by
  unfold ShapeTable.ensureDictionary
  split
  case isTrue hd => exact ⟨h.ne_dictionary hd, h⟩
  case isFalse => exact h.push _

theorem addProperty (h : t.Founds shape id) (source : ShapeId) (name : Atom) (attributes : Attributes) :
    (t.addProperty source name attributes).2.2.Founds shape id := by
  unfold ShapeTable.addProperty
  dsimp only
  split
  case isTrue hd => exact h.modify (h.ne_dictionary hd) _
  case isFalse =>
    split
    case h_1 => exact h
    case h_2 =>
      split
      case isTrue =>
        obtain ⟨hne, hpushed⟩ := h.push { t.get source with previous := some source, dictionary := true }
        exact hpushed.modify hne _
      case isFalse =>
        obtain ⟨-, hpushed⟩ := h.push { ((t.get source).insert name attributes).2 with
          previous := some source, transitionCount := (t.get source).transitionCount + 1 }
        exact ⟨hpushed.listed, hpushed.unused, hpushed.stored, hpushed.shared⟩

theorem removeProperty (h : t.Founds shape id) (source : ShapeId) (name : Atom) :
    (t.removeProperty source name).2.2.Founds shape id := by
  obtain ⟨hne, hensured⟩ := h.ensureDictionary source
  exact hensured.modify hne _

theorem changePrototype (h : t.Founds shape id) (source : ShapeId) (v : Value) :
    (t.changePrototype source v).2.Founds shape id := by
  unfold ShapeTable.changePrototype
  dsimp only
  split
  case isTrue hd => exact h.modify (h.ne_dictionary hd) _
  case isFalse =>
    split
    case h_1 => exact h
    case h_2 =>
      obtain ⟨-, hpushed⟩ := h.push { t.get source with previous := some source, prototype := v }
      exact ⟨hpushed.listed, hpushed.unused, hpushed.stored, hpushed.shared⟩

theorem changeAttributes (h : t.Founds shape id) (source : ShapeId) (name : Atom)
    (attributes : Attributes) : (t.changeAttributes source name attributes).2.Founds shape id := by
  obtain ⟨hne, hensured⟩ := h.ensureDictionary source
  exact hensured.modify hne _

/-- Another root is listed. -/
theorem root (h : t.Founds shape id) (kind : CellKind) (prototype : Value) :
    (t.root kind prototype).2.Founds shape id := by
  unfold ShapeTable.root
  split
  case h_1 => exact h
  case h_2 hnone =>
    obtain ⟨-, hpushed⟩ := h.push { kind, prototype }
    refine ⟨?_, hpushed.unused, hpushed.stored, hpushed.shared⟩
    change ((t.push _).2.roots.insert (kind, prototype) _)[(shape.kind, shape.prototype)]? = some id
    rw [Std.HashMap.getElem?_insert, if_neg, hpushed.listed]
    intro heq
    rw [beq_iff_eq.mp heq, h.listed] at hnone
    cases hnone

/-- **A sweep** keeps it while the prototype is alive. -/
theorem sweep (h : t.Founds shape id) (inUse : List ShapeId) {alive : Value → Bool}
    (halive : alive shape.prototype = true) : (t.sweep inUse alive).2.Founds shape id := by
  have hlt := (Array.getElem?_eq_some_iff.mp h.stored).1
  have hkept : t.keeps inUse alive id = true := getD_kept_root inUse h.listed halive hlt
  refine ⟨(sweep_roots t inUse alive _ _).mpr ⟨h.listed, hkept, halive⟩, fun hfree => ?_, ?_, h.shared⟩
  · rcases (mem_free_sweep t inUse alive).mp hfree with hfree | ⟨-, hgone⟩
    · exact h.unused hfree
    · rw [hkept] at hgone
      cases hgone
  · rw [sweep_shape, if_neg, h.stored]
    rintro ⟨-, hgone⟩
    rw [hkept] at hgone
    cases hgone

end Founds

end ShapeTable

end ScriptMachine
