import ScriptMachine.Proofs.Shape.Sweeping

/-! # What a sweep keeps

A sweep marks the shapes in use and the roots of live prototypes, and then walks from every marked
shape along the shapes it was derived from, up to the first one that is marked already. Stopping
there is safe: what is marked so far has its ancestors marked, or lies ahead of the outer loop. The
marked shapes are so the least set that holds the marked ones and is closed under `previous`
(`ShapeTable.Needed`, `keeps_iff_needed`). -/

namespace ScriptMachine

namespace ShapeTable

/-- **The shapes a sweep has to keep**: those in use, the roots of live prototypes, and what these
were derived from. -/
inductive Needed (t : ShapeTable) (inUse : List ShapeId) (alive : Value → Bool) : ShapeId → Prop
  /-- A shape in use. -/
  | used {id : ShapeId} : id ∈ inUse → Needed t inUse alive id
  /-- The root of a live prototype. -/
  | root {kind : CellKind} {prototype : Value} {id : ShapeId} :
      t.roots[(kind, prototype)]? = some id → alive prototype = true → Needed t inUse alive id
  /-- The shape that a needed one was derived from. -/
  | previous {id parent : ShapeId} :
      Needed t inUse alive id → (t.get id).previous = some parent → Needed t inUse alive parent

/-- Every shape was derived from one of the first `size` shapes. -/
def Parented (t : ShapeTable) (size : Nat) : Prop :=
  ∀ id parent, (t.get id).previous = some parent → parent.index < size

variable {t : ShapeTable} {keep : Array Bool} {id other : ShapeId} {inUse : List ShapeId}
  {alive : Value → Bool}

/-! ### One walk -/

theorem getD_keepOne_iff : (keepOne keep other).getD id.index false = true ↔
    keep.getD id.index false = true ∨ id = other ∧ id.index < keep.size := by
  simp only [keepOne, Array.getD_eq_getD_getElem?, Array.getElem?_setIfInBounds]
  by_cases hi : other.index = id.index
  · obtain rfl : other = id := shapeId_ext hi
    by_cases hlt : other.index < keep.size
    · simp [hlt]
    · simp [hlt]
  · have hne : id ≠ other := fun e => hi (congrArg ShapeId.index e.symm)
    simp [hi, hne]

/-- Marking a shape leaves fewer unmarked ones. -/
theorem count_keepOne (hlt : id.index < keep.size) (hk : keep.getD id.index false = false) :
    (keepOne keep id).count false < keep.count false := by
  have hget : keep[id.index] = false := by
    simpa [Array.getD_eq_getD_getElem?, Array.getElem?_eq_getElem hlt] using hk
  have hpos : 0 < keep.count false := Array.count_pos_iff.mpr (hget ▸ Array.getElem_mem hlt)
  rw [keepOne, Array.setIfInBounds_def, dif_pos hlt, Array.count_set hlt, hget]
  simp only [BEq.rfl, if_true, Bool.true_beq, Bool.false_eq_true, if_false]
  omega

/-- When no shape is left unmarked, all are marked. -/
theorem getD_of_count (hz : keep.count false = 0) (hlt : id.index < keep.size) :
    keep.getD id.index false = true := by
  by_contra hk
  have := count_keepOne hlt (by simpa using hk)
  omega

theorem keepChain_succ (fuel : Nat) (first : ShapeId) :
    t.keepChain (fuel + 1) keep (some first) =
      if keep.getD first.index true = true then keep
      else t.keepChain fuel (keepOne keep first) (t.get first).previous := rfl

theorem keepChain_none (fuel : Nat) : t.keepChain fuel keep none = keep := by
  cases fuel <;> rfl

/-- **A walk marks a chain to its end**: where it starts is marked, and whatever it marks has its
parent marked. The walk is long enough if it could mark all shapes. -/
theorem keepChain_closed (fuel : Nat) (hp : t.Parented keep.size) (start : Option ShapeId)
    (hs : ∀ first, start = some first → first.index < keep.size) (hf : keep.count false ≤ fuel) :
    (∀ first, start = some first →
      (t.keepChain fuel keep start).getD first.index false = true) ∧
    ∀ id, (t.keepChain fuel keep start).getD id.index false = true →
      keep.getD id.index false = true ∨ ∀ parent, (t.get id).previous = some parent →
        (t.keepChain fuel keep start).getD parent.index false = true := by
  induction fuel generalizing keep start with
  | zero =>
    exact ⟨fun first h => getD_of_count (Nat.le_zero.mp hf) (hs first h), fun _ h => .inl h⟩
  | succ fuel ih =>
    cases start with
    | none =>
      rw [keepChain_none]
      exact ⟨fun _ h => (by cases h), fun _ h => .inl h⟩
    | some first =>
      have hlt := hs first rfl
      have hsame : keep.getD first.index true = keep.getD first.index false := by
        simp [Array.getD_eq_getD_getElem?, Array.getElem?_eq_getElem hlt]
      rw [keepChain_succ, hsame]
      by_cases hk : keep.getD first.index false = true
      · rw [if_pos hk]
        exact ⟨fun _ h => Option.some.inj h ▸ hk, fun _ h => .inl h⟩
      · rw [if_neg hk]
        have hcount := count_keepOne hlt (by simpa using hk)
        have hp' : t.Parented (keepOne keep first).size := by rwa [size_keepOne]
        obtain ⟨hnext, hclosed⟩ := ih hp'
          (t.get first).previous (by rw [size_keepOne]; exact hp first) (by omega)
        refine ⟨fun _ h => ?_, fun id h => ?_⟩
        · obtain rfl := Option.some.inj h
          exact getD_keepChain _ _ (getD_keepOne_iff.mpr (.inr ⟨rfl, hlt⟩))
        · rcases hclosed id h with hk' | hparent
          · rcases getD_keepOne_iff.mp hk' with hk' | ⟨rfl, -⟩
            · exact .inl hk'
            · exact .inr hnext
          · exact .inr hparent

/-- A walk stays in any set that is closed under `previous`. -/
theorem keepChain_within {P : ShapeId → Prop}
    (hP : ∀ id parent, P id → (t.get id).previous = some parent → P parent) (fuel : Nat)
    (start : Option ShapeId) (hs : ∀ first, start = some first → P first)
    (hk : ∀ id, keep.getD id.index false = true → P id) :
    ∀ id, (t.keepChain fuel keep start).getD id.index false = true → P id := by
  induction fuel generalizing keep start with
  | zero => exact hk
  | succ fuel ih =>
    cases start with
    | none =>
      rw [keepChain_none]
      exact hk
    | some first =>
      rw [keepChain_succ]
      split
      case isTrue => exact hk
      case isFalse =>
        refine ih (t.get first).previous (fun parent => hP first parent (hs first rfl)) ?_
        intro id h
        rcases getD_keepOne_iff.mp h with h | ⟨rfl, -⟩
        · exact hk id h
        · exact hs id rfl

theorem size_keepChain (fuel : Nat) (keep : Array Bool) (start : Option ShapeId) :
    (t.keepChain fuel keep start).size = keep.size := by
  induction fuel generalizing keep start with
  | zero => rfl
  | succ fuel ih =>
    cases start with
    | none => rw [keepChain_none]
    | some first =>
      rw [keepChain_succ]
      split
      case isTrue => rfl
      case isFalse => rw [ih, size_keepOne]

/-! ### All walks -/

/-- The shapes that a sweep marks before it walks. -/
def marked (t : ShapeTable) (inUse : List ShapeId) (alive : Value → Bool) : Array Bool :=
  t.roots.fold (fun keep key id => if alive key.2 then keepOne keep id else keep)
    (inUse.foldl keepOne (Array.replicate t.shapes.size false))

/-- One turn of the outer loop of a sweep. -/
def keepAncestors (t : ShapeTable) (keep : Array Bool) (index : Nat) : Array Bool :=
  if keep.getD index false then t.keepChain t.shapes.size keep (t.get ⟨index⟩).previous else keep

theorem kept_eq : t.kept inUse alive =
    (List.range t.shapes.size).foldl t.keepAncestors (t.marked inUse alive) := rfl

theorem size_keepAncestors (keep : Array Bool) (index : Nat) :
    (t.keepAncestors keep index).size = keep.size := by
  unfold keepAncestors
  split
  case isTrue => exact size_keepChain _ _ _
  case isFalse => rfl

theorem size_marked : (t.marked inUse alive).size = t.shapes.size := by
  simp only [marked, Std.HashMap.fold_eq_foldl_toList]
  refine List.foldlRecOn (motive := fun keep : Array Bool => keep.size = t.shapes.size) _ _
    (List.foldlRecOn (motive := fun keep : Array Bool => keep.size = t.shapes.size) _ _
      (by simp) fun keep hk id _ => by rw [size_keepOne, hk]) fun keep hk edge _ => ?_
  split
  case isTrue => rw [size_keepOne, hk]
  case isFalse => exact hk

/-- **The kept shapes are closed under `previous`.** After `k` turns of the loop this holds of the
first `k` shapes. -/
theorem kept_closed (hp : t.Parented t.shapes.size) {parent : ShapeId}
    (hk : (t.kept inUse alive).getD id.index false = true)
    (hprevious : (t.get id).previous = some parent) :
    (t.kept inUse alive).getD parent.index false = true := by
  have hloop (k : Nat) :
      ((List.range k).foldl t.keepAncestors (t.marked inUse alive)).size = t.shapes.size ∧
      ∀ id parent, id.index < k → (t.get id).previous = some parent →
        ((List.range k).foldl t.keepAncestors (t.marked inUse alive)).getD id.index false = true →
        ((List.range k).foldl t.keepAncestors (t.marked inUse alive)).getD parent.index false =
          true := by
    induction k with
    | zero => exact ⟨size_marked, fun _ _ h => absurd h (Nat.not_lt_zero _)⟩
    | succ k ih =>
      obtain ⟨hsize, hclosed⟩ := ih
      rw [List.range_succ, List.foldl_append]
      generalize (List.range k).foldl t.keepAncestors (t.marked inUse alive) = keep at *
      refine ⟨by rw [List.foldl_cons, List.foldl_nil, size_keepAncestors, hsize],
        fun id parent hlt hprevious h => ?_⟩
      simp only [List.foldl_cons, List.foldl_nil, keepAncestors] at h ⊢
      by_cases hk : keep.getD k false = true
      · rw [if_pos hk] at h ⊢
        have hcount : keep.count false ≤ t.shapes.size := hsize ▸ Array.count_le_size
        obtain ⟨hstart, hwalk⟩ := keepChain_closed t.shapes.size (by rw [hsize]; exact hp)
          (t.get ⟨k⟩).previous (by rw [hsize]; exact hp ⟨k⟩) hcount
        rcases hwalk id h with hold | hparent
        · by_cases hi : id.index = k
          · obtain rfl : id = ⟨k⟩ := shapeId_ext hi
            exact hstart parent hprevious
          · exact getD_keepChain _ _ (hclosed id parent (by omega) hprevious hold)
        · exact hparent parent hprevious
      · rw [if_neg hk] at h ⊢
        have hi : id.index ≠ k := fun e => hk (e ▸ h)
        exact hclosed id parent (by omega) hprevious h
  by_cases hlt : id.index < t.shapes.size
  · exact (hloop t.shapes.size).2 id parent hlt hprevious hk
  · rw [get, Array.getD_eq_getD_getElem?, Array.getElem?_eq_none (by omega)] at hprevious
    cases hprevious

/-- Only needed shapes are kept. -/
theorem needed_of_kept (hk : (t.kept inUse alive).getD id.index false = true) :
    t.Needed inUse alive id := by
  rw [kept_eq, marked, Std.HashMap.fold_eq_foldl_toList] at hk
  revert id
  refine List.foldlRecOn
    (motive := fun keep : Array Bool => ∀ {id : ShapeId}, keep.getD id.index false = true →
      t.Needed inUse alive id) _ _
    (List.foldlRecOn
      (motive := fun keep : Array Bool => ∀ {id : ShapeId}, keep.getD id.index false = true →
        t.Needed inUse alive id) _ _
      (List.foldlRecOn
        (motive := fun keep : Array Bool => ∀ {id : ShapeId}, keep.getD id.index false = true →
          t.Needed inUse alive id) _ _ ?_ ?_) ?_) ?_
  · intro id h
    simp [Array.getD_eq_getD_getElem?, Array.getElem?_replicate] at h
    split at h <;> simp at h
  · intro keep hkeep other hmem id h
    rcases getD_keepOne_iff.mp h with h | ⟨rfl, -⟩
    · exact hkeep h
    · exact .used hmem
  · intro keep hkeep edge hmem id h
    split at h
    case isTrue ha =>
      rcases getD_keepOne_iff.mp h with h | ⟨rfl, -⟩
      · exact hkeep h
      · exact .root (Std.HashMap.mem_toList_iff_getElem?_eq_some.mp hmem) ha
    case isFalse => exact hkeep h
  · intro keep hkeep index _ id h
    unfold keepAncestors at h
    split at h
    case isTrue hindex =>
      have hnode : t.Needed inUse alive ⟨index⟩ := hkeep hindex
      exact keepChain_within (fun _ _ => .previous) _ _ (fun first => .previous hnode)
        (fun _ => hkeep) id h
    case isFalse => exact hkeep h

/-- **A sweep keeps exactly what is needed.** -/
theorem keeps_iff_needed (hp : t.Parented t.shapes.size)
    (hlt : id.index < t.shapes.size) :
    t.keeps inUse alive id = true ↔ t.Needed inUse alive id := by
  refine ⟨needed_of_kept, fun hn => ?_⟩
  induction hn with
  | used hmem => exact getD_kept hmem hlt alive
  | root hr ha => exact getD_kept_root inUse hr ha hlt
  | @previous id parent _ hprevious ih =>
    refine kept_closed hp (ih ?_) hprevious
    -- a shape outside the table has no parent
    by_contra hlt
    rw [get, Array.getD_eq_getD_getElem?, Array.getElem?_eq_none (by omega)] at hprevious
    cases hprevious

end ShapeTable

end ScriptMachine
