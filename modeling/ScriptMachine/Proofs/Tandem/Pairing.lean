import Mathlib.Data.List.Forall2
import ScriptMachine.Heap.Cell
import ScriptMachine.Proofs.Value.Types

/-! # Values of two runs

Two runs of one program that collect at different times allocate the same cells in the same order, but
under different handles. A `Pairing` lists the handles of both runs that were issued at the same time;
values match when they are the same word, or handles that were. Arrays are aligned when they have the
same length and related items. -/

/-! ### Related options and arrays -/

namespace Option

variable {α β γ δ : Type} {r : α → β → Prop} {s : γ → δ → Prop} {a : Option α} {b : Option β}

theorem rel_iff : Option.Rel r a b ↔
    (a = none ∧ b = none) ∨ ∃ x y, a = some x ∧ b = some y ∧ r x y := by
  constructor
  · rintro (⟨h⟩ | _)
    · exact .inr ⟨_, _, rfl, rfl, h⟩
    · exact .inl ⟨rfl, rfl⟩
  · rintro (⟨rfl, rfl⟩ | ⟨x, y, rfl, rfl, h⟩)
    · exact .none
    · exact .some h

theorem Rel.mono {r' : α → β → Prop} (h : Option.Rel r a b) (hr : ∀ x y, r x y → r' x y) :
    Option.Rel r' a b := by
  cases h with
  | some h => exact .some (hr _ _ h)
  | none => exact .none

theorem Rel.map {f : α → γ} {g : β → δ} (h : Option.Rel r a b)
    (hr : ∀ x y, r x y → s (f x) (g y)) : Option.Rel s (a.map f) (b.map g) := by
  cases h with
  | some h => exact .some (hr _ _ h)
  | none => exact .none

theorem Rel.getD {x : α} {y : β} (h : Option.Rel r a b) (hr : r x y) : r (a.getD x) (b.getD y) := by
  cases h with
  | some h => exact h
  | none => exact hr

end Option

namespace ScriptMachine

/-- **Aligned arrays**: related items at the same places. -/
def Aligned {α β : Type} (r : α → β → Prop) (xs : Array α) (ys : Array β) : Prop :=
  ∀ i : Nat, Option.Rel r xs[i]? ys[i]?

namespace Aligned

variable {α β γ δ : Type} {r : α → β → Prop} {s : γ → δ → Prop} {xs xs' : Array α} {ys ys' : Array β}

theorem size (h : Aligned r xs ys) : xs.size = ys.size := by
  have hle {i : Nat} : i < xs.size ↔ i < ys.size := by
    have := h i
    rcases Option.rel_iff.mp this with ⟨hx, hy⟩ | ⟨x, y, hx, hy, -⟩
    · rw [Array.getElem?_eq_none_iff] at hx hy
      omega
    · obtain ⟨hx, -⟩ := Array.getElem?_eq_some_iff.mp hx
      obtain ⟨hy, -⟩ := Array.getElem?_eq_some_iff.mp hy
      omega
  have h₁ := @hle xs.size
  have h₂ := @hle ys.size
  omega

theorem mono {r' : α → β → Prop} (h : Aligned r xs ys) (hr : ∀ x y, r x y → r' x y) :
    Aligned r' xs ys := fun i => (h i).mono hr

theorem empty : Aligned r #[] #[] := fun _ => .none

theorem refl {r : α → α → Prop} {xs : Array α} (hr : ∀ x ∈ xs, r x x) : Aligned r xs xs := by
  intro i
  cases h : xs[i]? with
  | none => exact .none
  | some x => exact .some (hr x (Array.mem_of_getElem? h))

theorem push (h : Aligned r xs ys) {x : α} {y : β} (hr : r x y) :
    Aligned r (xs.push x) (ys.push y) := by
  intro i
  rw [Array.getElem?_push, Array.getElem?_push, h.size]
  split
  · exact .some hr
  · exact h i

theorem pop (h : Aligned r xs ys) : Aligned r xs.pop ys.pop := by
  intro i
  rw [Array.getElem?_pop, Array.getElem?_pop, h.size]
  split
  · exact h i
  · exact .none

theorem set (h : Aligned r xs ys) (j : Nat) {x : α} {y : β} (hr : r x y) :
    Aligned r (xs.setIfInBounds j x) (ys.setIfInBounds j y) := by
  intro i
  rw [Array.getElem?_setIfInBounds, Array.getElem?_setIfInBounds, h.size]
  split
  · split
    · exact .some hr
    · exact .none
  · exact h i

theorem modify (h : Aligned r xs ys) (j : Nat) {f : α → α} {g : β → β}
    (hr : ∀ x y, xs[j]? = some x → ys[j]? = some y → r x y → r (f x) (g y)) :
    Aligned r (xs.modify j f) (ys.modify j g) := by
  intro i
  rw [Array.getElem?_modify, Array.getElem?_modify]
  split
  case isFalse => exact h i
  case isTrue hi =>
    subst hi
    rcases Option.rel_iff.mp (h j) with ⟨hx, hy⟩ | ⟨x, y, hx, hy, hxy⟩
    · rw [hx, hy]
      exact .none
    · rw [hx, hy]
      exact .some (hr x y hx hy hxy)

theorem append (h : Aligned r xs ys) (h' : Aligned r xs' ys') :
    Aligned r (xs ++ xs') (ys ++ ys') := by
  intro i
  rw [Array.getElem?_append, Array.getElem?_append, h.size]
  split
  · exact h i
  · exact h' _

theorem replicate (n : Nat) {x : α} {y : β} (hr : r x y) :
    Aligned r (Array.replicate n x) (Array.replicate n y) := by
  intro i
  rw [Array.getElem?_replicate, Array.getElem?_replicate]
  split
  · exact .some hr
  · exact .none

theorem extract (h : Aligned r xs ys) (start stop : Nat) :
    Aligned r (xs.extract start stop) (ys.extract start stop) := by
  intro i
  rw [Array.getElem?_extract, Array.getElem?_extract, h.size]
  split
  · exact h _
  · exact .none

theorem shrink (h : Aligned r xs ys) (n : Nat) : Aligned r (xs.shrink n) (ys.shrink n) := by
  rw [Array.shrink_eq_take, Array.shrink_eq_take, Array.take_eq_extract, Array.take_eq_extract]
  exact h.extract 0 n

theorem map (h : Aligned r xs ys) {f : α → γ} {g : β → δ} (hr : ∀ x y, r x y → s (f x) (g y)) :
    Aligned s (xs.map f) (ys.map g) := by
  intro i
  rw [Array.getElem?_map, Array.getElem?_map]
  exact (h i).map hr

theorem getD (h : Aligned r xs ys) (i : Nat) {x : α} {y : β} (hr : r x y) :
    r (xs.getD i x) (ys.getD i y) := by
  rw [Array.getD_eq_getD_getElem?, Array.getD_eq_getD_getElem?]
  exact (h i).getD hr

theorem back? (h : Aligned r xs ys) : Option.Rel r xs.back? ys.back? := by
  rw [Array.back?_eq_getElem?, Array.back?_eq_getElem?, h.size]
  exact h _

/-- The items of aligned arrays are related one by one. -/
theorem toList (h : Aligned r xs ys) : List.Forall₂ r xs.toList ys.toList := by
  refine List.forall₂_iff_get.mpr ⟨by simpa using h.size, fun i hx hy => ?_⟩
  have := h i
  rw [Array.getElem?_eq_getElem (by simpa using hx), Array.getElem?_eq_getElem (by simpa using hy)]
    at this
  cases this with
  | some hr => exact hr

theorem ofList {l : List α} {l' : List β} (h : List.Forall₂ r l l') :
    Aligned r l.toArray l'.toArray := by
  intro i
  simp only [List.getElem?_toArray]
  induction h generalizing i with
  | nil => exact .none
  | cons hr _ ih =>
    cases i with
    | zero => exact .some hr
    | succ i => exact ih i

/-- Aligned arrays whose related items are equal are equal. -/
theorem eq {xs ys : Array α} (h : Aligned (fun x y => x = y) xs ys) : xs = ys := by
  apply Array.ext_getElem?
  intro i
  rcases Option.rel_iff.mp (h i) with ⟨hx, hy⟩ | ⟨x, y, hx, hy, rfl⟩ <;> rw [hx, hy]

/-- An item of the first array has a partner. -/
theorem exists_left (h : Aligned r xs ys) {i : Nat} {x : α} (hx : xs[i]? = some x) :
    ∃ y, ys[i]? = some y ∧ r x y := by
  rcases Option.rel_iff.mp (h i) with ⟨hx', -⟩ | ⟨x', y, hx', hy, hr⟩
  · rw [hx] at hx'
    cases hx'
  · rw [hx] at hx'
    obtain rfl := Option.some.inj hx'
    exact ⟨y, hy, hr⟩

theorem swap (h : Aligned r xs ys) : Aligned (fun y x => r x y) ys xs := by
  intro i
  rcases Option.rel_iff.mp (h i) with ⟨hx, hy⟩ | ⟨x, y, hx, hy, hr⟩
  · rw [hx, hy]
    exact .none
  · rw [hx, hy]
    exact .some hr

/-- What holds of the first of each pair holds of the first array. -/
theorem forall_left (h : Aligned r xs ys) {p : α → Prop} (hp : ∀ x y, r x y → p x) : ∀ x ∈ xs, p x := by
  intro x hx
  obtain ⟨i, hi⟩ := Array.mem_iff_getElem?.mp hx
  obtain ⟨y, -, hr⟩ := h.exists_left hi
  exact hp x y hr

/-- What holds of the second of each pair holds of the second array. -/
theorem forall_right (h : Aligned r xs ys) {p : β → Prop} (hp : ∀ x y, r x y → p y) : ∀ y ∈ ys, p y :=
  h.swap.forall_left fun y x => hp x y

/-- Aligned arrays, each of which has changed on its own. -/
theorem transport {s : α → α → Prop} {s' : β → β → Prop} {t : α → β → Prop} (h : Aligned r xs ys)
    (hs : Aligned s xs xs') (hs' : Aligned s' ys ys')
    (ht : ∀ x y x' y', r x y → s x x' → s' y y' → t x' y') : Aligned t xs' ys' := by
  intro i
  rcases Option.rel_iff.mp (h i) with ⟨hx, hy⟩ | ⟨x, y, hx, hy, hr⟩ <;>
    rcases Option.rel_iff.mp (hs i) with ⟨hx', hx''⟩ | ⟨x₁, x', hx', hx'', hs₁⟩ <;>
    rcases Option.rel_iff.mp (hs' i) with ⟨hy', hy''⟩ | ⟨y₁, y', hy', hy'', hs₁'⟩ <;>
    simp_all only [reduceCtorEq, Option.some.injEq]
  · exact .none
  · exact .some (ht _ _ _ _ hr hs₁ hs₁')

end Aligned

/-! ### Values -/

namespace Value

/-- A word without the tag of cells is not that of a cell. -/
theorem word_cell_ne {w : UInt64} (hw : w &&& tagMask ≠ cellTag) (h : Handle) : (cell h).word ≠ w := by
  rintro rfl
  exact hw (by simpa [isCell] using isCell_cell h)

@[simp] theorem isHole_cell (h : Handle) : (cell h).isHole = false :=
  beq_eq_false_iff_ne.mpr (word_cell_ne (by decide) h)

@[simp] theorem isUndefined_cell (h : Handle) : (cell h).isUndefined = false :=
  beq_eq_false_iff_ne.mpr (word_cell_ne (by decide) h)

@[simp] theorem isNull_cell (h : Handle) : (cell h).isNull = false :=
  beq_eq_false_iff_ne.mpr (word_cell_ne (by decide) h)

@[simp] theorem isNullish_cell (h : Handle) : (cell h).isNullish = false := by simp [isNullish]

end Value

/-- **Handles of two runs** that were issued at the same time, the latest first. -/
abbrev Pairing := List (Handle × Handle)

namespace Pairing

variable {ρ ρ' : Pairing} {v w : Value} {a b : Handle}

/-- The handles were issued at the same time. -/
def Pairs (ρ : Pairing) (a b : Handle) : Prop := (a, b) ∈ ρ

/-- **Values that match**: the same word, or handles issued at the same time. -/
inductive Matches (ρ : Pairing) : Value → Value → Prop
  /-- The value refers to no cell. -/
  | word {v : Value} : v.cell? = none → Matches ρ v v
  /-- The values are handles. -/
  | cell {a b : Handle} : ρ.Pairs a b → Matches ρ (.cell a) (.cell b)

theorem Pairs.mono (h : ρ.Pairs a b) (hle : ρ ⊆ ρ') : ρ'.Pairs a b := hle h

theorem Matches.mono (h : ρ.Matches v w) (hle : ρ ⊆ ρ') : ρ'.Matches v w := by
  cases h with
  | word hv => exact .word hv
  | cell h => exact .cell (h.mono hle)

/-- The handles of values that match. -/
theorem Matches.cell? (h : ρ.Matches v w) : Option.Rel ρ.Pairs v.cell? w.cell? := by
  cases h with
  | word hv =>
    rw [hv]
    exact .none
  | cell h =>
    rw [Value.cell?_cell, Value.cell?_cell]
    exact .some h

/-- A value that refers to no cell matches itself only. -/
theorem Matches.eq_of_left (h : ρ.Matches v w) (hv : v.cell? = none) : w = v := by
  cases h with
  | word => rfl
  | cell _ =>
    rw [Value.cell?_cell] at hv
    cases hv

/-- What does not look at handles is the same for values that match. -/
theorem Matches.congr {α : Type} (h : ρ.Matches v w) {f : Value → α}
    (hf : ∀ a b, f (.cell a) = f (.cell b)) : f w = f v := by
  cases h with
  | word => rfl
  | cell => exact hf _ _

theorem Matches.isHole (h : ρ.Matches v w) : w.isHole = v.isHole := h.congr (by simp)

theorem Matches.isUndefined (h : ρ.Matches v w) : w.isUndefined = v.isUndefined := h.congr (by simp)

theorem Matches.isNullish (h : ρ.Matches v w) : w.isNullish = v.isNullish := h.congr (by simp)

theorem Matches.isTruthy (h : ρ.Matches v w) : w.isTruthy = v.isTruthy := h.congr (by simp)

theorem Matches.isCell (h : ρ.Matches v w) : w.isCell = v.isCell := h.congr (by simp [Value.isCell_cell])

theorem Matches.number? (h : ρ.Matches v w) : w.number? = v.number? := h.congr (by simp)

theorem Matches.arrayIndex? (h : ρ.Matches v w) : w.arrayIndex? = v.arrayIndex? :=
  h.congr (by simp [Value.arrayIndex?])

end Pairing

end ScriptMachine
