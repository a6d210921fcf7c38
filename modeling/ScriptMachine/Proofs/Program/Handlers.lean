import Mathlib.Data.List.Basic
import ScriptMachine.Program.Block

/-! # The innermost handler

The handlers of a block protect ranges of instructions. When any two ranges are nested or apart
(`Block.Nested`), the ranges that cover an instruction lie in each other, and the shortest of them is the
innermost one. The scan of the table finds it in whatever order the table is listed, and of equal ranges
it takes the first (`Block.handlerFor?_eq_some_iff`). -/

namespace ScriptMachine

namespace Handler

/-- The range of a handler lies in that of another. -/
def Within (h g : Handler) : Prop := g.start ≤ h.start ∧ h.stop ≤ g.stop

/-- No instruction is in the ranges of both handlers. -/
def Apart (h g : Handler) : Prop := h.stop ≤ g.start ∨ g.stop ≤ h.start

/-- The length of the range. -/
def width (h : Handler) : UInt32 := h.stop - h.start

variable {h g : Handler} {pc : UInt32}

theorem covers_iff : h.covers pc = true ↔ h.start.toNat ≤ pc.toNat ∧ pc.toNat < h.stop.toNat := by
  simp [covers, UInt32.le_iff_toNat_le, UInt32.lt_iff_toNat_lt]

theorem toNat_width (hc : h.covers pc) : h.width.toNat = h.stop.toNat - h.start.toNat := by
  obtain ⟨hstart, hstop⟩ := covers_iff.mp hc
  exact UInt32.toNat_sub_of_le _ _ (UInt32.le_iff_toNat_le.mpr (by omega))

/-- Of two handlers of an instruction whose ranges are nested or apart, the shorter lies in the
other. -/
theorem within_of_width_le (hh : h.covers pc) (hg : g.covers pc) (hw : h.width ≤ g.width)
    (hn : h.Within g ∨ g.Within h ∨ h.Apart g) : h.Within g := by
  have hwh := toNat_width hh
  have hwg := toNat_width hg
  rw [covers_iff] at hh hg
  unfold Within Apart at hn
  unfold Within
  simp only [UInt32.le_iff_toNat_le] at hn hw ⊢
  omega

end Handler

/-- One step of the scan: a shorter range takes the place of the best one so far. -/
def narrower (best : Option Handler) (h : Handler) : Option Handler :=
  match best with
  | none => some h
  | some g => if h.width < g.width then some h else some g

variable {h g : Handler} {pc : UInt32}

theorem foldl_narrower_some (L : List Handler) (g : Handler) :
    ∃ h, L.foldl narrower (some g) = some h := by
  induction L generalizing g with
  | nil => exact ⟨g, rfl⟩
  | cons k L ih =>
    rw [List.foldl_cons, narrower]
    split <;> exact ih _

/-- **The scan** stays with the best handler so far, or finds the first one of those that are
shortest. -/
theorem foldl_narrower (L : List Handler) {best : Option Handler}
    (hf : L.foldl narrower best = some h) :
    (best = some h ∧ ∀ g ∈ L, h.width ≤ g.width) ∨
      ∃ pre post, L = pre ++ h :: post ∧ (∀ g ∈ pre, h.width < g.width) ∧
        (∀ g ∈ post, h.width ≤ g.width) ∧ ∀ g, best = some g → h.width < g.width := by
  induction L generalizing best with
  | nil => exact .inl ⟨hf, fun _ hg => absurd hg List.not_mem_nil⟩
  | cons k L ih =>
    rw [List.foldl_cons] at hf
    rcases ih hf with ⟨hbest, hle⟩ | ⟨pre, post, rfl, hpre, hpost, hlt⟩
    · cases best with
      | none =>
        obtain rfl := Option.some.inj hbest
        exact .inr ⟨[], L, rfl, fun _ hg => absurd hg List.not_mem_nil, hle, fun _ hg => by cases hg⟩
      | some g =>
        simp only [narrower] at hbest
        split at hbest
        case isTrue hlt =>
          obtain rfl := Option.some.inj hbest
          refine .inr ⟨[], L, rfl, fun _ hg => absurd hg List.not_mem_nil, hle, fun g' hg' => ?_⟩
          obtain rfl := Option.some.inj hg'
          exact hlt
        case isFalse hge =>
          obtain rfl := Option.some.inj hbest
          refine .inl ⟨rfl, fun g' hg' => ?_⟩
          rcases List.mem_cons.mp hg' with rfl | hg'
          · exact UInt32.not_lt.mp hge
          · exact hle g' hg'
    · have hk : h.width < k.width ∧ ∀ g, best = some g → h.width < g.width := by
        cases best with
        | none => exact ⟨hlt k rfl, fun _ hg => by cases hg⟩
        | some g =>
          simp only [narrower] at hlt
          split at hlt
          case isTrue hkg =>
            refine ⟨hlt k rfl, fun g' hg' => ?_⟩
            obtain rfl := Option.some.inj hg'
            exact UInt32.lt_trans (hlt k rfl) hkg
          case isFalse hkg =>
            refine ⟨UInt32.lt_of_lt_of_le (hlt g rfl) (UInt32.not_lt.mp hkg), fun g' hg' => ?_⟩
            obtain rfl := Option.some.inj hg'
            exact hlt g rfl
      refine .inr ⟨k :: pre, post, rfl, fun g hg => ?_, hpost, hk.2⟩
      rcases List.mem_cons.mp hg with rfl | hg
      · exact hk.1
      · exact hpre g hg

namespace Block

variable {b : Block}

/-- The ranges of any two handlers are nested or apart. -/
def Nested (b : Block) : Prop :=
  ∀ h ∈ b.handlers, ∀ g ∈ b.handlers, h.Within g ∨ g.Within h ∨ h.Apart g

/-- **The innermost handler** of an instruction: its range covers the instruction and lies in all others
that do, and no handler before it has the same range. -/
structure Innermost (b : Block) (pc : UInt32) (h : Handler) : Prop where
  covers : h.covers pc
  within : ∀ g ∈ b.handlers, g.covers pc → h.Within g
  first : ∃ pre post, b.handlers = pre ++ h :: post ∧
    ∀ g ∈ pre, ¬(g.start = h.start ∧ g.stop = h.stop)

/-- There is only one. -/
theorem Innermost.unique (hh : b.Innermost pc h) (hg : b.Innermost pc g) : h = g := by
  obtain ⟨pre, post, heq, hfirst⟩ := hh.first
  obtain ⟨pre', post', heq', hfirst'⟩ := hg.first
  have hmem : h ∈ b.handlers := by simp [heq]
  have hmem' : g ∈ b.handlers := by simp [heq']
  have hwg := hh.within g hmem' hg.covers
  have hgw := hg.within h hmem hh.covers
  have hsame : g.start = h.start ∧ g.stop = h.stop :=
    ⟨UInt32.le_antisymm hwg.1 hgw.1, UInt32.le_antisymm hgw.2 hwg.2⟩
  rw [heq] at heq'
  -- neither comes before the other, since their ranges are equal
  rcases List.append_eq_append_iff.mp heq' with ⟨mid, rfl, hmid⟩ | ⟨mid, rfl, hmid⟩
  · cases mid with
    | nil => exact (List.cons.inj hmid).1
    | cons k mid =>
      obtain ⟨rfl, -⟩ := List.cons.inj hmid
      exact absurd ⟨hsame.1.symm, hsame.2.symm⟩ (hfirst' h (by simp))
  · cases mid with
    | nil => exact (List.cons.inj hmid).1.symm
    | cons k mid =>
      obtain ⟨rfl, -⟩ := List.cons.inj hmid
      exact absurd hsame (hfirst g (by simp))

theorem handlerFor?_eq (b : Block) (pc : UInt32) :
    b.handlerFor? pc = (b.handlers.filter (·.covers pc)).foldl narrower none := rfl

/-- A handler that is found is one of the block. -/
theorem mem_of_handlerFor? (hf : b.handlerFor? pc = some h) : h ∈ b.handlers := by
  rw [handlerFor?_eq] at hf
  rcases foldl_narrower _ hf with ⟨hnone, -⟩ | ⟨pre, post, heq, -⟩
  · cases hnone
  · have hmem : h ∈ b.handlers.filter (·.covers pc) := by simp [heq]
    exact (List.mem_filter.mp hmem).1

/-- **No handler is found** only where none covers the instruction. -/
theorem handlerFor?_eq_none_iff :
    b.handlerFor? pc = none ↔ ∀ h ∈ b.handlers, h.covers pc = false := by
  rw [handlerFor?_eq]
  constructor
  · intro hnone h hmem
    by_contra hc
    have hmem : h ∈ b.handlers.filter (·.covers pc) :=
      List.mem_filter.mpr ⟨hmem, by simpa using hc⟩
    cases hL : b.handlers.filter (·.covers pc) with
    | nil => simp [hL] at hmem
    | cons k L =>
      obtain ⟨g, hg⟩ := foldl_narrower_some L k
      rw [hL, List.foldl_cons, narrower, hg] at hnone
      cases hnone
  · intro hall
    have : b.handlers.filter (·.covers pc) = [] :=
      List.filter_eq_nil_iff.mpr fun h hmem => by simp [hall h hmem]
    rw [this, List.foldl_nil]

/-- The handler that is found is the innermost one. -/
theorem innermost_of_handlerFor? (hn : b.Nested) (hf : b.handlerFor? pc = some h) :
    b.Innermost pc h := by
  rw [handlerFor?_eq] at hf
  rcases foldl_narrower _ hf with ⟨hnone, -⟩ | ⟨pre, post, heq, hpre, hpost, -⟩
  · cases hnone
  · -- the handlers before it in the table are those before it in the scan, and some that do not cover
    obtain ⟨pre', post', hsplit, hpre', hpost'⟩ := List.filter_eq_append_iff.mp heq
    obtain ⟨skipped, post'', rfl, hskipped, hcovers, hpost''⟩ := List.filter_eq_cons_iff.mp hpost'
    have hmem : h ∈ b.handlers := by simp [hsplit]
    refine ⟨hcovers, fun g hg hgc => ?_, pre' ++ skipped, post'', by simp [hsplit], fun g hg hsame => ?_⟩
    · refine Handler.within_of_width_le hcovers hgc ?_ (hn h hmem g hg)
      have hgf : g ∈ pre ++ h :: post := by
        rw [← heq]
        exact List.mem_filter.mpr ⟨hg, hgc⟩
      rcases List.mem_append.mp hgf with hg | hg
      · exact UInt32.le_of_lt (hpre g hg)
      · rcases List.mem_cons.mp hg with rfl | hg
        · exact UInt32.le_refl _
        · exact hpost g hg
    · have hgc : g.covers pc := by
        unfold Handler.covers at hcovers ⊢
        rwa [hsame.1, hsame.2]
      rcases List.mem_append.mp hg with hg | hg
      · have hlt := hpre g (by rw [← hpre']; exact List.mem_filter.mpr ⟨hg, hgc⟩)
        unfold Handler.width at hlt
        rw [hsame.1, hsame.2] at hlt
        exact UInt32.lt_irrefl _ hlt
      · exact hskipped g hg hgc

/-- **The innermost handler is found.** -/
theorem handlerFor?_eq_some_iff (hn : b.Nested) :
    b.handlerFor? pc = some h ↔ b.Innermost pc h := by
  refine ⟨innermost_of_handlerFor? hn, fun hh => ?_⟩
  cases hf : b.handlerFor? pc with
  | none =>
    obtain ⟨pre, post, heq, -⟩ := hh.first
    have := handlerFor?_eq_none_iff.mp hf h (by simp [heq])
    rw [hh.covers] at this
    cases this
  | some g => rw [(innermost_of_handlerFor? hn hf).unique hh]

end Block

end ScriptMachine
