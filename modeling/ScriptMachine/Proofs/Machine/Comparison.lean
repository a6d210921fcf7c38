import ScriptMachine.Machine.Operators
import ScriptMachine.Proofs.Value.Types

/-! # Comparisons

Strict equality looks at one thing of each value, its `Comparand`: a number, the text of a string, or a
word (`Machine.strictEquals_eq`). That makes it symmetric and transitive, and reflexive but for NaNs, and
strictly equal values have one category (`Machine.category_eq_of_strictEquals`). Equality with conversions
treats its two sides alike (`Machine.looseEquals_comm`), and the order of two values turns round with them
(`Machine.compare?_swap`). The operators answer what these functions say, on two numbers as on all other
values (`applyBinary_comparison`). -/

namespace ScriptMachine

/-! ### Numbers -/

namespace Binary64

theorem eq_iff {x y : Binary64} :
    x.eq y = true ↔ x.isNaN = false ∧ y.isNaN = false ∧ x.orderKey = y.orderKey := by
  simp [eq, and_assoc]

theorem eq_comm (x y : Binary64) : x.eq y = y.eq x := by
  rw [Bool.eq_iff_iff, eq_iff, eq_iff]
  constructor
  · rintro ⟨hx, hy, hkey⟩
    exact ⟨hy, hx, hkey.symm⟩
  · rintro ⟨hy, hx, hkey⟩
    exact ⟨hx, hy, hkey.symm⟩

theorem eq_trans {x y z : Binary64} (hxy : x.eq y = true) (hyz : y.eq z = true) :
    x.eq z = true := by
  obtain ⟨hx, -, hkey⟩ := eq_iff.mp hxy
  obtain ⟨-, hz, hkey'⟩ := eq_iff.mp hyz
  exact eq_iff.mpr ⟨hx, hz, hkey.trans hkey'⟩

theorem eq_self (x : Binary64) : x.eq x = !x.isNaN := by simp [eq]

end Binary64

namespace Machine

/-- **The order of two numbers** is that of their keys. -/
theorem compareNumbers_eq (x y : Binary64) : compareNumbers x y =
    if x.isNaN || y.isNaN then none else some (compare x.orderKey.toInt y.orderKey.toInt) := by
  cases hx : x.isNaN
  case true => simp [compareNumbers, Binary64.lt, Binary64.eq, hx]
  case false =>
    cases hy : y.isNaN
    case true => simp [compareNumbers, Binary64.lt, Binary64.eq, hy]
    case false =>
      have hkey : x.orderKey = y.orderKey ↔ x.orderKey.toInt = y.orderKey.toInt := Int64.toInt_inj.symm
      simp only [compareNumbers, Binary64.lt, Binary64.eq, hx, hy, Int64.lt_iff_toInt_lt, Bool.not_false,
        Bool.true_and, Bool.or_false, Bool.false_eq_true, if_false, decide_eq_true_eq, beq_iff_eq, hkey]
      generalize x.orderKey.toInt = i
      generalize y.orderKey.toInt = j
      rcases Int.lt_trichotomy i j with h | h | h
      · rw [if_pos h, Int.compare_eq_lt.mpr h]
      · rw [if_neg (by omega), if_neg (by omega), if_pos h, Int.compare_eq_eq.mpr h]
      · rw [if_neg (by omega), if_pos h, Int.compare_eq_gt.mpr h]

theorem compareNumbers_swap (x y : Binary64) :
    compareNumbers y x = (compareNumbers x y).map Ordering.swap := by
  rw [compareNumbers_eq, compareNumbers_eq, Bool.or_comm]
  split
  · rfl
  · rw [Option.map_some, Int.compare_swap]

theorem lt_eq (x y : Binary64) : x.lt y = (compareNumbers x y == some .lt) := by
  unfold compareNumbers
  cases x.lt y
  case true => rfl
  case false => cases y.lt x <;> cases x.eq y <;> rfl

theorem le_eq (x y : Binary64) :
    x.le y = (compareNumbers x y == some .lt || compareNumbers x y == some .eq) := by
  rw [compareNumbers_eq]
  cases hx : x.isNaN
  case true => simp [Binary64.le, hx]
  case false =>
    cases hy : y.isNaN
    case true => simp [Binary64.le, hy]
    case false =>
      simp only [Binary64.le, hx, hy, Int64.le_iff_toInt_le, Bool.not_false, Bool.true_and,
        Bool.or_false, Bool.false_eq_true, if_false]
      generalize x.orderKey.toInt = i
      generalize y.orderKey.toInt = j
      rcases Int.lt_trichotomy i j with h | h | h
      · simp [Int.compare_eq_lt.mpr h, Int.le_of_lt h]
      · simp [h]
      · simp [Int.compare_eq_gt.mpr h, h]

/-! ### Texts -/

theorem compareUnits_swap (as bs : List UInt16) : compareUnits bs as = (compareUnits as bs).swap := by
  induction as generalizing bs with
  | nil => cases bs <;> rfl
  | cons a as ih =>
    cases bs with
    | nil => rfl
    | cons b bs =>
      unfold compareUnits
      by_cases hab : a < b
      · rw [if_neg (UInt16.lt_asymm hab), if_pos hab, if_pos hab]
        rfl
      · by_cases hba : b < a
        · rw [if_pos hba, if_neg hab, if_pos hba]
          rfl
        · rw [if_neg hba, if_neg hab, if_neg hab, if_neg hba, ih]

/-! ### Strict equality -/

/-- What a value is compared by if nothing is converted. -/
inductive Comparand where
  /-- A number. -/
  | number (x : Binary64)
  /-- The text of a string. -/
  | text (s : String)
  /-- A word, that of undefined for the hole. -/
  | word (w : UInt64)

namespace Comparand

/-- The two are equal: numbers numerically, all else as it is. -/
def same : Comparand → Comparand → Bool
  | .number x, .number y => x.eq y
  | .text s, .text t => s == t
  | .word u, .word w => u == w
  | _, _ => false

theorem same_comm (p q : Comparand) : p.same q = q.same p := by
  cases p <;> cases q <;> try rfl
  case number.number x y => exact Binary64.eq_comm x y
  case text.text s t => exact Bool.beq_comm
  case word.word u w => exact Bool.beq_comm

theorem same_trans {p q r : Comparand} (hpq : p.same q = true) (hqr : q.same r = true) :
    p.same r = true := by
  cases q with
  | number y =>
    cases p <;> try cases hpq
    cases r <;> try cases hqr
    exact Binary64.eq_trans hpq hqr
  | text t =>
    cases p <;> try cases hpq
    cases r <;> try cases hqr
    rw [same, beq_iff_eq] at *
    exact hpq.trans hqr
  | word w =>
    cases p <;> try cases hpq
    cases r <;> try cases hqr
    rw [same, beq_iff_eq] at *
    exact hpq.trans hqr

end Comparand

variable {m : Machine} {a b c v : Value}

/-- What a value is compared by. -/
def comparand (m : Machine) (v : Value) : Comparand :=
  match v.number? with
  | some x => .number x
  | none =>
    match m.stringValue? v with
    | some s => .text s
    | none => .word (comparedWord v)

/-- A number is no string. -/
theorem stringValue?_of_number? {x : Binary64} (h : v.number? = some x) : m.stringValue? v = none := by
  have hcell : v.cell? = none := by
    cases hv : v.cell? with
    | none => rfl
    | some id =>
      rw [Value.cell?_eq_some.mp hv, Value.number?_cell] at h
      cases h
  simp [stringValue?, Heap.cellOf?, hcell]

theorem eq_hole_of_isHole (h : v.isHole = true) : v = .hole := by
  obtain ⟨w⟩ := v
  exact congrArg Value.mk (beq_iff_eq.mp h)

/-- Reading the hole as undefined makes a number of nothing. -/
theorem number?_comparedWord (v : Value) : (Value.mk (comparedWord v)).number? = v.number? := by
  unfold comparedWord
  split
  case isTrue h =>
    rw [eq_hole_of_isHole h]
    decide
  case isFalse => rfl

/-- The hole and undefined are of one category. -/
theorem category_comparedWord (m : Machine) (v : Value) :
    m.category ⟨comparedWord v⟩ = m.category v := by
  unfold comparedWord
  split
  case isTrue h =>
    rw [eq_hole_of_isHole h]
    rfl
  case isFalse => rfl

/-- **Strict equality** is equality of what the values are compared by. -/
theorem strictEquals_eq (m : Machine) (a b : Value) :
    m.strictEquals a b = (m.comparand a).same (m.comparand b) := by
  have hapart {u w : Value} {x : Binary64} (hu : u.number? = some x) (hw : w.number? = none) :
      comparedWord u ≠ comparedWord w := by
    intro heq
    have hnumber := number?_comparedWord u
    rw [heq, number?_comparedWord w, hu, hw] at hnumber
    cases hnumber
  unfold strictEquals comparand
  cases ha : a.number? with
  | some x =>
    cases hb : b.number? with
    | some y => rfl
    | none =>
      simp only [stringValue?_of_number? ha]
      cases m.stringValue? b with
      | some t => rfl
      | none => exact beq_eq_false_iff_ne.mpr (hapart ha hb)
  | none =>
    cases hb : b.number? with
    | some y =>
      simp only [stringValue?_of_number? hb]
      cases m.stringValue? a with
      | some t => rfl
      | none => exact beq_eq_false_iff_ne.mpr (hapart hb ha).symm
    | none => cases m.stringValue? a <;> cases m.stringValue? b <;> rfl

theorem strictEquals_comm (m : Machine) (a b : Value) : m.strictEquals a b = m.strictEquals b a := by
  rw [strictEquals_eq, strictEquals_eq, Comparand.same_comm]

theorem strictEquals_trans (hab : m.strictEquals a b = true) (hbc : m.strictEquals b c = true) :
    m.strictEquals a c = true := by
  rw [strictEquals_eq] at *
  exact Comparand.same_trans hab hbc

/-- Only a NaN differs from itself. -/
theorem strictEquals_self (m : Machine) (a : Value) :
    m.strictEquals a a = !a.number?.any Binary64.isNaN := by
  rw [strictEquals_eq, comparand]
  cases a.number? with
  | some x => exact x.eq_self
  | none =>
    cases m.stringValue? a with
    | some s => exact beq_self_eq_true s
    | none => exact beq_self_eq_true (comparedWord a)

theorem category_of_number? {x : Binary64} (h : v.number? = some x) : m.category v = .number := by
  unfold Value.number? at h
  unfold category
  split at h
  case h_1 n hdecode => rw [hdecode]
  case h_2 => cases h

theorem category_of_stringValue? {s : String} (h : m.stringValue? v = some s) :
    m.category v = .string := by
  cases hv : v.cell? with
  | none =>
    rw [stringValue?, Heap.cellOf?, hv] at h
    cases h
  | some id =>
    obtain rfl := Value.cell?_eq_some.mp hv
    rw [category, Value.decode_cell, h]
    rfl

/-- The category of what a value is compared by. -/
def Comparand.category (m : Machine) : Comparand → Category
  | .number _ => .number
  | .text _ => .string
  | .word w => m.category ⟨w⟩

theorem category_comparand (m : Machine) (v : Value) : (m.comparand v).category m = m.category v := by
  unfold comparand
  cases hx : v.number? with
  | some x => exact (category_of_number? hx).symm
  | none =>
    cases hs : m.stringValue? v with
    | some s => exact (category_of_stringValue? hs).symm
    | none => exact category_comparedWord m v

/-- **Strictly equal values are of one category.** -/
theorem category_eq_of_strictEquals (h : m.strictEquals a b = true) : m.category a = m.category b := by
  rw [strictEquals_eq] at h
  rw [← category_comparand m a, ← category_comparand m b]
  cases hp : m.comparand a <;> cases hq : m.comparand b <;> rw [hp, hq] at h <;> try cases h
  case number.number => rfl
  case text.text => rfl
  case word.word u w =>
    obtain rfl : u = w := eq_of_beq h
    rfl

/-! ### Equality with conversions -/

theorem convertedEquals_comm (m : Machine) (a b : Value) :
    m.convertedEquals a b = m.convertedEquals b a := by
  unfold convertedEquals
  rw [strictEquals_comm m b a, Binary64.eq_comm (m.toNumber b), Bool.beq_comm (a := m.display b)]
  cases m.category a <;> cases m.category b <;> rfl

theorem looseEquals_comm (m : Machine) (a b : Value) : m.looseEquals a b = m.looseEquals b a := by
  unfold looseEquals
  rw [strictEquals_comm m b a, convertedEquals_comm m b a,
    convertedEquals_comm m (.number (m.toNumber b)) a, convertedEquals_comm m b (.number (m.toNumber a))]
  cases m.category a <;> cases m.category b <;> rfl

theorem looseEquals_of_strictEquals (h : m.strictEquals a b = true) : m.looseEquals a b = true := by
  rw [looseEquals, if_pos (category_eq_of_strictEquals h), h]

/-! ### Order -/

/-- **The order turns round** with the values. -/
theorem compare?_swap (m : Machine) (a b : Value) :
    m.compare? b a = (m.compare? a b).map Ordering.swap := by
  have hgeneral : (if m.isTextual b && m.isTextual a then
        some (compareTexts (m.display b) (m.display a))
      else compareNumbers (m.toNumber b) (m.toNumber a)) =
      (if m.isTextual a && m.isTextual b then some (compareTexts (m.display a) (m.display b))
      else compareNumbers (m.toNumber a) (m.toNumber b)).map Ordering.swap := by
    rw [Bool.and_comm]
    split
    · rw [Option.map_some, compareTexts, compareTexts, compareUnits_swap]
    · exact compareNumbers_swap _ _
  unfold compare?
  cases a.number? with
  | none => cases b.number? <;> exact hgeneral
  | some x =>
    cases b.number? with
    | none => exact hgeneral
    | some y => exact compareNumbers_swap x y

/-! ### Operators -/

/-- What a comparison answers by equality and order of any two values; `false` for the other operators. -/
def compares (m : Machine) (op : BinaryOp) (a b : Value) : Bool :=
  match op with
  | .less => m.compare? a b == some .lt
  | .lessEq => m.compare? a b == some .lt || m.compare? a b == some .eq
  | .greater => m.compare? a b == some .gt
  | .greaterEq => m.compare? a b == some .gt || m.compare? a b == some .eq
  | .equal => m.looseEquals a b
  | .notEqual => !m.looseEquals a b
  | .strictEqual => m.strictEquals a b
  | .strictNotEqual => !m.strictEquals a b
  | _ => false

/-- **Two numbers compare as any two values do.** -/
theorem onNumbers_eq {op : BinaryOp} {x y : Binary64} (hop : op.isComparison = true)
    (ha : a.number? = some x) (hb : b.number? = some y) :
    op.onNumbers x y = .boolean (m.compares op a b) := by
  have hcompare : m.compare? a b = compareNumbers x y := by rw [compare?, ha, hb]
  have hstrict : m.strictEquals a b = x.eq y := by rw [strictEquals, ha, hb]
  have hloose : m.looseEquals a b = x.eq y := by
    have hcategory : m.category a = m.category b := by
      rw [category_of_number? ha, category_of_number? hb]
    rw [looseEquals, if_pos hcategory, hstrict]
  have hgreater (o : Ordering) : (compareNumbers x y == some o.swap) = (compareNumbers y x == some o) := by
    rw [compareNumbers_swap x y]
    cases compareNumbers x y with
    | none => rfl
    | some o' => cases o <;> cases o' <;> rfl
  cases op <;> cases hop
  case less => simp only [BinaryOp.onNumbers, compares, hcompare, lt_eq]
  case lessEq => simp only [BinaryOp.onNumbers, compares, hcompare, le_eq]
  case greater => simp only [BinaryOp.onNumbers, compares, hcompare, lt_eq, ← hgreater, Ordering.swap]
  case greaterEq =>
    simp only [BinaryOp.onNumbers, compares, hcompare, le_eq, ← hgreater, Ordering.swap]
  case equal => rw [BinaryOp.onNumbers, compares, hloose]
  case notEqual => rw [BinaryOp.onNumbers, compares, hloose]
  case strictEqual => rw [BinaryOp.onNumbers, compares, hstrict]
  case strictNotEqual => rw [BinaryOp.onNumbers, compares, hstrict]

theorem compares_greater (m : Machine) (a b : Value) :
    m.compares .greater b a = m.compares .less a b ∧
      m.compares .greaterEq b a = m.compares .lessEq a b := by
  simp only [compares, compare?_swap m a b]
  cases m.compare? a b with
  | none => exact ⟨rfl, rfl⟩
  | some o => cases o <;> exact ⟨rfl, rfl⟩

end Machine

open Machine

/-- **A comparison** never fails, and leaves the machine alone. -/
theorem applyBinary_comparison {op : BinaryOp} (hop : op.isComparison = true) (env : Env) (m : Machine)
    (a b : Value) : applyBinary op a b env m = .ok (.boolean (m.compares op a b)) m := by
  unfold applyBinary
  cases ha : a.number? with
  | none => cases op <;> cases hop <;> rfl
  | some x =>
    cases hb : b.number? with
    | none => cases op <;> cases hop <;> rfl
    | some y =>
      rw [← onNumbers_eq hop ha hb]
      rfl

/-- **Equality and order are coherent.** Strict equality is symmetric and transitive, only a NaN differs
from itself, and it implies equality with conversions, which is symmetric; less and greater are each
other turned round, also where they include equality; the negated equalities answer the opposite; and on
two numbers every comparison answers what the general functions say. -/
theorem comparisons_cohere (env : Env) (m : Machine) (a b c : Value) :
    m.strictEquals a b = m.strictEquals b a ∧
    (m.strictEquals a b = true → m.strictEquals b c = true → m.strictEquals a c = true) ∧
    m.strictEquals a a = !a.number?.any Binary64.isNaN ∧
    (m.strictEquals a b = true → m.looseEquals a b = true) ∧
    m.looseEquals a b = m.looseEquals b a ∧
    applyBinary .less a b env m = applyBinary .greater b a env m ∧
    applyBinary .lessEq a b env m = applyBinary .greaterEq b a env m ∧
    (applyBinary .equal a b env m = .ok (.boolean (m.looseEquals a b)) m ∧
      applyBinary .notEqual a b env m = .ok (.boolean (!m.looseEquals a b)) m) ∧
    (applyBinary .strictEqual a b env m = .ok (.boolean (m.strictEquals a b)) m ∧
      applyBinary .strictNotEqual a b env m = .ok (.boolean (!m.strictEquals a b)) m) ∧
    ∀ (op : BinaryOp) (x y : Binary64), op.isComparison = true → a.number? = some x →
      b.number? = some y → op.onNumbers x y = .boolean (m.compares op a b) := by
  have hanswer (op : BinaryOp) (hop : op.isComparison = true) (u w : Value) :=
    applyBinary_comparison hop env m u w
  obtain ⟨hless, hlessEq⟩ := compares_greater m a b
  refine ⟨strictEquals_comm m a b, strictEquals_trans, strictEquals_self m a,
    looseEquals_of_strictEquals, looseEquals_comm m a b, ?_, ?_, ⟨hanswer .equal rfl a b,
      hanswer .notEqual rfl a b⟩, ⟨hanswer .strictEqual rfl a b, hanswer .strictNotEqual rfl a b⟩, ?_⟩
  · rw [hanswer .less rfl, hanswer .greater rfl, hless]
  · rw [hanswer .lessEq rfl, hanswer .greaterEq rfl, hlessEq]
  · exact fun op x y hop ha hb => onNumbers_eq hop ha hb

/-- A machine with three strings of one text. -/
def echoing : Machine where
  config := {}
  heap := { Heap.new {} with
    slots := #[{ cell := some (Cell.new ⟨0⟩ 0 (.string "ab")) },
      { cell := some (Cell.new ⟨0⟩ 0 (.string "ab")) },
      { cell := some (Cell.new ⟨0⟩ 0 (.string "ab")) }] }
  registers := { registers := #[], capacity := 10 }
  intrinsics := default
  names := default
  watchdog := .new none 1

/-- Strings of one text are strictly equal, and so are the two zeros, though their words differ. -/
theorem comparisons_cohere_echoing :
    let text (index : UInt32) : Value := .cell ⟨index, 0⟩
    let zero : Value := .number .zero
    let negZero : Value := .number .negZero
    (echoing.strictEquals (text 0) (text 1) = true ∧ echoing.strictEquals (text 1) (text 2) = true ∧
      echoing.strictEquals (text 0) (text 2) = true ∧ echoing.looseEquals (text 0) (text 1) = true) ∧
    (BinaryOp.isComparison .lessEq = true ∧ zero.number? = some .zero ∧
      negZero.number? = some .negZero ∧
      BinaryOp.onNumbers .lessEq .zero .negZero = .boolean (echoing.compares .lessEq zero negZero)) := by
  intro text zero negZero
  let env : Env := { reenter := fun _ m => .error .exhausted m, fuel := 0 }
  have hfirst : echoing.strictEquals (text 0) (text 1) = true := by decide
  have hsecond : echoing.strictEquals (text 1) (text 2) = true := by decide
  have hzero : zero.number? = some .zero := by decide
  have hnegZero : negZero.number? = some .negZero := by decide
  obtain ⟨-, htrans, -, hloose, -⟩ := comparisons_cohere env echoing (text 0) (text 1) (text 2)
  obtain ⟨-, -, -, -, -, -, -, -, -, hnumbers⟩ := comparisons_cohere env echoing zero negZero zero
  exact ⟨⟨hfirst, hsecond, htrans hfirst hsecond, hloose hfirst⟩,
    rfl, hzero, hnegZero, hnumbers .lessEq .zero .negZero rfl hzero hnegZero⟩

end ScriptMachine
