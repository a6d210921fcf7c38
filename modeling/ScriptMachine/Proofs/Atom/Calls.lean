import ScriptMachine.Proofs.Number.Indices

/-! # Sequences of calls on the table of names

Whatever is asked of a table, it stays in order (`AtomCall.run_spec`), and its entries are the names
interned so far, each once (`names_after`). An answer given in the course of a sequence is the atom that
the last table has for the name (`get?_of_mem_log`), so what is known of the last table is known of all
answers: atoms and names determine each other, an atom is an array index exactly if its name is the
decimal text of one, and a number and its text are the same index (`atoms_stand_for_names`). -/

namespace ScriptMachine

/-- A call on the table of names. -/
inductive AtomCall where
  /-- The atom of a name, which is interned if needed. -/
  | intern (name : String)
  /-- The atom of the text of an index, which is interned if needed. -/
  | internIndex (index : UInt32)
  /-- The atom of a name, if it has one. -/
  | get (name : String)
deriving DecidableEq, Repr

namespace AtomCall

/-- The name that a call asks for. -/
def name : AtomCall → String
  | .intern name | .get name => name
  | .internIndex index => indexName index

/-- The call may add the name it asks for. -/
def interns : AtomCall → Bool
  | .get _ => false
  | .intern _ | .internIndex _ => true

/-- What a call answers, and the table it leaves. -/
def run (t : AtomTable) : AtomCall → Option Atom × AtomTable
  | .intern name => (some (t.intern name).1, (t.intern name).2)
  | .internIndex index => (some (t.internIndex index).1, (t.internIndex index).2)
  | .get name => (t.get? name, t)

/-- The names that a sequence of calls interns, in the order of the calls. -/
def interned (calls : List AtomCall) : List String := (calls.filter (·.interns)).map (·.name)

theorem interned_concat (calls : List AtomCall) (call : AtomCall) : interned (calls ++ [call]) =
    if call.interns then interned calls ++ [call.name] else interned calls := by
  cases hi : call.interns <;> simp [interned, hi]

end AtomCall

/-- A new element at the end counts if it is not there before. -/
theorem eraseDups_concat (l : List String) (a : String) :
    (l ++ [a]).eraseDups = if a ∈ l then l.eraseDups else l.eraseDups ++ [a] := by
  rw [List.eraseDups_append]
  split
  case isTrue hold => simp [List.removeAll, hold]
  case isFalse hnew => simp [List.removeAll, hnew, List.eraseDups_cons]

namespace AtomTable

/-- The table that a sequence of calls leaves. -/
def after (t : AtomTable) : List AtomCall → AtomTable
  | [] => t
  | call :: calls => (call.run t).2.after calls

/-- The calls of a sequence with their answers. -/
def log (t : AtomTable) : List AtomCall → List (AtomCall × Option Atom)
  | [] => []
  | call :: calls => (call, (call.run t).1) :: (call.run t).2.log calls

/-- The names of the entries. -/
def names (t : AtomTable) : List String := t.entries.toList.map (·.name)

end AtomTable

/-! ### Texts of indices -/

/-- **The texts of array indices** are the decimal texts of the numbers below `2 ^ 32 - 1`. -/
theorem arrayIndexOf?_eq_some_iff {name : String} {index : UInt32} :
    arrayIndexOf? name = some index ↔ index.toNat < 2 ^ 32 - 1 ∧ name = toString index.toNat := by
  refine ⟨fun h => ?_, fun ⟨hlt, hname⟩ => hname ▸ arrayIndexOf?_indexName hlt⟩
  have hname := eq_indexName h
  refine ⟨?_, hname⟩
  rw [hname, indexName, Nat.toString_eq_ofList_toDigits, arrayIndexOf?_digits] at h
  split at h
  case isTrue hlt => exact hlt
  case isFalse => cases h

namespace AtomTable

variable {t : AtomTable} {calls : List AtomCall} {call : AtomCall} {atom : Atom}

/-! ### One table -/

theorem length_names (t : AtomTable) : t.names.length = t.entries.size := by simp [names]

/-- The names that have an atom are the names of the entries. -/
theorem Ordered.mem_names (ho : t.Ordered) {name : String} :
    name ∈ t.names ↔ ∃ atom, t.get? name = some atom := by
  rw [names, List.mem_map]
  constructor
  · rintro ⟨entry, hmem, rfl⟩
    obtain ⟨i, hi⟩ := List.mem_iff_getElem?.mp hmem
    exact ⟨_, ho.listed i entry (by rwa [Array.getElem?_toList] at hi)⟩
  · rintro ⟨atom, hn⟩
    obtain ⟨i, entry, hi, hname, -⟩ := ho.found name atom hn
    exact ⟨entry, List.mem_iff_getElem?.mpr ⟨i, by rwa [Array.getElem?_toList]⟩, hname⟩

/-- The atom of a name has this name. -/
theorem name_of_get? (ho : t.Ordered) (hf : t.Fits) {name : String} (hn : t.get? name = some atom) :
    t.name atom = name := by
  obtain ⟨i, entry, hi, rfl, rfl⟩ := ho.found name atom hn
  have hlt := (Array.getElem?_eq_some_iff.mp hi).1
  have hsame : i.toUInt32.toNat = i := UInt32.toNat_ofNat_of_lt' (Nat.lt_of_lt_of_le hlt hf)
  simp only [AtomTable.name, hsame, hi]

/-- Interning adds a name that is new at the end. -/
theorem names_intern (ho : t.Ordered) (name : String) :
    (t.intern name).2.names = if name ∈ t.names then t.names else t.names ++ [name] := by
  unfold intern
  cases hl : t.lookup[name]? with
  | some atom => rw [if_pos (ho.mem_names.mpr ⟨atom, hl⟩)]
  | none =>
    rw [if_neg fun hmem => ?_]
    · simp [names]
    · obtain ⟨atom, hn⟩ := ho.mem_names.mp hmem
      rw [get?, hl] at hn
      cases hn

/-! ### One call -/

/-- **A call** keeps the table in order and its entries at their places, and answers what the table
that it leaves has for the name. -/
theorem run_spec (ho : t.Ordered) (call : AtomCall) :
    (call.run t).2.Ordered ∧ (call.run t).2.Extends t ∧
      (call.run t).1 = (call.run t).2.get? call.name := by
  cases call with
  | intern name =>
    obtain ⟨ho', hext, hl⟩ := intern_spec ho name
    exact ⟨ho', hext, hl.symm⟩
  | internIndex index =>
    obtain ⟨ho', hext, hl⟩ := intern_spec ho (indexName index)
    exact ⟨ho', hext, hl.symm⟩
  | get name => exact ⟨ho, .refl t, rfl⟩

/-- A call that interns adds its name if it is new, and another call adds nothing. -/
theorem names_run (ho : t.Ordered) (call : AtomCall) : (call.run t).2.names =
    if call.interns then (if call.name ∈ t.names then t.names else t.names ++ [call.name])
    else t.names := by
  cases call with
  | intern name => exact names_intern ho name
  | internIndex index => exact names_intern ho (indexName index)
  | get name => rfl

/-! ### A sequence of calls -/

theorem after_append (t : AtomTable) (calls calls' : List AtomCall) :
    t.after (calls ++ calls') = (t.after calls).after calls' := by
  induction calls generalizing t with
  | nil => rfl
  | cons call calls ih => exact ih _

/-- **A sequence of calls** keeps the table in order and its entries at their places. -/
theorem after_spec (ho : t.Ordered) (calls : List AtomCall) :
    (t.after calls).Ordered ∧ (t.after calls).Extends t := by
  induction calls generalizing t with
  | nil => exact ⟨ho, .refl t⟩
  | cons call calls ih =>
    obtain ⟨ho', hext, -⟩ := run_spec ho call
    obtain ⟨hlast, hext'⟩ := ih ho'
    exact ⟨hlast, hext'.trans hext⟩

/-- An answer given in the course of a sequence is the one that the last table gives. -/
theorem get?_of_mem_log (ho : t.Ordered) (h : (call, some atom) ∈ t.log calls) :
    (t.after calls).get? call.name = some atom := by
  induction calls generalizing t with
  | nil => cases h
  | cons first calls ih =>
    obtain ⟨ho', -, hanswer⟩ := run_spec ho first
    rcases List.mem_cons.mp h with heq | hrest
    · obtain ⟨rfl, hsome⟩ := Prod.mk.inj heq
      obtain ⟨hlast, hext⟩ := after_spec ho' calls
      exact hext.get? ho' hlast (hanswer.symm.trans hsome.symm)
    · exact ih ho' hrest

theorem isSome_of_mem_log {answer : Option Atom} (h : (call, answer) ∈ t.log calls)
    (hi : call.interns = true) : answer.isSome = true := by
  induction calls generalizing t with
  | nil => cases h
  | cons first calls ih =>
    rcases List.mem_cons.mp h with heq | hrest
    · obtain ⟨rfl, rfl⟩ := Prod.mk.inj heq
      cases call with
      | intern name => rfl
      | internIndex index => rfl
      | get name => cases hi
    · exact ih hrest

/-- **The entries of a table** are the names that were interned, each once, in the order in which they
first came. -/
theorem names_after (calls : List AtomCall) :
    (after {} calls).names = (AtomCall.interned calls).eraseDups := by
  induction calls using List.reverseRecOn with
  | nil => rfl
  | append_singleton calls call ih =>
    obtain ⟨ho, -⟩ := after_spec .empty calls
    rw [after_append]
    change (call.run _).2.names = _
    rw [names_run ho, ih, AtomCall.interned_concat]
    split
    case isTrue => simp only [eraseDups_concat, List.mem_eraseDups]
    case isFalse => rfl

end AtomTable

/-- **Atoms stand for names.** As long as numbers of 32 bits tell the names apart, after every
sequence of calls on a new table:

* the entries are the names interned, each once, so that no look-up adds one, and a name has an atom
  exactly if it was interned;
* calls that intern are answered;
* an atom handed out at any time keeps its name, which is the name it was asked for, and different names
  have different atoms;
* an atom is an array index exactly if its name is the decimal text of a number below `2 ^ 32 - 1`, and
  a number whose text is that name is the same index. -/
theorem atoms_stand_for_names (calls : List AtomCall)
    (hfit : (AtomCall.interned calls).eraseDups.length ≤ 2 ^ 32) :
    (AtomTable.after {} calls).names = (AtomCall.interned calls).eraseDups ∧
    (∀ name, (∃ atom, (AtomTable.after {} calls).get? name = some atom) ↔
      name ∈ AtomCall.interned calls) ∧
    (∀ call answer, (call, answer) ∈ AtomTable.log {} calls → call.interns = true →
      answer.isSome = true) ∧
    (∀ earlier later, calls = earlier ++ later → ∀ atom, (AtomTable.after {} earlier).Knows atom →
      (AtomTable.after {} calls).name atom = (AtomTable.after {} earlier).name atom) ∧
    (∀ call atom, (call, some atom) ∈ AtomTable.log {} calls →
      (AtomTable.after {} calls).name atom = call.name ∧
      (∀ call' atom', (call', some atom') ∈ AtomTable.log {} calls →
        (atom = atom' ↔ call.name = call'.name)) ∧
      (∀ index : UInt32, (AtomTable.after {} calls).arrayIndex? atom = some index ↔
        index.toNat < 2 ^ 32 - 1 ∧ call.name = toString index.toNat) ∧
      ∀ x : Binary64, x.text = call.name →
        (Value.number x).arrayIndex? = (AtomTable.after {} calls).arrayIndex? atom) := by
  obtain ⟨ho, -⟩ := AtomTable.after_spec .empty calls
  have hnames := AtomTable.names_after calls
  have hf : (AtomTable.after {} calls).Fits := by
    rw [AtomTable.Fits, ← AtomTable.length_names, hnames]
    exact hfit
  refine ⟨hnames, fun name => ?_, fun call answer => AtomTable.isSome_of_mem_log, ?_,
    fun call atom h => ?_⟩
  · rw [← ho.mem_names, hnames, List.mem_eraseDups]
  · rintro earlier later rfl atom hk
    obtain ⟨ho', -⟩ := AtomTable.after_spec .empty earlier
    rw [AtomTable.after_append]
    exact (AtomTable.after_spec ho' later).2.name hk
  · have hget := AtomTable.get?_of_mem_log .empty h
    have hname := AtomTable.name_of_get? ho hf hget
    have hindex := AtomTable.arrayIndex?_of_get? ho hf hget
    refine ⟨hname, fun call' atom' h' => ?_, fun index => ?_, fun x hx => ?_⟩
    · have hget' := AtomTable.get?_of_mem_log .empty h'
      constructor
      · rintro rfl
        exact hname.symm.trans (AtomTable.name_of_get? ho hf hget')
      · intro heq
        rw [heq] at hget
        exact Option.some.inj (hget.symm.trans hget')
    · rw [hindex, arrayIndexOf?_eq_some_iff]
    · rw [hindex, arrayIndex?_number, hx]

/-- The index 7 is interned as the text that a look-up then finds; a leading zero makes another name. -/
theorem atoms_stand_for_names_seven :
    let calls := [.intern "x", .intern "07", .internIndex 7, .get "7", .get "y"]
    (AtomCall.interned calls).eraseDups.length ≤ 2 ^ 32 ∧
    (AtomTable.after {} calls).names = ["x", "07", "7"] ∧
    (¬∃ atom, (AtomTable.after {} calls).get? "y" = some atom) ∧
    (∀ atom, (.get "7", some atom) ∈ AtomTable.log {} calls →
      (AtomTable.after {} calls).arrayIndex? atom = some 7) ∧
    ∀ atom, (.intern "07", some atom) ∈ AtomTable.log {} calls →
      (AtomTable.after {} calls).arrayIndex? atom ≠ some 7 := by
  intro calls
  have hnames : (AtomCall.interned calls).eraseDups = ["x", "07", "7"] := by decide
  have hfit : (AtomCall.interned calls).eraseDups.length ≤ 2 ^ 32 := by rw [hnames]; decide
  obtain ⟨hentries, hknown, -, -, hatoms⟩ := atoms_stand_for_names calls hfit
  refine ⟨hfit, hentries.trans hnames, ?_, fun atom h => ?_, fun atom h hseven => ?_⟩
  · rw [hknown]
    decide
  · exact ((hatoms _ atom h).2.2.1 7).mpr ⟨by decide, rfl⟩
  · exact absurd (((hatoms _ atom h).2.2.1 7).mp hseven).2 (by decide)

end ScriptMachine
