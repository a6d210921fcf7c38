import Mathlib.Data.List.Forall2
import ScriptMachine.Program.Block
import ScriptMachine.Proofs.Number.Indices

/-! # Building code blocks

Every step of building a block answers with a number: where a constant, an identifier or an instruction is
found, or the first of the registers that are reserved. `Block.build` takes one step after the other. No
step takes anything away (`Block.Extends`), so what an answer denotes (`Block.Denotes`) it denotes for good,
and the counters hand out one range of numbers after the other (`Block.slots_build`).

Constants are shared when they are equal as numbers, so a constant denotes itself or the other zero
(`Constant.eq_or_zeros`). -/

namespace ScriptMachine

/-! ### Equal constants -/

/-- **Constants that are shared** are one constant, or both zeros. -/
theorem Constant.eq_or_zeros {k c : Constant} (h : (k == c) = true) :
    k = c ∨ ∃ x y : Binary64, k = .number x ∧ c = .number y ∧ x.isZero = true ∧ y.isZero = true := by
  cases k <;> cases c
  case number.number x y =>
    rcases Binary64.eq_or_zeros h with rfl | hzeros
    · exact .inl rfl
    · exact .inr ⟨x, y, rfl, rfl, hzeros⟩
  case string.string s t => exact .inl (congrArg Constant.string (eq_of_beq (α := String) h))
  case boolean.boolean a b => exact .inl (congrArg Constant.boolean (eq_of_beq (α := Bool) h))
  case null.null => exact .inl rfl
  case undefined.undefined => exact .inl rfl
  all_goals cases h

/-! ### Branches -/

/-- The same instruction, but for the target of a branch. -/
def Instruction.Redirects (i' i : Instruction) : Prop :=
  ∃ target, i' = { i with opcode := i.opcode.withTarget target }

theorem Instruction.Redirects.refl (i : Instruction) : i.Redirects i := by
  obtain ⟨opcode, position⟩ := i
  cases opcode
  case jump target => exact ⟨target, rfl⟩
  case loop target => exact ⟨target, rfl⟩
  case jumpIf sense cond target => exact ⟨target, rfl⟩
  all_goals exact ⟨0, rfl⟩

theorem Instruction.Redirects.trans {i i' i'' : Instruction} (h' : i''.Redirects i')
    (h : i'.Redirects i) : i''.Redirects i := by
  obtain ⟨s, rfl⟩ := h
  obtain ⟨t, rfl⟩ := h'
  refine ⟨t, ?_⟩
  cases i.opcode <;> rfl

namespace Block

/-! ### Requests -/

/-- What the builder of a block may ask for. -/
inductive Request where
  /-- An instruction. -/
  | emit (opcode : Opcode) (position : Option SourcePosition)
  /-- A target for a branch. -/
  | patch (place target : UInt32)
  /-- A constant. -/
  | constant (c : Constant)
  /-- An identifier. -/
  | identifier (name : String)
  /-- A nested function. -/
  | function (f : Block)
  /-- The layout of a block scope. -/
  | layout (names : List String)
  /-- An exception handler. -/
  | handler (h : Handler)
  /-- A variable. -/
  | declare (name : String)
  /-- Consecutive temporaries. -/
  | temps (count : UInt32)
  /-- A property cache site. -/
  | propertyCache
  /-- A call cache site. -/
  | callCache

variable {b b' b'' : Block} {i : UInt32} {r : Request}

/-- Does what is asked for, and says where it is found. -/
def answer (b : Block) : Request → UInt32 × Block
  | .emit opcode position => b.emit opcode position
  | .patch place target => (place, b.patchJump place target)
  | .constant c => b.addConstant c
  | .identifier name => b.addIdentifier name
  | .function f => b.addFunction f
  | .layout names => b.addScopeLayout names
  | .handler h => (0, b.addHandler h)
  | .declare name => b.declareVariable name
  | .temps count => b.reserveTemps count
  | .propertyCache => b.addPropertyCache
  | .callCache => b.addCallCache

/-- **Builds a block**, one request after the other. -/
def build (b : Block) : List Request → List (Request × UInt32) × Block
  | [] => ([], b)
  | r :: requests =>
    let (i, b) := b.answer r
    let (answers, b) := b.build requests
    ((r, i) :: answers, b)

/-! ### What answers denote -/

/-- **What a number denotes** that was the answer to a request. Temporaries and cache sites are numbers and
nothing else. -/
def Denotes (b : Block) (i : UInt32) : Request → Prop
  | .emit opcode position => ∃ instruction, b.instructions[i.toNat]? = some instruction ∧
      instruction.Redirects ⟨opcode, position⟩
  | .constant c => ∃ k, b.constants[i.toNat]? = some k ∧
      (k = c ∨ ∃ x y : Binary64, k = .number x ∧ c = .number y ∧ x.isZero = true ∧ y.isZero = true)
  | .identifier name => b.identifiers[i.toNat]? = some name
  | .function f => b.functions[i.toNat]? = some f
  | .layout names => ∃ layout, b.scopeLayouts[i.toNat]? = some layout ∧
      List.Forall₂ (fun index name => b.identifiers[index.toNat]? = some name) layout names
  | .declare name => ∃ identifier, b.variableIds[i.toNat]? = some identifier ∧
      b.identifiers[identifier.toNat]? = some name
  | .patch .. | .handler _ | .temps _ | .propertyCache | .callCache => True

/-- The numbers of 32 bits tell apart what is in the tables. -/
structure Small (b : Block) : Prop where
  instructions : b.instructions.size ≤ UInt32.size
  constants : b.constants.size ≤ UInt32.size
  identifiers : b.identifiers.size ≤ UInt32.size
  functions : b.functions.length ≤ UInt32.size
  scopeLayouts : b.scopeLayouts.size ≤ UInt32.size
  variableIds : b.variableIds.size ≤ UInt32.size

/-- **A block that is built further**: the tables grow at their ends, and instructions stay but for the
targets of branches. -/
structure Extends (b' b : Block) : Prop where
  instructions : b.instructions.size ≤ b'.instructions.size ∧
    ∀ (j : Nat) (x : Instruction), b.instructions[j]? = some x →
      ∃ x', b'.instructions[j]? = some x' ∧ x'.Redirects x
  constants : b.constants.toList <+: b'.constants.toList
  identifiers : b.identifiers.toList <+: b'.identifiers.toList
  functions : b.functions <+: b'.functions
  scopeLayouts : b.scopeLayouts.toList <+: b'.scopeLayouts.toList
  variableIds : b.variableIds.toList <+: b'.variableIds.toList

theorem Extends.refl (b : Block) : b.Extends b where
  instructions := ⟨Nat.le_refl _, fun _ x hx => ⟨x, hx, .refl x⟩⟩
  constants := List.prefix_rfl
  identifiers := List.prefix_rfl
  functions := List.prefix_rfl
  scopeLayouts := List.prefix_rfl
  variableIds := List.prefix_rfl

theorem Extends.trans (h' : b''.Extends b') (h : b'.Extends b) : b''.Extends b where
  instructions := by
    refine ⟨Nat.le_trans h.instructions.1 h'.instructions.1, fun j x hx => ?_⟩
    obtain ⟨x', hx', hr⟩ := h.instructions.2 j x hx
    obtain ⟨x'', hx'', hr'⟩ := h'.instructions.2 j x' hx'
    exact ⟨x'', hx'', hr'.trans hr⟩
  constants := h.constants.trans h'.constants
  identifiers := h.identifiers.trans h'.identifiers
  functions := h.functions.trans h'.functions
  scopeLayouts := h.scopeLayouts.trans h'.scopeLayouts
  variableIds := h.variableIds.trans h'.variableIds

theorem Extends.small (h : b'.Extends b) (hs : b'.Small) : b.Small where
  instructions := Nat.le_trans h.instructions.1 hs.instructions
  constants := Nat.le_trans h.constants.length_le hs.constants
  identifiers := Nat.le_trans h.identifiers.length_le hs.identifiers
  functions := Nat.le_trans h.functions.length_le hs.functions
  scopeLayouts := Nat.le_trans h.scopeLayouts.length_le hs.scopeLayouts
  variableIds := Nat.le_trans h.variableIds.length_le hs.variableIds

/-- What is found in a table is found in one that goes on. -/
theorem getElem?_of_begins {α : Type} {xs ys : Array α} (h : xs.toList <+: ys.toList) {j : Nat} {x : α}
    (hx : xs[j]? = some x) : ys[j]? = some x := by
  obtain ⟨rest, hrest⟩ := h
  rw [← Array.getElem?_toList] at hx ⊢
  rw [← hrest, List.getElem?_append_left (List.getElem?_eq_some_iff.mp hx).1, hx]

/-- **Answers denote for good** what they denote. -/
theorem Denotes.extends (hd : b.Denotes i r) (h : b'.Extends b) : b'.Denotes i r := by
  cases r with
  | emit opcode position =>
    obtain ⟨x, hx, hr⟩ := hd
    obtain ⟨x', hx', hr'⟩ := h.instructions.2 _ x hx
    exact ⟨x', hx', hr'.trans hr⟩
  | constant c =>
    obtain ⟨k, hk, hsame⟩ := hd
    exact ⟨k, getElem?_of_begins h.constants hk, hsame⟩
  | identifier name => exact getElem?_of_begins h.identifiers hd
  | function f =>
    obtain ⟨rest, hrest⟩ := h.functions
    change b'.functions[i.toNat]? = some f
    rw [← hrest, List.getElem?_append_left (List.getElem?_eq_some_iff.mp hd).1]
    exact hd
  | layout names =>
    obtain ⟨layout, hlayout, hnames⟩ := hd
    exact ⟨layout, getElem?_of_begins h.scopeLayouts hlayout,
      hnames.imp fun _ _ => getElem?_of_begins h.identifiers⟩
  | declare name =>
    obtain ⟨identifier, hvariable, hname⟩ := hd
    exact ⟨identifier, getElem?_of_begins h.variableIds hvariable, getElem?_of_begins h.identifiers hname⟩
  | patch | handler | temps | propertyCache | callCache => trivial

/-! ### One step -/

/-- What is appended is found at the number of what was there. -/
theorem getElem?_push_size {α : Type} {xs : Array α} (x : α) (hs : (xs.push x).size ≤ UInt32.size) :
    (xs.push x)[xs.size.toUInt32.toNat]? = some x := by
  rw [Array.size_push] at hs
  rw [show xs.size.toUInt32.toNat = xs.size from UInt32.toNat_ofNat_of_lt' hs,
    Array.getElem?_push_size]

theorem prefix_push {α : Type} (xs : Array α) (x : α) : xs.toList <+: (xs.push x).toList := by
  rw [Array.toList_push]
  exact List.prefix_append _ _

/-- What is found is found at its number. -/
theorem getElem?_of_findIdx? {α : Type} {xs : Array α} {p : α → Bool} {index : Nat}
    (hs : xs.size ≤ UInt32.size) (hf : xs.findIdx? p = some index) :
    ∃ x, xs[index.toUInt32.toNat]? = some x ∧ p x = true := by
  obtain ⟨hlt, hp, -⟩ := Array.findIdx?_eq_some_iff_getElem.mp hf
  rw [show index.toUInt32.toNat = index from UInt32.toNat_ofNat_of_lt' (Nat.lt_of_lt_of_le hlt hs)]
  exact ⟨xs[index], Array.getElem?_eq_getElem hlt, hp⟩

theorem extends_addIdentifier (b : Block) (name : String) : (b.addIdentifier name).2.Extends b := by
  unfold addIdentifier
  split
  · exact .refl b
  · exact { Extends.refl b with identifiers := prefix_push _ _ }

theorem denotes_addIdentifier {name : String} (hs : (b.addIdentifier name).2.Small) :
    (b.addIdentifier name).2.identifiers[(b.addIdentifier name).1.toNat]? = some name := by
  unfold addIdentifier at hs ⊢
  split at hs
  case h_1 index hf =>
    obtain ⟨x, hx, hp⟩ := getElem?_of_findIdx? hs.identifiers hf
    exact hx.trans (congrArg some (eq_of_beq hp))
  case h_2 => exact getElem?_push_size name hs.identifiers

theorem extends_addIdentifiers (b : Block) (names : List String) : (b.addIdentifiers names).2.Extends b := by
  induction names generalizing b with
  | nil => exact .refl b
  | cons name names ih => exact (ih _).trans (b.extends_addIdentifier name)

theorem denotes_addIdentifiers {names : List String} (hs : (b.addIdentifiers names).2.Small) :
    List.Forall₂ (fun index name => (b.addIdentifiers names).2.identifiers[index.toNat]? = some name)
      (b.addIdentifiers names).1 names := by
  induction names generalizing b with
  | nil => exact .nil
  | cons name names ih =>
    have hrest := (b.addIdentifier name).2.extends_addIdentifiers names
    exact .cons (getElem?_of_begins hrest.identifiers (denotes_addIdentifier (hrest.small hs))) (ih hs)

/-- Every request builds on. -/
theorem extends_answer (b : Block) (r : Request) : (b.answer r).2.Extends b := by
  cases r with
  | emit opcode position =>
    refine { Extends.refl b with instructions := ⟨?_, fun j x hx => ⟨x, ?_, .refl x⟩⟩ }
    · exact Nat.le_of_lt (Nat.lt_of_lt_of_eq (Nat.lt_succ_self _) (Array.size_push _).symm)
    · exact getElem?_of_begins (prefix_push _ _) hx
  | patch place target =>
    refine { Extends.refl b with instructions := ⟨Nat.le_of_eq (Array.size_modify ..).symm, ?_⟩ }
    intro j x hx
    change ∃ x', (b.instructions.modify _ _)[j]? = some x' ∧ _
    rw [Array.getElem?_modify, hx]
    split
    · exact ⟨_, rfl, target, rfl⟩
    · exact ⟨x, rfl, .refl x⟩
  | constant c =>
    simp only [answer, addConstant]
    split
    · exact .refl b
    · exact { Extends.refl b with constants := prefix_push _ _ }
  | identifier name => exact b.extends_addIdentifier name
  | function f => exact { Extends.refl b with functions := List.prefix_append _ _ }
  | layout names =>
    exact { b.extends_addIdentifiers names with
      scopeLayouts := (b.extends_addIdentifiers names).scopeLayouts.trans (prefix_push _ _) }
  | declare name =>
    exact { b.extends_addIdentifier name with
      variableIds := (b.extends_addIdentifier name).variableIds.trans (prefix_push _ _) }
  | handler | temps | propertyCache | callCache => exact { Extends.refl b with }

/-- The variables are counted, modulo the numbers of 32 bits. -/
def Counted (b : Block) : Prop := b.varCount = b.variableIds.size.toUInt32

/-- Adding identifiers adds nothing else. -/
theorem frame_addIdentifier (b : Block) (name : String) :
    ∃ identifiers, (b.addIdentifier name).2 = { b with identifiers } := by
  unfold addIdentifier
  split
  · exact ⟨b.identifiers, by cases b; rfl⟩
  · exact ⟨_, rfl⟩

theorem frame_addIdentifiers (b : Block) (names : List String) :
    ∃ identifiers, (b.addIdentifiers names).2 = { b with identifiers } := by
  induction names generalizing b with
  | nil => exact ⟨b.identifiers, by cases b; rfl⟩
  | cons name names ih =>
    obtain ⟨identifiers, heq⟩ := b.frame_addIdentifier name
    obtain ⟨identifiers', heq'⟩ := ih { b with identifiers }
    exact ⟨identifiers', (congrArg (fun b => (b.addIdentifiers names).2) heq).trans heq'⟩

theorem Counted.answer (hb : b.Counted) (r : Request) : (b.answer r).2.Counted := by
  cases r with
  | constant c =>
    simp only [Block.answer, addConstant]
    split <;> exact hb
  | identifier name =>
    obtain ⟨identifiers, heq⟩ := b.frame_addIdentifier name
    change (b.addIdentifier name).2.Counted
    rw [heq]
    exact hb
  | layout names =>
    obtain ⟨identifiers, heq⟩ := b.frame_addIdentifiers names
    change (b.addIdentifiers names).2.Counted
    rw [heq]
    exact hb
  | declare name =>
    obtain ⟨identifiers, heq⟩ := b.frame_addIdentifier name
    change (b.addIdentifier name).2.varCount + 1 =
      ((b.addIdentifier name).2.variableIds.push (b.addIdentifier name).1).size.toUInt32
    rw [heq, Array.size_push]
    change b.varCount + 1 = _
    rw [show b.varCount = _ from hb]
    simp
  | emit | patch | function | handler | temps | propertyCache | callCache => exact hb

/-- **What was asked for** is found. -/
theorem denotes_answer (hb : b.Counted) (hs : (b.answer r).2.Small) :
    (b.answer r).2.Denotes (b.answer r).1 r := by
  cases r with
  | emit opcode position => exact ⟨_, getElem?_push_size _ hs.instructions, .refl _⟩
  | constant c =>
    simp only [answer, addConstant] at hs ⊢
    split at hs
    case h_1 index hf =>
      obtain ⟨k, hk, hsame⟩ := getElem?_of_findIdx? hs.constants hf
      exact ⟨k, hk, Constant.eq_or_zeros hsame⟩
    case h_2 => exact ⟨c, getElem?_push_size c hs.constants, .inl rfl⟩
  | identifier name => exact denotes_addIdentifier hs
  | function f =>
    have hlt : b.functions.length < UInt32.size := by
      have := hs.functions
      simp only [answer, addFunction, List.length_append, List.length_cons, List.length_nil] at this
      omega
    change (b.functions ++ [f])[b.functions.length.toUInt32.toNat]? = some f
    rw [show b.functions.length.toUInt32.toNat = b.functions.length from UInt32.toNat_ofNat_of_lt' hlt,
      List.getElem?_concat_length]
  | layout names =>
    have hsmall : (b.addIdentifiers names).2.Small :=
      { hs with scopeLayouts := Nat.le_trans (prefix_push _ _).length_le hs.scopeLayouts }
    exact ⟨(b.addIdentifiers names).1, getElem?_push_size _ hs.scopeLayouts,
      denotes_addIdentifiers hsmall⟩
  | declare name =>
    have hsmall : (b.addIdentifier name).2.Small :=
      { hs with variableIds := Nat.le_trans (prefix_push _ _).length_le hs.variableIds }
    refine ⟨(b.addIdentifier name).1, ?_, denotes_addIdentifier hsmall⟩
    have hcount : (b.addIdentifier name).2.varCount =
        (b.addIdentifier name).2.variableIds.size.toUInt32 := hb.answer (.identifier name)
    have hfound : ((b.addIdentifier name).2.variableIds.push (b.addIdentifier name).1)[
        (b.addIdentifier name).2.variableIds.size.toUInt32.toNat]? = some (b.addIdentifier name).1 :=
      getElem?_push_size _ hs.variableIds
    rwa [← hcount] at hfound
  | patch | handler | temps | propertyCache | callCache => trivial

/-! ### Whole builds -/

theorem extends_build (b : Block) (requests : List Request) : (b.build requests).2.Extends b := by
  induction requests generalizing b with
  | nil => exact .refl b
  | cons r requests ih => exact (ih _).trans (b.extends_answer r)

/-- **Every answer denotes what was asked for**, in the final block. -/
theorem denotes_build (hb : b.Counted) (requests : List Request) (hs : (b.build requests).2.Small) :
    ∀ a ∈ (b.build requests).1, (b.build requests).2.Denotes a.2 a.1 := by
  induction requests generalizing b with
  | nil => exact fun a ha => by cases ha
  | cons r requests ih =>
    have hrest := (b.answer r).2.extends_build requests
    intro a ha
    rcases List.mem_cons.mp ha with rfl | ha
    · exact (denotes_answer hb (hrest.small hs)).extends hrest
    · exact ih (hb.answer r) hs a ha

/-! ### Counters -/

/-- The numbers that are handed out. -/
def slots (width : Request → Nat) (answers : List (Request × UInt32)) : List Nat :=
  answers.flatMap fun a => List.range' a.2.toNat (width a.1)

/-- **A counter hands out one range after the other**, as long as it does not overflow. -/
theorem slots_build (count : Block → UInt32) (width : Request → Nat) (I : Block → List Request → Prop)
    (hstep : ∀ b r requests, I b (r :: requests) → (count b).toNat + width r < UInt32.size →
      I (b.answer r).2 requests ∧ count (b.answer r).2 = count b + (width r).toUInt32 ∧
        (0 < width r → (b.answer r).1 = count b))
    (requests : List Request) (b : Block) (hI : I b requests)
    (hfit : (count b).toNat + (requests.map width).sum < UInt32.size) :
    slots width (b.build requests).1 = List.range' (count b).toNat (requests.map width).sum ∧
      (count (b.build requests).2).toNat = (count b).toNat + (requests.map width).sum := by
  induction requests generalizing b with
  | nil => exact ⟨rfl, rfl⟩
  | cons r requests ih =>
    rw [List.map_cons, List.sum_cons] at hfit ⊢
    obtain ⟨hI', hcount, hfirst⟩ := hstep b r requests hI (by omega)
    have hadd : (count (b.answer r).2).toNat = (count b).toNat + width r := by
      have hwidth : (width r).toUInt32.toNat = width r := UInt32.toNat_ofNat_of_lt' (by omega)
      rw [hcount, UInt32.toNat_add, hwidth]
      exact Nat.mod_eq_of_lt (Nat.lt_of_le_of_lt (by omega) hfit)
    obtain ⟨hslots, htotal⟩ := ih (b.answer r).2 hI' (by omega)
    refine ⟨?_, by change (count ((b.answer r).2.build requests).2).toNat = _; omega⟩
    have hrange : List.range' (b.answer r).1.toNat (width r) = List.range' (count b).toNat (width r) := by
      rcases Nat.eq_zero_or_pos (width r) with hzero | hpos
      · rw [hzero]
        rfl
      · rw [hfirst hpos]
    calc slots width (b.build (r :: requests)).1
        = List.range' (b.answer r).1.toNat (width r) ++ slots width ((b.answer r).2.build requests).1 := rfl
      _ = List.range' (count b).toNat (width r) ++
          List.range' ((count b).toNat + width r) (requests.map width).sum := by
        rw [hrange, hslots, hadd]
      _ = List.range' (count b).toNat (width r + (requests.map width).sum) := by
        rw [← List.range'_append_1]

/-- The registers that are asked for. -/
def Request.registers : Request → Nat
  | .declare _ => 1
  | .temps count => count.toNat
  | _ => 0

/-- The property cache sites that are asked for. -/
def Request.propertySites : Request → Nat
  | .propertyCache => 1
  | _ => 0

/-- The call cache sites that are asked for. -/
def Request.callSites : Request → Nat
  | .callCache => 1
  | _ => 0

/-- What requests other than for registers and sites leave alone. -/
def counts (b : Block) : UInt32 × UInt32 × UInt32 × UInt32 :=
  (b.varCount, b.registerCount, b.propertyCacheCount, b.callCacheCount)

theorem counts_addIdentifier (b : Block) (name : String) :
    (b.addIdentifier name).2.counts = b.counts := by
  obtain ⟨identifiers, heq⟩ := b.frame_addIdentifier name
  rw [heq]
  rfl

/-- **What every request does to the counters.** -/
theorem counts_answer (b : Block) (r : Request) : (b.answer r).2.counts =
    match r with
    | .declare _ => (b.varCount + 1, max b.registerCount (b.varCount + 1), b.propertyCacheCount,
        b.callCacheCount)
    | .temps count => (b.varCount, b.registerCount + count, b.propertyCacheCount, b.callCacheCount)
    | .propertyCache => (b.varCount, b.registerCount, b.propertyCacheCount + 1, b.callCacheCount)
    | .callCache => (b.varCount, b.registerCount, b.propertyCacheCount, b.callCacheCount + 1)
    | _ => b.counts := by
  cases r with
  | constant c =>
    simp only [answer, addConstant]
    split <;> rfl
  | identifier name => exact b.counts_addIdentifier name
  | layout names =>
    obtain ⟨identifiers, heq⟩ := b.frame_addIdentifiers names
    simp only [answer, addScopeLayout, heq]
    rfl
  | declare name =>
    obtain ⟨identifiers, heq⟩ := b.frame_addIdentifier name
    simp only [answer, declareVariable, heq]
    rfl
  | emit | patch | function | handler | temps | propertyCache | callCache => rfl

/-- Variables come before temporaries. -/
def VariablesFirst (requests : List Request) : Prop :=
  requests.Pairwise fun r r' => (∃ count, r = .temps count) → ∀ name, r' ≠ .declare name

/-- **The registers of one request** are the next ones: variables follow variables, and temporaries anything. -/
theorem registers_answer {requests : List Request} (hfirst : VariablesFirst (r :: requests))
    (hsame : ∀ name, .declare name ∈ r :: requests → b.registerCount = b.varCount)
    (hfit : b.registerCount.toNat + r.registers < UInt32.size) :
    (VariablesFirst requests ∧
      ∀ name, .declare name ∈ requests → (b.answer r).2.registerCount = (b.answer r).2.varCount) ∧
    (b.answer r).2.registerCount = b.registerCount + r.registers.toUInt32 ∧
    (0 < r.registers → (b.answer r).1 = b.registerCount) := by
  obtain ⟨hbefore, hrest⟩ := List.pairwise_cons.mp hfirst
  have hcounts := b.counts_answer r
  have hvars : (b.answer r).2.varCount = _ := congrArg (·.1) hcounts
  have hregisters : (b.answer r).2.registerCount = _ := congrArg (·.2.1) hcounts
  have hlater (name : String) (hmem : .declare name ∈ requests) : b.registerCount = b.varCount :=
    hsame name (List.mem_cons_of_mem r hmem)
  rw [hvars, hregisters]
  cases r with
  | declare name =>
    have heq : b.registerCount = b.varCount := hsame name List.mem_cons_self
    have hmax : max b.registerCount (b.varCount + 1) = b.varCount + 1 := by
      have hnext : (b.varCount + 1).toNat = b.varCount.toNat + 1 := by
        rw [heq] at hfit
        rw [UInt32.toNat_add]
        exact Nat.mod_eq_of_lt hfit
      rw [heq, ← UInt32.toNat_inj, UInt32.toNat_max, hnext]
      exact Nat.max_eq_right (Nat.le_succ _)
    refine ⟨⟨hrest, fun _ _ => hmax⟩, ?_, fun _ => ?_⟩
    · dsimp only
      rw [hmax, heq]
      rfl
    · obtain ⟨identifiers, hframe⟩ := b.frame_addIdentifier name
      change (b.addIdentifier name).2.varCount = b.registerCount
      rw [hframe, heq]
  | temps count =>
    refine ⟨⟨hrest, fun name hmem => absurd rfl (hbefore _ hmem ⟨count, rfl⟩ name)⟩, ?_, fun _ => rfl⟩
    simp [Request.registers]
  | emit | patch | constant | identifier | function | layout | handler | propertyCache | callCache =>
    refine ⟨⟨hrest, hlater⟩, ?_, fun hpos => ?_⟩
    · simp [counts, Request.registers]
    · cases hpos

/-- **Building a block** from nothing:

* every answer denotes, in the final block, what was asked for, a zero perhaps the other zero, as long as
  the tables fit the numbers of 32 bits;
* the registers that are handed out are all the registers of the block, each of them once, as long as
  variables come before temporaries and there are not too many;
* so are the cache sites, of both kinds. -/
theorem build_answers (requests : List Request) :
    let answers := (({} : Block).build requests).1
    let b := (({} : Block).build requests).2
    (b.Small → ∀ a ∈ answers, b.Denotes a.2 a.1) ∧
    (VariablesFirst requests → (requests.map Request.registers).sum < UInt32.size →
      slots Request.registers answers = List.range b.registerCount.toNat) ∧
    ((requests.map Request.propertySites).sum < UInt32.size →
      slots Request.propertySites answers = List.range b.propertyCacheCount.toNat) ∧
    ((requests.map Request.callSites).sum < UInt32.size →
      slots Request.callSites answers = List.range b.callCacheCount.toNat) := by
  have handsOut {count : Block → UInt32} {width : Request → Nat} {n : Nat}
      (h : slots width (({} : Block).build requests).1 = List.range' (0 : UInt32).toNat n ∧
        (count (({} : Block).build requests).2).toNat = (0 : UInt32).toNat + n) :
      slots width (({} : Block).build requests).1 =
        List.range (count (({} : Block).build requests).2).toNat := by
    rw [h.1, h.2, List.range_eq_range']
    simp
  refine ⟨denotes_build (show ({} : Block).Counted from rfl) requests, fun hfirst hfit => ?_,
    fun hfit => ?_, fun hfit => ?_⟩
  · refine handsOut (slots_build Block.registerCount Request.registers
      (fun b requests => VariablesFirst requests ∧
        ∀ name, .declare name ∈ requests → b.registerCount = b.varCount)
      (fun b r requests hI => registers_answer hI.1 hI.2) requests {} ⟨hfirst, fun _ _ => rfl⟩
      (by simpa using hfit))
  · refine handsOut (slots_build Block.propertyCacheCount Request.propertySites (fun _ _ => True)
      (fun b r requests _ _ => ⟨trivial, ?_, ?_⟩) requests {} trivial (by simpa using hfit))
    · refine (congrArg (·.2.2.1) (b.counts_answer r)).trans ?_
      cases r <;> simp [counts, Request.propertySites]
    · cases r <;> simp [Request.propertySites, answer, addPropertyCache]
  · refine handsOut (slots_build Block.callCacheCount Request.callSites (fun _ _ => True)
      (fun b r requests _ _ => ⟨trivial, ?_, ?_⟩) requests {} trivial (by simpa using hfit))
    · refine (congrArg (·.2.2.2) (b.counts_answer r)).trans ?_
      cases r <;> simp [counts, Request.callSites]
    · cases r <;> simp [Request.callSites, answer, addCallCache]

end Block

end ScriptMachine
