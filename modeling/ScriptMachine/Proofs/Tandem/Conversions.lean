import ScriptMachine.Machine.Operators
import ScriptMachine.Proofs.Tandem.Reads

/-! # Conversions of two runs

Values that match and are live convert alike in twin machines. The text of a value takes fuel for every
slot of the heap, and two heaps may differ in that; but an error whose messages lead to a text at all
gets there along different live errors, so more fuel makes no difference (`Machine.display_stable`). -/

namespace ScriptMachine

theorem Value.decode_ne_cell {v : Value} (hv : v.cell? = none) (id : Handle) : v.decode ≠ .cell id := by
  intro h
  rw [cell?_eq_some_iff.mpr h] at hv
  cases hv

namespace List

variable {α β γ : Type} {f g : α → Option β}

theorem mapM_option_mono (hfg : ∀ x y, f x = some y → g x = some y) {l : List α} {r : List β}
    (h : l.mapM f = some r) : l.mapM g = some r := by
  induction l generalizing r with
  | nil => exact h
  | cons x l ih =>
    rw [List.mapM_cons] at h ⊢
    obtain ⟨y, hy, h⟩ := Option.bind_eq_some_iff.mp h
    obtain ⟨ys, hys, h⟩ := Option.bind_eq_some_iff.mp h
    exact Option.bind_eq_some_iff.mpr ⟨y, hfg x y hy, Option.bind_eq_some_iff.mpr ⟨ys, ih hys, h⟩⟩

theorem mapM_option_congr {r : α → γ → Prop} {f' : γ → Option β} {l : List α} {l' : List γ}
    (h : List.Forall₂ r l l') (hf : ∀ x y, r x y → f' y = f x) : l'.mapM f' = l.mapM f := by
  induction h with
  | nil => rfl
  | cons hr _ ih => rw [List.mapM_cons, List.mapM_cons, hf _ _ hr, ih]

end List

namespace Aligned

variable {ρ : Pairing} {h h' : Heap} {xs ys : Array Value}

/-- Matching values that are all live. -/
theorem both (ha : Aligned ρ.Matches xs ys) (hx : ∀ v ∈ xs, v.Live h) (hy : ∀ v ∈ ys, v.Live h') :
    Aligned (Heap.Both ρ h h') xs ys := by
  intro i
  rcases Option.rel_iff.mp (ha i) with ⟨hxs, hys⟩ | ⟨x, y, hxs, hys, hs⟩
  · rw [hxs, hys]
    exact .none
  · rw [hxs, hys]
    exact .some ⟨hs, hx x (Array.mem_of_getElem? hxs), hy y (Array.mem_of_getElem? hys)⟩

end Aligned

namespace Machine

/-! ### The text of a value -/

/-- The text of a value, when that of the values it contains is known. -/
def displayBy (m : Machine) (text? : Nat → Value → Option String) (depth : Nat) (v : Value) :
    Option String :=
  match v.decode with
  | .number n => some n.text
  | .boolean b => some (if b then "true" else "false")
  | .null => some "null"
  | .undefined | .hole => some "undefined"
  | .cell id =>
    match m.heap.cell? id with
    | none => some "undefined"
    | some cell =>
      match cell.payload with
      | .string data => some data.text
      | .array elements =>
        if depth ≥ maxDisplayDepth then some ""
        else
          (elements.items.toList.mapM fun item =>
            if item.isNullish || item.isHole then some ""
            else text? (depth + 1) item).map ",".intercalate
      | .function data =>
        some ("function " ++ (data.name.map m.atomName).getD "" ++ "() \x7b [code] \x7d")
      | .activation .. => some "[scope]"
      | .plain =>
        match m.isErrorObject? id with
        | none => none
        | some false => some "[object Object]"
        | some true =>
          match m.heap.getProperty? id m.names.name, m.heap.getProperty? id m.names.message with
          | some name, some message =>
            let name := (m.stringValue? name).getD "Error"
            (if message.isUndefined then some ""
             else text? maxDisplayDepth message).map fun message =>
              if message.isEmpty then name else name ++ ": " ++ message
          | _, _ => none

theorem displayWithin?_succ (m : Machine) (fuel depth : Nat) (v : Value) :
    m.displayWithin? (fuel + 1) depth v = m.displayBy (m.displayWithin? fuel) depth v := rfl

section Fuel

variable {m : Machine} {text? text'? : Nat → Value → Option String} {depth fuel : Nat} {v : Value}
  {s : String}

/-- Texts that are known stay so. -/
theorem displayBy_mono (harray : ∀ v s, depth < maxDisplayDepth → text? (depth + 1) v = some s →
      text'? (depth + 1) v = some s)
    (hmessage : ∀ v s, text? maxDisplayDepth v = some s → text'? maxDisplayDepth v = some s)
    (h : m.displayBy text? depth v = some s) : m.displayBy text'? depth v = some s := by
  unfold displayBy at h ⊢
  cases hd : v.decode with
  | number _ | boolean _ | null | undefined | hole => rwa [hd] at h
  | cell id =>
    rw [hd] at h
    dsimp only at h ⊢
    cases hc : m.heap.cell? id with
    | none =>
      rw [hc] at h
      exact h
    | some c =>
      rw [hc] at h
      dsimp only at h ⊢
      cases hp : c.payload with
      | string _ | function _ | activation _ _ => rwa [hp] at h
      | array e =>
        rw [hp] at h
        dsimp only at h ⊢
        split at h
        case isTrue hd => rwa [if_pos hd]
        case isFalse hd =>
          rw [if_neg hd]
          obtain ⟨texts, htexts, rfl⟩ := Option.map_eq_some_iff.mp h
          rw [List.mapM_option_mono (fun item y hy => ?_) htexts]
          · rfl
          · split at hy
            case isTrue hn => rwa [if_pos hn]
            case isFalse hn =>
              rw [if_neg hn]
              exact harray item y (Nat.lt_of_not_le hd) hy
      | plain =>
        rw [hp] at h
        dsimp only at h ⊢
        split at h
        case h_1 => cases h
        case h_2 => exact h
        case h_3 =>
          split at h
          case h_2 => cases h
          case h_1 =>
            split at h
            case isTrue hu => rwa [if_pos hu]
            case isFalse hu =>
              rw [if_neg hu]
              obtain ⟨message, hm, rfl⟩ := Option.map_eq_some_iff.mp h
              rw [hmessage _ _ hm]
              rfl

theorem displayWithin?_mono {fuel' : Nat} (hle : fuel ≤ fuel')
    (h : m.displayWithin? fuel depth v = some s) : m.displayWithin? fuel' depth v = some s := by
  induction fuel generalizing fuel' depth v s with
  | zero => cases h
  | succ fuel ih =>
    obtain ⟨n, rfl⟩ : ∃ n, fuel' = n + 1 := ⟨fuel' - 1, by omega⟩
    rw [displayWithin?_succ] at h ⊢
    exact displayBy_mono (fun v s _ => ih (by omega)) (fun v s => ih (by omega)) h

/-- A value at the greatest depth that takes more than one unit of fuel is an error, and its message
takes one less. -/
theorem displayBy_deep (h : m.displayBy text? maxDisplayDepth v = some s)
    (hnone : m.displayBy text'? maxDisplayDepth v = none) :
    ∃ id message s', v = .cell id ∧ m.heap.isLive id = true ∧
      text? maxDisplayDepth message = some s' ∧ text'? maxDisplayDepth message = none := by
  unfold displayBy at h hnone
  cases hd : v.decode with
  | number _ | boolean _ | null | undefined | hole =>
    rw [hd] at hnone
    cases hnone
  | cell id =>
    rw [hd] at h hnone
    dsimp only at h hnone
    cases hc : m.heap.cell? id with
    | none =>
      rw [hc] at hnone
      cases hnone
    | some c =>
      rw [hc] at h hnone
      dsimp only at h hnone
      cases hp : c.payload with
      | string _ | function _ | activation _ _ =>
        rw [hp] at hnone
        cases hnone
      | array e =>
        rw [hp] at hnone
        simp at hnone
      | plain =>
        rw [hp] at h hnone
        dsimp only at h hnone
        split at h
        case h_1 => cases h
        case h_2 he =>
          rw [he] at hnone
          cases hnone
        case h_3 he =>
          rw [he] at hnone
          split at h
          case h_2 => cases h
          case h_1 hn hm =>
            simp only [hn, hm] at hnone
            split at hnone
            case isTrue => cases hnone
            case isFalse hu =>
              rw [if_neg hu] at h
              obtain ⟨s', hs', -⟩ := Option.map_eq_some_iff.mp h
              refine ⟨id, _, s', ?_, Heap.isLive_of_cell? hc, hs', Option.map_eq_none_iff.mp hnone⟩
              cases hv : v.cell? with
              | none => exact absurd hd (Value.decode_ne_cell hv id)
              | some id' =>
                obtain rfl := Value.cell?_eq_some.mp hv
                rw [Value.decode_cell] at hd
                rw [Decoded.cell.inj hd]

/-- A value at the greatest depth that takes so much fuel leads to as many live errors: each takes a
different amount. -/
theorem deep_errors (h : m.displayWithin? (fuel + 1) maxDisplayDepth v = some s)
    (hnone : m.displayWithin? fuel maxDisplayDepth v = none) :
    ∃ ids : List Handle, ids.length = fuel ∧ ids.Nodup ∧ ∀ id ∈ ids, m.heap.isLive id = true ∧
      ∃ s, m.displayWithin? (fuel + 1) maxDisplayDepth (.cell id) = some s := by
  induction fuel generalizing v s with
  | zero => exact ⟨[], rfl, List.nodup_nil, by simp⟩
  | succ fuel ih =>
    have hv := h
    rw [displayWithin?_succ] at h hnone
    obtain ⟨id, message, s', rfl, hlive, hs', hn'⟩ := displayBy_deep h hnone
    obtain ⟨ids, hlength, hnodup, hids⟩ := ih hs' hn'
    refine ⟨id :: ids, by rw [List.length_cons, hlength], List.nodup_cons.mpr ⟨fun hid => ?_, hnodup⟩,
      fun other hother => ?_⟩
    · obtain ⟨-, t, ht⟩ := hids id hid
      rw [displayWithin?_succ, hnone] at ht
      cases ht
    · rcases List.mem_cons.mp hother with rfl | hother
      · exact ⟨hlive, s, hv⟩
      · obtain ⟨hl, t, ht⟩ := hids other hother
        exact ⟨hl, t, displayWithin?_mono (Nat.le_succ _) ht⟩

/-- The fuel that a value at the greatest depth takes, if there is enough at all. -/
theorem deep_stable (h : m.displayWithin? fuel maxDisplayDepth v = some s) :
    m.displayWithin? (m.heap.slots.size + 1) maxDisplayDepth v = some s := by
  induction fuel with
  | zero => cases h
  | succ fuel ih =>
    cases hless : m.displayWithin? fuel maxDisplayDepth v with
    | some t =>
      have := displayWithin?_mono (Nat.le_succ fuel) hless
      rw [h] at this
      obtain rfl := Option.some.inj this
      exact ih hless
    | none =>
      obtain ⟨ids, hlength, hnodup, hids⟩ := deep_errors h hless
      have hle := Heap.length_le_size hnodup fun id hid => (hids id hid).1
      exact displayWithin?_mono (by omega) h

theorem display_fuel (above : Nat) (hd : depth + above = maxDisplayDepth)
    (h : m.displayWithin? fuel depth v = some s) :
    m.displayWithin? (m.heap.slots.size + 1 + above) depth v = some s := by
  induction above generalizing fuel depth v s with
  | zero =>
    obtain rfl : depth = maxDisplayDepth := by omega
    exact deep_stable h
  | succ above ih =>
    cases fuel with
    | zero => cases h
    | succ fuel =>
      rw [displayWithin?_succ] at h
      rw [← Nat.add_assoc, displayWithin?_succ]
      refine displayBy_mono (fun v s _ hv => ih (by omega) hv) (fun v s hv => ?_) h
      exact displayWithin?_mono (by omega) (deep_stable hv)

/-- **More fuel makes no difference** to the text of a value. -/
theorem display_stable (m : Machine) (v : Value) (hf : m.displayFuel ≤ fuel) :
    m.display v = (m.displayWithin? fuel 0 v).getD "" := by
  unfold display
  cases h : m.displayWithin? fuel 0 v with
  | some s =>
    have hs := display_fuel maxDisplayDepth (by omega) h
    rw [displayWithin?_mono (by unfold displayFuel; omega) hs]
  | none =>
    cases h' : m.displayWithin? m.displayFuel 0 v with
    | none => rfl
    | some s =>
      rw [displayWithin?_mono hf h'] at h
      cases h

end Fuel

namespace Twins

variable {ρ : Pairing} {m m' : Machine} {v w v' w' : Value} {a b : Handle} {c c' : Cell}

/-! ### Cells by what they hold -/

/-- The cells of twin values. -/
theorem cellOf? (ht : m.Twins ρ m') (hb : Heap.Both ρ m.heap m'.heap v w) :
    Option.Rel (fun c c' => c.Twins ρ ρ m.heap.shapes m'.heap.shapes c') (m.heap.cellOf? v)
      (m'.heap.cellOf? w) := by
  unfold Heap.cellOf?
  cases hv : v.cell? with
  | none =>
    rw [hb.same.eq_of_left hv, hv]
    exact .none
  | some a =>
    obtain ⟨b, c, c', rfl, rfl, hp, hc, hc'⟩ := hb.cell hv
    simp only [Value.cell?_cell, hc, hc']
    exact .some (ht.heap.twin hp hc hc')

theorem stringValue? (ht : m.Twins ρ m') (hb : Heap.Both ρ m.heap m'.heap v w) :
    m'.stringValue? w = m.stringValue? v := by
  unfold Machine.stringValue?
  rcases Option.rel_iff.mp (ht.cellOf? hb) with ⟨hx, hy⟩ | ⟨c, c', hx, hy, hc⟩
  · rw [hx, hy]
  · rw [hx, hy]
    exact hc.text?

/-- The objects that values refer to. -/
theorem objectCell? (ht : m.Twins ρ m') (hb : Heap.Both ρ m.heap m'.heap v w) :
    m.objectCell? v = none ∧ m'.objectCell? w = none ∨
      ∃ a b c c', m.objectCell? v = some a ∧ m'.objectCell? w = some b ∧ v = .cell a ∧ w = .cell b ∧
        ρ.Pairs a b ∧ m.heap.cell? a = some c ∧ m'.heap.cell? b = some c' := by
  unfold Machine.objectCell?
  cases hv : v.cell? with
  | none =>
    rw [hb.same.eq_of_left hv, hv]
    exact .inl ⟨rfl, rfl⟩
  | some a =>
    obtain ⟨b, c, c', rfl, rfl, hp, hc, hc'⟩ := hb.cell hv
    simp only [Value.cell?_cell, hc, hc', (ht.heap.twin hp hc hc').kind]
    split
    · exact .inr ⟨a, b, c, c', rfl, rfl, rfl, rfl, hp, hc, hc'⟩
    · exact .inl ⟨rfl, rfl⟩

/-- The live cells that values refer to. -/
theorem liveCell? (hb : Heap.Both ρ m.heap m'.heap v w) :
    m.liveCell? v = none ∧ m'.liveCell? w = none ∨
      ∃ a b c c', m.liveCell? v = some a ∧ m'.liveCell? w = some b ∧ v = .cell a ∧ w = .cell b ∧
        ρ.Pairs a b ∧ m.heap.cell? a = some c ∧ m'.heap.cell? b = some c' := by
  unfold Machine.liveCell?
  cases hv : v.cell? with
  | none =>
    rw [hb.same.eq_of_left hv, hv]
    exact .inl ⟨rfl, rfl⟩
  | some a =>
    obtain ⟨b, c, c', rfl, rfl, hp, hc, hc'⟩ := hb.cell hv
    simp only [Value.cell?_cell, Heap.isLive_of_cell? hc, Heap.isLive_of_cell? hc', if_true]
    exact .inr ⟨a, b, c, c', rfl, rfl, rfl, rfl, hp, hc, hc'⟩

/-- **The payloads of functions.** -/
theorem functionData? (ht : m.Twins ρ m') (hb : Heap.Both ρ m.heap m'.heap v w) :
    Option.Rel (fun d d' : FunctionData => { d' with scope := d.scope } = d ∧
      Option.Rel ρ.Pairs d.scope d'.scope) (m.functionData? v) (m'.functionData? w) := by
  unfold Machine.functionData?
  rcases Option.rel_iff.mp (ht.cellOf? hb) with ⟨hx, hy⟩ | ⟨c, c', hx, hy, hc⟩
  · rw [hx, hy]
    exact .none
  · rw [hx, hy]
    have hpay := hc.payload
    unfold Cell.function?
    dsimp only
    cases hp : c.payload <;> cases hp' : c'.payload <;> rw [hp, hp'] at hpay <;> cases hpay
    case function.function h => exact .some ⟨rfl, h⟩
    all_goals exact .none

/-! ### Texts -/

theorem isErrorObject? (ht : m.Twins ρ m') (hp : ρ.Pairs a b) (hc : m.heap.cell? a = some c)
    (hc' : m'.heap.cell? b = some c') :
    ∃ found, m.isErrorObject? a = some found ∧ m'.isErrorObject? b = some found := by
  unfold Machine.isErrorObject?
  rw [ht.intrinsics]
  exact ht.heap.inherits ht.clean.closed ht.clean'.closed
    (ht.anchored _ (ht.safe.anchored.intrinsics.errors .error)) hp hc hc'

theorem getProperty? (ht : m.Twins ρ m') (hp : ρ.Pairs a b) (hc : m.heap.cell? a = some c)
    (hc' : m'.heap.cell? b = some c') (name : Atom) : ∃ v w, m.heap.getProperty? a name = some v ∧
      m'.heap.getProperty? b name = some w ∧ Heap.Both ρ m.heap m'.heap v w :=
  ht.heap.getProperty? ht.clean.closed ht.clean'.closed hp hc hc' name

theorem displayBy (ht : m.Twins ρ m') {text? text'? : Nat → Value → Option String}
    (htext : ∀ depth v w, Heap.Both ρ m.heap m'.heap v w → text'? depth w = text? depth v)
    (depth : Nat) (hb : Heap.Both ρ m.heap m'.heap v w) :
    m'.displayBy text'? depth w = m.displayBy text? depth v := by
  unfold Machine.displayBy
  cases hv : v.cell? with
  | none =>
    rw [hb.same.eq_of_left hv]
    cases hd : v.decode with
    | cell id => exact absurd hd (Value.decode_ne_cell hv id)
    | number _ | boolean _ | null | undefined | hole => rfl
  | some a =>
    obtain ⟨b, c, c', rfl, rfl, hp, hc, hc'⟩ := hb.cell hv
    simp only [Value.decode_cell, hc, hc']
    have hpay := (ht.heap.twin hp hc hc').payload
    cases hpc : c.payload <;> cases hpc' : c'.payload <;> rw [hpc, hpc'] at hpay <;> cases hpay
    case string.string => rfl
    case array.array e e' he =>
      dsimp only
      split
      · rfl
      · have hitems : Aligned (Heap.Both ρ m.heap m'.heap) e.items e'.items := by
          refine he.both (fun v hv => ?_) fun v hv => ?_
          · exact ht.clean.closed.held a c v hc (.inr (by simp [hpc, Payload.references, hv]))
          · exact ht.clean'.closed.held b c' v hc' (.inr (by simp [hpc', Payload.references, hv]))
        rw [List.mapM_option_congr hitems.toList fun x y hxy => ?_]
        rw [hxy.same.isNullish, hxy.same.isHole, htext _ _ _ hxy]
    case function.function name _ _ _ _ =>
      dsimp only
      rw [show m'.atomName = m.atomName from funext ht.atomName]
    case plain.plain =>
      obtain ⟨found, he, he'⟩ := ht.isErrorObject? hp hc hc'
      obtain ⟨_, _, hn, hn', hname⟩ := ht.getProperty? hp hc hc' m.names.name
      obtain ⟨_, _, hm, hm', hmessage⟩ := ht.getProperty? hp hc hc' m.names.message
      simp only [ht.names, he, he', hn, hn', hm, hm', ht.stringValue? hname, hmessage.same.isUndefined,
        htext _ _ _ hmessage]

theorem displayWithin? (ht : m.Twins ρ m') (fuel depth : Nat) (hb : Heap.Both ρ m.heap m'.heap v w) :
    m'.displayWithin? fuel depth w = m.displayWithin? fuel depth v := by
  induction fuel generalizing depth v w with
  | zero => rfl
  | succ fuel ih =>
    rw [displayWithin?_succ, displayWithin?_succ]
    exact ht.displayBy (fun depth v w hb => ih depth hb) depth hb

/-- **Values of two runs have the same text.** -/
theorem display (ht : m.Twins ρ m') (hb : Heap.Both ρ m.heap m'.heap v w) :
    m'.display w = m.display v := by
  rw [display_stable m v (Nat.le_max_left m.displayFuel m'.displayFuel),
    display_stable m' w (Nat.le_max_right m.displayFuel m'.displayFuel), ht.displayWithin? _ _ hb]

/-! ### Numbers, booleans and types -/

theorem toBoolean (ht : m.Twins ρ m') (hb : Heap.Both ρ m.heap m'.heap v w) :
    m'.toBoolean w = m.toBoolean v := by
  unfold Machine.toBoolean
  rw [hb.same.isCell, hb.same.isTruthy, ht.stringValue? hb]

theorem toNumber (ht : m.Twins ρ m') (hb : Heap.Both ρ m.heap m'.heap v w) :
    m'.toNumber w = m.toNumber v := by
  unfold Machine.toNumber
  rw [ht.display hb]
  cases hb.same with
  | word hv => cases hd : v.decode <;> rfl
  | cell => simp only [Value.decode_cell]

theorem category (ht : m.Twins ρ m') (hb : Heap.Both ρ m.heap m'.heap v w) :
    m'.category w = m.category v := by
  unfold Machine.category
  rw [ht.stringValue? hb]
  cases hb.same with
  | word hv => cases hd : v.decode <;> rfl
  | cell => simp only [Value.decode_cell]

theorem typeName (ht : m.Twins ρ m') (hb : Heap.Both ρ m.heap m'.heap v w) :
    m'.typeName w = m.typeName v := by
  unfold Machine.typeName
  cases hv : v.cell? with
  | none =>
    rw [hb.same.eq_of_left hv]
    cases hd : v.decode with
    | cell id => exact absurd hd (Value.decode_ne_cell hv id)
    | number _ | boolean _ | null | undefined | hole => rfl
  | some a =>
    obtain ⟨b, c, c', rfl, rfl, hp, hc, hc'⟩ := hb.cell hv
    simp only [Value.decode_cell, hc, hc', (ht.heap.twin hp hc hc').kind]

theorem isObject (ht : m.Twins ρ m') (hb : Heap.Both ρ m.heap m'.heap v w) :
    m'.isObject w = m.isObject v := by
  unfold Machine.isObject
  rcases ht.objectCell? hb with ⟨hx, hy⟩ | ⟨a, b, c, c', hx, hy, -⟩
  · rw [hx, hy]
  · rw [hx, hy]
    rfl

theorem isTextual (ht : m.Twins ρ m') (hb : Heap.Both ρ m.heap m'.heap v w) :
    m'.isTextual w = m.isTextual v := by
  unfold Machine.isTextual
  rw [ht.category hb, ht.isObject hb]

/-! ### Equality and order -/

/-- The same word on one side is the same word on the other. -/
theorem comparedWord (ht : m.Twins ρ m') (hs : ρ.Matches v w) (hs' : ρ.Matches v' w') :
    (Machine.comparedWord w == Machine.comparedWord w') =
      (Machine.comparedWord v == Machine.comparedWord v') := by
  have hword (v : Value) :
      Machine.comparedWord v = (if v.isHole then Value.undefined else v).word := by
    unfold Machine.comparedWord
    split <;> rfl
  have hread {v w : Value} (hs : ρ.Matches v w) :
      ρ.Matches (if v.isHole then .undefined else v) (if w.isHole then .undefined else w) := by
    rw [hs.isHole]
    split
    · exact .word (by simp)
    · exact hs
  have hiff := ht.heap.value_iff (hread hs) (hread hs')
  simp only [hword]
  rw [Bool.eq_iff_iff, beq_iff_eq, beq_iff_eq]
  constructor <;> intro h
  · exact congrArg Value.word (hiff.mpr (congrArg Value.mk h))
  · exact congrArg Value.word (hiff.mp (congrArg Value.mk h))

theorem strictEquals (ht : m.Twins ρ m') (hb : Heap.Both ρ m.heap m'.heap v w)
    (hb' : Heap.Both ρ m.heap m'.heap v' w') : m'.strictEquals w w' = m.strictEquals v v' := by
  unfold Machine.strictEquals
  rw [hb.same.number?, hb'.same.number?, ht.stringValue? hb, ht.stringValue? hb',
    ht.comparedWord hb.same hb'.same]

theorem convertedEquals (ht : m.Twins ρ m') (hb : Heap.Both ρ m.heap m'.heap v w)
    (hb' : Heap.Both ρ m.heap m'.heap v' w') :
    m'.convertedEquals w w' = m.convertedEquals v v' := by
  unfold Machine.convertedEquals
  rw [ht.category hb, ht.category hb', ht.display hb, ht.display hb', ht.toNumber hb, ht.toNumber hb',
    ht.strictEquals hb hb']

theorem looseEquals (ht : m.Twins ρ m') (hb : Heap.Both ρ m.heap m'.heap v w)
    (hb' : Heap.Both ρ m.heap m'.heap v' w') : m'.looseEquals w w' = m.looseEquals v v' := by
  have hnumber (n : Binary64) : Heap.Both ρ m.heap m'.heap (.number n) (.number n) :=
    .word (Value.cell?_number n)
  unfold Machine.looseEquals
  simp only [ht.category hb, ht.category hb', ht.strictEquals hb hb', ht.convertedEquals hb hb',
    ht.toNumber hb, ht.toNumber hb', ht.convertedEquals (hnumber (m.toNumber v)) hb',
    ht.convertedEquals hb (hnumber (m.toNumber v'))]

theorem compare? (ht : m.Twins ρ m') (hb : Heap.Both ρ m.heap m'.heap v w)
    (hb' : Heap.Both ρ m.heap m'.heap v' w') : m'.compare? w w' = m.compare? v v' := by
  unfold Machine.compare?
  rw [hb.same.number?, hb'.same.number?, ht.isTextual hb, ht.isTextual hb', ht.display hb,
    ht.display hb', ht.toNumber hb, ht.toNumber hb']

end Twins

end Machine

end ScriptMachine
