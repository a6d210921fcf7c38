import ScriptMachine.Machine.Stubs
import ScriptMachine.Proofs.Number.Integer

/-! # Stub frames

A stub frame made of a list of words has these words as its arguments (`Filled.arg`), wherever it
keeps them, and offers all of them to the collector (`Filled.words`). Nothing is parked in it to begin
with, and what is parked in it is what its routine raised (`Machine.parked_fail`). -/

namespace ScriptMachine

namespace StubFrame

/-- The frame holds a list of words: the first six inline, the others spilled. -/
structure Filled (f : StubFrame) (ws : List StubWord) : Prop where
  inlined : f.inlineWords.toList =
    ws.take stubInlineWords ++ List.replicate (stubInlineWords - ws.length) .missing
  spilled : f.spill.toList = ws.drop stubInlineWords
  argc : f.argc = ws.length

variable {f : StubFrame} {ws : List StubWord}

theorem Filled.push (h : f.Filled ws) (w : StubWord) : (f.push w).Filled (ws ++ [w]) := by
  have hargc := h.argc
  unfold StubFrame.push
  split
  case isTrue hlt =>
    rw [hargc] at hlt
    have hset : (ws ++ List.replicate (stubInlineWords - ws.length) StubWord.missing).set ws.length w
        = ws ++ [w] ++ List.replicate (stubInlineWords - (ws.length + 1)) .missing := by
      rw [List.set_append_right _ _ (Nat.le_refl _), Nat.sub_self,
        show stubInlineWords - ws.length = (stubInlineWords - (ws.length + 1)) + 1 by omega,
        List.replicate_succ, List.set_cons_zero, List.append_assoc]
      rfl
    refine ⟨?_, ?_, by simp [hargc]⟩
    · simp only [Array.toList_setIfInBounds, h.inlined, hargc,
        List.take_of_length_le (Nat.le_of_lt hlt), hset, List.length_append, List.length_singleton]
      rw [List.take_of_length_le (by simp; omega)]
    · simp only [h.spilled]
      rw [List.drop_of_length_le (Nat.le_of_lt hlt), List.drop_of_length_le (by simp; omega)]
  case isFalse hge =>
    rw [hargc] at hge
    have hge' : stubInlineWords ≤ ws.length := Nat.le_of_not_lt hge
    refine ⟨?_, ?_, by simp [hargc]⟩
    · rw [h.inlined, List.take_append_of_le_length hge', Nat.sub_eq_zero_of_le hge',
        Nat.sub_eq_zero_of_le (by simp; omega)]
    · rw [Array.toList_push, h.spilled, List.drop_append_of_le_length hge']

theorem filled_ofWords (globals : Value) (code : Option CodeId) (ws : List StubWord) :
    (ofWords globals code ws).Filled ws := by
  have hgo : ∀ (ws done : List StubWord) (f : StubFrame), f.Filled done →
      (ws.foldl StubFrame.push f).Filled (done ++ ws) := by
    intro ws
    induction ws with
    | nil =>
      intro done f hf
      simpa using hf
    | cons w ws ih =>
      intro done f hf
      have := ih (done ++ [w]) (f.push w) (hf.push w)
      simpa using this
  exact hgo ws [] (empty globals code) ⟨rfl, rfl, rfl⟩

theorem frame_ofWords (globals : Value) (code : Option CodeId) (ws : List StubWord) :
    (ofWords globals code ws).globals = globals ∧ (ofWords globals code ws).code = code ∧
      (ofWords globals code ws).exception = .hole ∧ (ofWords globals code ws).fatal = none := by
  have hgo : ∀ (ws : List StubWord) (f : StubFrame),
      (ws.foldl StubFrame.push f).globals = f.globals ∧ (ws.foldl StubFrame.push f).code = f.code ∧
        (ws.foldl StubFrame.push f).exception = f.exception ∧ (ws.foldl StubFrame.push f).fatal = f.fatal := by
    intro ws
    induction ws with
    | nil => exact fun f => ⟨rfl, rfl, rfl, rfl⟩
    | cons w ws ih =>
      intro f
      have hpush : (f.push w).globals = f.globals ∧ (f.push w).code = f.code ∧
          (f.push w).exception = f.exception ∧ (f.push w).fatal = f.fatal := by
        unfold StubFrame.push
        split <;> exact ⟨rfl, rfl, rfl, rfl⟩
      obtain ⟨hg, hc, he, hf⟩ := ih (f.push w)
      exact ⟨hg.trans hpush.1, hc.trans hpush.2.1, he.trans hpush.2.2.1, hf.trans hpush.2.2.2⟩
  exact hgo ws (empty globals code)

/-- **The arguments of a frame** are the words it was made of. -/
theorem Filled.arg (h : f.Filled ws) (index : Nat) : f.arg index = ws.getD index .missing := by
  unfold StubFrame.arg
  split
  case isTrue hlt =>
    rw [Array.getD_eq_getD_getElem?, ← Array.getElem?_toList, h.inlined,
      List.getD_eq_getElem?_getD]
    by_cases hin : index < ws.length
    · rw [List.getElem?_append_left (by simp; omega), List.getElem?_take_of_lt hlt]
    · rw [List.getElem?_append_right (by simp; omega), List.getElem?_replicate,
        List.getElem?_eq_none (by omega)]
      split <;> rfl
  case isFalse hge =>
    rw [Array.getD_eq_getD_getElem?, ← Array.getElem?_toList, h.spilled, List.getElem?_drop,
      List.getD_eq_getElem?_getD, Nat.add_sub_cancel' (Nat.le_of_not_lt hge)]

theorem Filled.words (h : f.Filled ws) :
    f.words = ws.map (·.bits) ++ [f.globals.word, f.exception.word] := by
  unfold StubFrame.words
  rw [h.inlined, h.spilled, h.argc,
    List.take_append_of_le_length (by rw [List.length_take]; omega), List.take_take,
    show min (min ws.length stubInlineWords) stubInlineWords = min ws.length stubInlineWords by omega]
  congr 1
  rcases Nat.le_total ws.length stubInlineWords with hle | hle
  · rw [Nat.min_eq_left hle, List.take_length, List.drop_of_length_le hle, List.append_nil]
  · rw [Nat.min_eq_right hle, List.take_append_drop]

theorem Filled.valuesFrom (h : f.Filled ws) (start : Nat) :
    f.valuesFrom start = (ws.drop start).map (·.value) := by
  unfold StubFrame.valuesFrom
  apply List.ext_getElem
  · simp [h.argc]
  · intro i hi hi'
    simp only [List.length_map, List.length_drop] at hi'
    simp only [List.getElem_map, List.getElem_range, List.getElem_drop, h.arg]
    rw [List.getD_eq_getElem?_getD, List.getElem?_eq_getElem (by omega), Option.getD_some]

/-- An argument is one of the words, or missing. -/
theorem Filled.arg_mem (h : f.Filled ws) (index : Nat) : f.arg index ∈ ws ∨ f.arg index = .missing := by
  rw [h.arg, List.getD_eq_getElem?_getD]
  cases hw : ws[index]? with
  | none => exact .inr rfl
  | some w => exact .inl (List.mem_of_getElem? hw)

end StubFrame

/-- **What a routine raised is what its frame has parked.** -/
@[simp] theorem Machine.parked_fail (m : Machine) (words : List StubWord) (u : Unwind) :
    ((m.stubFrame words).fail u).parked = u := by
  obtain ⟨-, -, -, hfatal⟩ := StubFrame.frame_ofWords m.globalObject (m.frame?.map (·.code)) words
  cases u with
  | throw value =>
    unfold StubFrame.fail StubFrame.parked
    simp only [Machine.stubFrame, hfatal]
  | fatal failure => rfl

/-- A stub call parks what its routine raised. -/
theorem callStub_eq (routine : Routine) (words : List StubWord) : callStub routine words = (do
    let frame := (← get).stubFrame words
    modify fun m => { m with stubFrames := m.stubFrames.push frame }
    let result ← attempt (runRoutine frame routine)
    modify fun m => { m with stubFrames := m.stubFrames.pop }
    match result with
    | .ok answer => return answer
    | .error u =>
      modify fun m => { m with stubUnwind := some u }
      return .raised) := by
  unfold callStub
  refine bind_congr fun m => bind_congr fun _ => bind_congr fun result => bind_congr fun _ => ?_
  cases result with
  | ok answer => rfl
  | error u => simp only [Machine.parked_fail]

end ScriptMachine
