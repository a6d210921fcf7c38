import ScriptMachine.Machine.Interpreter

/-! # Turns of the loop

The loop of the interpreter takes one turn after the other (`runLoop_succ`): the instruction of the
running frame, and what follows from how it ends. -/

namespace ScriptMachine

/-- **The instruction of the running frame**, and how it ends. -/
def instruction : MachineM (Option (Except Unwind Flow)) := do
  checkpoint []
  match ← fetch with
  | none => return none
  | some (code, some opcode) => return some (← attempt (step code opcode))
  | some (_, none) => return some (.ok (.ret .undefined))

/-- The running frame returns a value: the loop is done with it, or goes on in the caller. -/
def settleReturn (entryDepth mark : Nat) (value : Value) : MachineM (Option Value) := do
  let returning := (← get).frames.size - 1
  let (value, register) ← finishReturn value
  if returning ≤ entryDepth then
    modifyHeap fun h => (h.truncateTemporaries mark).pushTemporary value
    return some value
  else
    modify fun m =>
      let m := match register with
        | some r => m.setRegister r value
        | none => m
      { m with heap := m.heap.truncateTemporaries mark }
    return none

/-- What the loop does about the end of an instruction: it goes on, or it is done with a result. -/
def settle (entryDepth mark : Nat) : Except Unwind Flow → MachineM (Option Value)
  | .ok .next => do
    modifyHeap (·.truncateTemporaries mark)
    return none
  | .ok (.ret value) => settleReturn entryDepth mark value
  | .error u => do
    match ← attempt (handleUnwind entryDepth u) with
    | .ok () =>
      modifyHeap (·.truncateTemporaries mark)
      return none
    | .error u =>
      modifyHeap fun h =>
        let h := h.truncateTemporaries mark
        match u with
        | .throw value => h.pushTemporary value
        | .fatal _ => h
      unwind u

/-- One turn of the loop. -/
def turn (entryDepth mark : Nat) : MachineM (Option Value) := do
  match ← instruction with
  | none => return some .undefined
  | some flow => settle entryDepth mark flow

theorem settleReturn_bind (entryDepth mark : Nat) (value : Value) (next : MachineM Value) :
    (settleReturn entryDepth mark value >>= fun
      | none => next
      | some value => pure value) = (do
      let returning := (← get).frames.size - 1
      let (value, register) ← finishReturn value
      if returning ≤ entryDepth then
        modifyHeap fun h => (h.truncateTemporaries mark).pushTemporary value
        return value
      else
        modify fun m =>
          let m := match register with
            | some r => m.setRegister r value
            | none => m
          { m with heap := m.heap.truncateTemporaries mark }
        next) := by
  simp only [settleReturn, bind_assoc]
  refine bind_congr fun m => bind_congr fun result => ?_
  split
  · simp only [bind_assoc, pure_bind]
  · simp only [bind_assoc, pure_bind]

/-- **The loop takes one turn after the other.** -/
theorem runLoop_succ (entryDepth mark fuel : Nat) :
    runLoop entryDepth mark (fuel + 1) = turn entryDepth mark >>= fun
      | none => runLoop entryDepth mark fuel
      | some value => pure value := by
  rw [runLoop]
  simp only [turn, instruction, bind_assoc]
  refine bind_congr fun _ => bind_congr fun fetched => ?_
  cases fetched with
  | none => simp only [pure_bind]
  | some fetched =>
    obtain ⟨code, opcode⟩ := fetched
    cases opcode with
    | none =>
      simp only [pure_bind]
      exact (settleReturn_bind entryDepth mark .undefined _).symm
    | some opcode =>
      simp only [pure_bind, bind_assoc]
      refine bind_congr fun flow => ?_
      cases flow with
      | ok flow =>
        cases flow with
        | next => simp only [settle, bind_assoc, pure_bind]
        | ret value => exact (settleReturn_bind entryDepth mark value _).symm
      | error u =>
        simp only [settle, bind_assoc]
        refine bind_congr fun result => ?_
        cases result with
        | ok _ => simp only [bind_assoc, pure_bind]
        | error u =>
          rw [bind_assoc]
          rfl

end ScriptMachine
