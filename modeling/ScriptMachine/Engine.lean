import ScriptMachine.Machine.Embedding
import ScriptMachine.Machine.Summary

/-! # Engines

An engine is a machine behind a lock, for hosts that take turns with it. Whoever holds the lock has
the machine for itself; a request to stop goes past the lock. -/

namespace ScriptMachine

/-- A machine behind a lock. -/
structure Engine where
  /-- The machine. -/
  machine : Machine
  /-- Somebody holds the lock. -/
  locked : Bool := false

namespace Engine

/-- **Takes the lock** if it is free. -/
def tryLock? (e : Engine) : Option Engine :=
  if e.locked then none else some { e with locked := true }

/-- Gives the lock back. -/
def unlock (e : Engine) : Engine := { e with locked := false }

/-- Requests that the running script stops, whoever holds the lock. -/
def interrupt (e : Engine) : Engine := { e with machine := e.machine.requestInterrupt }

/-- An engine in a listing. -/
def listingText (e : Engine) : String :=
  Opcode.recordText "Engine"
    [("locked", flagText e.locked), ("interrupted", flagText e.machine.interruptRequested)]

end Engine

end ScriptMachine
