import ScriptMachine.Machine.Bootstrap
import ScriptMachine.Machine.Perform
import ScriptMachine.Program.Format
import ScriptMachine.Program.Listing

/-! # Sessions

A session runs one stored program after the other on a machine of its own. Each run ends in an
outcome or in a fault, and each fault has a message and an exit code. What a session prints is
collected in `output`. -/

namespace ScriptMachine

/-! ### Faults -/

/-- Why a run has no outcome. -/
inductive Fault where
  /-- A file could not be read. -/
  | unreadable (path reason : String)
  /-- The program text holds no code block. -/
  | malformedProgram
  /-- The configuration text holds no configuration. -/
  | malformedConfig
  /-- The program was refused or the machine failed. -/
  | failure (cause : Failure)
  /-- An exception reached the top level. -/
  | uncaught (report : ErrorReport)
  /-- There is nothing to run. -/
  | noProgram
  /-- The bound on the number of steps was reached. -/
  | exhausted
deriving DecidableEq, Repr

namespace Fault

/-- The name of the kind of fault. -/
def name : Fault → String
  | .unreadable .. => "Io"
  | .malformedProgram => "Program"
  | .malformedConfig => "Config"
  | .failure _ => "Vm"
  | .uncaught _ => "Uncaught"
  | .noProgram => "NoProgram"
  | .exhausted => "Exhausted"

/-- What a fault says. -/
def message : Fault → String
  | .unreadable path reason => "could not read '" ++ path ++ "': " ++ reason
  | .malformedProgram => "malformed program: expected a code block"
  | .malformedConfig => "malformed configuration: expected a record of settings"
  | .failure cause => cause.message
  | .uncaught report => report.text
  | .noProgram => "no program given; pass --file or --eval"
  | .exhausted => "step limit reached"

/-- The exit code of a process that ends in a fault. -/
def exitCode : Fault → UInt32
  | .uncaught _ => 1
  | .failure .interrupted => 124
  | .failure _ | .exhausted => 3
  | .unreadable .. | .malformedProgram | .malformedConfig | .noProgram => 2

end Fault

/-! ### Sessions -/

/-- What a finished run produced. -/
structure Outcome where
  /-- The completion value. -/
  value : Value
  /-- The completion value as text. -/
  display : String
deriving DecidableEq, Repr

/-- A machine that runs stored programs. -/
structure Session where
  /-- The machine. -/
  machine : Machine
  /-- Each program is listed before it runs. -/
  printsListing : Bool := false
  /-- What was printed so far. -/
  output : String := ""

namespace Session

/-- **A new session**, with the compiler if `compile` says so. -/
def new (config : Config) (compile : Bool) : Except Fault Session :=
  match Machine.new config with
  | .ok machine => .ok { machine := if compile then machine.installTier else machine }
  | .error failure => .error (.failure failure)

/-- The compiler is installed. -/
def compiles (s : Session) : Bool := s.machine.tier.isSome

/-- Prints a line. -/
def print (s : Session) (line : String) : Session := { s with output := s.output ++ line ++ "\n" }

/-- **Runs a program.** The outcome is put into words before the temporaries are released. -/
def execute (s : Session) (fuel : Nat) (block : Block) : Except Fault Outcome × Session :=
  let s := if s.printsListing then s.print block.listing else s
  let (result, machine) : Except Fault Outcome × Machine :=
    match s.machine.eval fuel (tryCall (runProgram block)) with
    | .ok (.ok value) m => (.ok ⟨value, m.display value⟩, m)
    | .ok (.error (.exception value)) m => (.error (.uncaught (m.describe (.exception value))), m)
    | .ok (.error failure) m => (.error (.failure failure), m)
    | .error _ m => (.error .exhausted, m)
  (result, { s with machine := machine.releaseTemporaries })

/-- **Runs a stored program.** -/
def executeText (s : Session) (fuel : Nat) (text : String) : Except Fault Outcome × Session :=
  match Block.ofText? text with
  | some block => s.execute fuel block
  | none => (.error .malformedProgram, s)

/-- The statistics of the collector, and of the compiler if there is one. The time spent in
collections is given as text. -/
def report (s : Session) (pause : String) : String :=
  let gc := s.machine.heap.stats
  "gc: " ++ toString gc.collections ++ " collections, " ++ toString gc.cellsAllocated
    ++ " cells allocated, " ++ toString gc.cellsFreed ++ " freed (" ++ toString gc.bytesFreed
    ++ " bytes), " ++ pause ++ " paused\n"
    ++ match s.machine.tier with
      | none => ""
      | some tier =>
        "jit: " ++ toString tier.functionsCompiled ++ " compiled, "
          ++ toString tier.functionsDeclined ++ " declined, " ++ toString tier.opsEmitted
          ++ " ops, " ++ toString tier.fusedBranches ++ " fused branches, "
          ++ toString tier.stubCalls ++ " stub calls\n"

end Session

end ScriptMachine
