import ScriptMachine.CommandLine.Options
import ScriptMachine.Session

/-! # A whole run

What the program does from its command line to its exit code, as a function of what files hold. -/

namespace ScriptMachine

/-- What a process leaves behind. -/
structure Completion where
  /-- The exit code. -/
  exitCode : UInt32 := 0
  /-- The standard output. -/
  stdout : String := ""
  /-- The standard error output. -/
  stderr : String := ""
deriving DecidableEq, Repr

namespace CommandLine

/-- The name and version of the program. -/
def versionText : String := "corten-vm 0.1.0\n"

/-- How the program is used, line by line. -/
def helpLines : List String :=
  ["Bytecode virtual machine",
   "",
   "Usage: corten-vm [OPTIONS]",
   "",
   "Options:",
   "  -f, --file <FILE>            Program file (a serialized code block)",
   "  -e, --eval <JSON>            Program text given inline",
   "  -c, --config <FILE>          VM configuration file; flags below override it",
   "      --timeout-ms <MS>        Abort the program after this many milliseconds",
   "      --no-ic                  Disable property and call inline caches",
   "      --jit                    Install the baseline compiler tier",
   "      --jit-threshold <CALLS>  Calls before a function is compiled (with --jit)",
   "      --strict                 Throw on writes to read-only properties",
   "      --print-bytecode         Print the disassembled program before running it",
   "      --stats                  Print collector and compiler statistics after the run",
   "      --trace                  Emit tracing events to stderr",
   "      --trace-json             Emit tracing events as JSON lines (implies --trace)",
   "  -h, --help                   Print help",
   "  -V, --version                Print version"]

/-- How the program is used. -/
def helpText : String := String.join (helpLines.map (· ++ "\n"))

/-- What files hold: the text of a file, or why it cannot be read. -/
abbrev Files := String → Except String String

/-- The text of a file. -/
def readFile (files : Files) (path : String) : Except Fault String :=
  (files path).mapError (.unreadable path)

/-- The configuration that the options ask for. -/
def configuration (files : Files) (options : Options) : Except Fault Config := do
  match options.config with
  | none => return options.override {}
  | some path =>
    match Config.ofText? (← readFile files path) with
    | some config => return options.override config
    | none => throw .malformedConfig

/-- Runs the program that the options name. -/
def runIn (files : Files) (fuel : Nat) (options : Options) (session : Session) :
    Except Fault Outcome × Session :=
  match options.file, options.eval with
  | some path, _ =>
    match readFile files path with
    | .ok text => session.executeText fuel text
    | .error fault => (.error fault, session)
  | none, some text => session.executeText fuel text
  | none, none => (.error .noProgram, session)

/-- What a fault adds to a completion. -/
def fail (c : Completion) (fault : Fault) : Completion :=
  let line := match fault with
    | .uncaught report => "Uncaught " ++ report.text
    | fault => "Error: " ++ fault.message
  { c with exitCode := fault.exitCode, stderr := c.stderr ++ line ++ "\n" }

/-- Runs a program as the options say. Statistics come before the fault or the outcome, and an
undefined outcome is not printed. -/
def runOptions (files : Files) (pause : String) (fuel : Nat) (options : Options) : Completion :=
  match configuration files options with
  | .error fault => fail {} fault
  | .ok config =>
    match Session.new config options.compile with
    | .error fault => fail {} fault
    | .ok session =>
      let (result, session) :=
        runIn files fuel options { session with printsListing := options.printListing }
      let stderr := if options.stats then session.report pause else ""
      let done : Completion := { stdout := session.output, stderr }
      match result with
      | .error fault => fail done fault
      | .ok outcome =>
        if outcome.value.isUndefined then done
        else { done with stdout := done.stdout ++ outcome.display ++ "\n" }

/-- **Runs a command line.** -/
def run (files : Files) (pause : String) (fuel : Nat) (words : List String) : Completion :=
  match Options.ofWords words with
  | .ok options => runOptions files pause fuel options
  | .error .displayHelp => { stdout := helpText }
  | .error .displayVersion => { stdout := versionText }
  | .error refusal => { exitCode := 2, stderr := "error: " ++ refusal.message ++ "\n" }

end CommandLine

end ScriptMachine
