import ScriptMachine.Json.Reader

/-! # Configuration

The tunables of a machine. A configuration is read from a JSON record in which every member may be
left out. -/

namespace ScriptMachine

/-- What a write to a read-only property does. -/
inductive ReadOnlyPolicy where
  /-- The write is dropped. -/
  | ignore
  /-- The write throws. -/
  | throw
deriving DecidableEq, Repr, Inhabited

/-- The tunables of a machine. -/
structure Config where
  /-- The live bytes at which the first collection is due. -/
  gcThresholdBytes : Nat := 1024 * 1024
  /-- The live bytes that are never exceeded. -/
  maxHeapBytes : Nat := 256 * 1024 * 1024
  /-- The greatest number of script frames. -/
  maxCallDepth : Nat := 1000
  /-- The greatest number of registers of all frames. -/
  registerFileCapacity : Nat := 256 * 1024
  /-- The deepest nesting of calls from the host. -/
  maxReentryDepth : Nat := 128
  /-- Property and call sites use their caches. -/
  inlineCaching : Bool := true
  /-- What a write to a read-only property does. -/
  readOnlyPolicy : ReadOnlyPolicy := .ignore
  /-- The number of calls after which a function is compiled. -/
  tierUpThreshold : UInt32 := 100
  /-- The time limit of an invocation in milliseconds. -/
  timeLimitMs : Option Nat := none
  /-- The number of interruption checks between two looks at the clock. -/
  ticksPerCheck : UInt32 := 1024
deriving DecidableEq, Repr, Inhabited

/-- A policy from its stored form. -/
def ReadOnlyPolicy.ofJson? (j : Json) : Option ReadOnlyPolicy :=
  match j.alternative? with
  | some ("ignore", none) | some ("ignore", some .null) => some .ignore
  | some ("throw", none) | some ("throw", some .null) => some .throw
  | _ => none

namespace Config

/-- The names of the members of a stored configuration. -/
def memberNames : List String :=
  ["gc_threshold_bytes", "max_heap_bytes", "max_call_depth", "register_file_capacity",
   "max_reentry_depth", "inline_caching", "read_only_policy", "tier_up_threshold",
   "time_limit_ms", "ticks_per_check"]

/-- A member that may be left out. -/
def member (default : α) (read : Json → Option α) : Option Json → Option α
  | none => some default
  | some j => read j

/-- A configuration from its stored form. -/
def ofJson? (j : Json) : Option Config := do
  let [gcThreshold, maxHeap, maxCallDepth, registerFile, maxReentry, inlineCaching, policy,
    threshold, timeLimit, ticks] ← j.members? memberNames | none
  let defaults : Config := {}
  return {
    gcThresholdBytes := ← member defaults.gcThresholdBytes Json.size? gcThreshold
    maxHeapBytes := ← member defaults.maxHeapBytes Json.size? maxHeap
    maxCallDepth := ← member defaults.maxCallDepth Json.size? maxCallDepth
    registerFileCapacity := ← member defaults.registerFileCapacity Json.size? registerFile
    maxReentryDepth := ← member defaults.maxReentryDepth Json.size? maxReentry
    inlineCaching := ← member defaults.inlineCaching Json.boolean? inlineCaching
    readOnlyPolicy := ← member defaults.readOnlyPolicy ReadOnlyPolicy.ofJson? policy
    tierUpThreshold := ← member defaults.tierUpThreshold Json.word? threshold
    timeLimitMs := ← member defaults.timeLimitMs (Json.optional? Json.size?) timeLimit
    ticksPerCheck := ← member defaults.ticksPerCheck Json.word? ticks }

/-- **The configuration a text holds**, if it holds one. -/
def ofText? (text : String) : Option Config := do
  ofJson? (← Json.read? text)

end Config

end ScriptMachine
