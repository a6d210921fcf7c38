import ScriptMachine.Machine.State

/-! # Machines in listings -/

namespace ScriptMachine

/-- A boolean in a listing. -/
def flagText (b : Bool) : String := if b then "true" else "false"

/-- A policy in a listing. -/
def ReadOnlyPolicy.listingText : ReadOnlyPolicy → String
  | .ignore => "Ignore"
  | .throw => "Throw"

/-- A configuration in a listing. -/
def Config.listingText (c : Config) : String :=
  Opcode.recordText "VmConfig"
    [("gc_threshold_bytes", toString c.gcThresholdBytes),
     ("max_heap_bytes", toString c.maxHeapBytes),
     ("max_call_depth", toString c.maxCallDepth),
     ("register_file_capacity", toString c.registerFileCapacity),
     ("max_reentry_depth", toString c.maxReentryDepth),
     ("inline_caching", flagText c.inlineCaching),
     ("read_only_policy", c.readOnlyPolicy.listingText),
     ("tier_up_threshold", toString c.tierUpThreshold.toNat),
     ("time_limit_ms", optionText toString c.timeLimitMs),
     ("ticks_per_check", toString c.ticksPerCheck.toNat)]

/-- The name of an intrinsic prototype, `null` for a value that is no cell and `other` for any other
cell. -/
def Machine.prototypeName (m : Machine) (prototype : Value) : String :=
  let i := m.intrinsics
  let known := [("Object", i.objectPrototype), ("Function", i.functionPrototype),
    ("Array", i.arrayPrototype)] ++ ErrorKind.all.map fun kind => (kind.name, i.errorPrototype kind)
  if !prototype.isCell then "null"
  else ((known.find? fun (_, id) => prototype == .cell id).map (·.1)).getD "other"

/-- The intrinsic prototype of a name. -/
def Machine.prototypeNamed (m : Machine) (name : String) : Value :=
  let i := m.intrinsics
  .cell (if name == "Object" then i.objectPrototype
    else if name == "Function" then i.functionPrototype
    else if name == "Array" then i.arrayPrototype
    else i.errorPrototype ((ErrorKind.ofName? name).getD .error))

/-- A machine in a listing: its configuration and the sizes of its parts. -/
def Machine.listingText (m : Machine) : String :=
  Opcode.recordText "Vm"
    [("config", m.config.listingText),
     ("live_cells", toString m.heap.liveCells),
     ("codes", toString m.codes.size),
     ("frames", toString m.frames.size),
     ("stub_frames", toString m.stubFrames.size),
     ("natives", toString m.hosts.size),
     ("listeners", toString m.listeners.size),
     ("has_tier", flagText m.tier.isSome)]

end ScriptMachine
