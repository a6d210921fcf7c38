import ScriptMachine.Config

/-! # Options

What a command line asks for. Words are read from left to right. An option that takes a value holds
it back until the next option or the end; only then is the value read, so that an unknown word
further on is reported before a value that cannot be read. Every option may be given once. -/

namespace ScriptMachine

/-- What a command line asks for. -/
structure Options where
  /-- The file that holds the program. -/
  file : Option String := none
  /-- The program itself. -/
  eval : Option String := none
  /-- The file that holds the configuration. -/
  config : Option String := none
  /-- The time limit in milliseconds. -/
  timeoutMs : Option Nat := none
  /-- Property and call sites do without caches. -/
  noCaches : Bool := false
  /-- The compiler is installed. -/
  compile : Bool := false
  /-- The number of calls after which a function is compiled. -/
  compileThreshold : Option UInt32 := none
  /-- Writes to read-only properties throw. -/
  strict : Bool := false
  /-- The program is listed before it runs. -/
  printListing : Bool := false
  /-- Statistics are printed after the run. -/
  stats : Bool := false
  /-- Events are traced. -/
  trace : Bool := false
  /-- Events are traced as JSON lines. -/
  traceJson : Bool := false
deriving DecidableEq, Repr, Inhabited

namespace Options

/-- **The configuration with the options on top of it.** -/
def override (o : Options) (config : Config) : Config :=
  { config with
    timeLimitMs := o.timeoutMs <|> config.timeLimitMs
    inlineCaching := config.inlineCaching && !o.noCaches
    tierUpThreshold := o.compileThreshold.getD config.tierUpThreshold
    readOnlyPolicy := if o.strict then .throw else config.readOnlyPolicy }

/-- Some kind of tracing is asked for. -/
def tracing (o : Options) : Bool := o.trace || o.traceJson

end Options

/-! ### Refusals -/

/-- Why a command line gives no options. -/
inductive Refusal where
  /-- A word is no option, or an option is not known. -/
  | unknownArgument
  /-- A value is missing or empty. -/
  | invalidValue
  /-- A value cannot be read. -/
  | valueValidation
  /-- An option is repeated, or two options exclude each other. -/
  | argumentConflict
  /-- An option that takes no value has one. -/
  | tooManyValues
  /-- Help is asked for. -/
  | displayHelp
  /-- The version is asked for. -/
  | displayVersion
deriving DecidableEq, Repr, Inhabited

namespace Refusal

/-- The name of a refusal. -/
def name : Refusal → String
  | .unknownArgument => "UnknownArgument"
  | .invalidValue => "InvalidValue"
  | .valueValidation => "ValueValidation"
  | .argumentConflict => "ArgumentConflict"
  | .tooManyValues => "TooManyValues"
  | .displayHelp => "DisplayHelp"
  | .displayVersion => "DisplayVersion"

/-- What a refusal says. -/
def message : Refusal → String
  | .unknownArgument => "unexpected argument"
  | .invalidValue => "a value is required"
  | .valueValidation => "invalid value"
  | .argumentConflict => "an argument cannot be used with another one or twice"
  | .tooManyValues => "unexpected value"
  | .displayHelp => "help"
  | .displayVersion => "version"

end Refusal

/-! ### Switches -/

/-- An option that takes a value. -/
inductive Setting where
  | file | eval | config | timeoutMs | compileThreshold
deriving DecidableEq, Repr, Inhabited

/-- An option that takes no value. -/
inductive Flag where
  | noCaches | compile | strict | printListing | stats | trace | traceJson
deriving DecidableEq, Repr, Inhabited

/-- An option. -/
inductive Switch where
  /-- An option that takes a value. -/
  | setting (setting : Setting)
  /-- An option that takes no value. -/
  | flag (flag : Flag)
  /-- An option that only shows something. -/
  | display (shown : Refusal)
deriving DecidableEq, Repr, Inhabited

namespace Switch

/-- The option with a long name. -/
def ofLong? : String → Option Switch
  | "file" => some (.setting .file)
  | "eval" => some (.setting .eval)
  | "config" => some (.setting .config)
  | "timeout-ms" => some (.setting .timeoutMs)
  | "jit-threshold" => some (.setting .compileThreshold)
  | "no-ic" => some (.flag .noCaches)
  | "jit" => some (.flag .compile)
  | "strict" => some (.flag .strict)
  | "print-bytecode" => some (.flag .printListing)
  | "stats" => some (.flag .stats)
  | "trace" => some (.flag .trace)
  | "trace-json" => some (.flag .traceJson)
  | "help" => some (.display .displayHelp)
  | "version" => some (.display .displayVersion)
  | _ => none

/-- The option with a short name. -/
def ofShort? : Char → Option Switch
  | 'f' => some (.setting .file)
  | 'e' => some (.setting .eval)
  | 'c' => some (.setting .config)
  | 'h' => some (.display .displayHelp)
  | 'V' => some (.display .displayVersion)
  | _ => none

end Switch

/-! ### Values -/

/-- A nonempty row of decimal digits as a number. -/
def digitsNat? (cs : List Char) : Option Nat :=
  if cs.isEmpty || !cs.all Char.isDigit then none
  else some (cs.foldl (fun n c => 10 * n + (c.toNat - '0'.toNat)) 0)

/-- A whole number with an optional plus sign. -/
def unsignedNat? : List Char → Option Nat
  | '+' :: cs => digitsNat? cs
  | cs => digitsNat? cs

/-- A whole number with an optional sign; only zero may be negative. -/
def signedNat? : List Char → Option Nat
  | '-' :: cs => (digitsNat? cs).filter (· = 0)
  | cs => unsignedNat? cs

/-- A path, which is not empty. -/
def pathValue (text : String) : Except Refusal String :=
  if text.isEmpty then .error .invalidValue else .ok text

/-- A number below a bound. -/
def numberValue (bound : Nat) (number : Option Nat) : Except Refusal Nat :=
  match number with
  | some n => if n < bound then .ok n else .error .valueValidation
  | none => .error .valueValidation

namespace Options

/-- The option has been given. -/
def has (o : Options) : Setting → Bool
  | .file => o.file.isSome
  | .eval => o.eval.isSome
  | .config => o.config.isSome
  | .timeoutMs => o.timeoutMs.isSome
  | .compileThreshold => o.compileThreshold.isSome

/-- Gives an option its value, which it may have only once. -/
def assign (o : Options) (setting : Setting) (text : String) : Except Refusal Options := do
  if o.has setting then throw .argumentConflict
  match setting with
  | .file => return { o with file := some (← pathValue text) }
  | .eval => return { o with eval := some text }
  | .config => return { o with config := some (← pathValue text) }
  | .timeoutMs =>
    let limit ← numberValue UInt64.size (unsignedNat? text.toList)
    return { o with timeoutMs := some limit }
  | .compileThreshold =>
    let threshold ← numberValue UInt32.size (signedNat? text.toList)
    return { o with compileThreshold := some threshold.toUInt32 }

/-- Sets a flag, which is done only once. -/
def setFlag (o : Options) (flag : Flag) : Except Refusal Options :=
  let (isSet, o) : Bool × Options := match flag with
    | .noCaches => (o.noCaches, { o with noCaches := true })
    | .compile => (o.compile, { o with compile := true })
    | .strict => (o.strict, { o with strict := true })
    | .printListing => (o.printListing, { o with printListing := true })
    | .stats => (o.stats, { o with stats := true })
    | .trace => (o.trace, { o with trace := true })
    | .traceJson => (o.traceJson, { o with traceJson := true })
  if isSet then .error .argumentConflict else .ok o

end Options

/-! ### Words -/

/-- The state between two words. -/
structure OptionsReader where
  /-- The options settled so far. -/
  options : Options := {}
  /-- The last option with its value, not settled yet; it has no value when it waits for one. -/
  pending : Option (Setting × Option String) := none
deriving DecidableEq, Repr, Inhabited

namespace OptionsReader

/-- Settles the pending option. -/
def settle (r : OptionsReader) : Except Refusal Options :=
  match r.pending with
  | none => .ok r.options
  | some (_, none) => .error .invalidValue
  | some (setting, some text) => r.options.assign setting text

/-- Meets an option that stands without a value. -/
def meet (r : OptionsReader) (switch : Switch) : Except Refusal OptionsReader := do
  let options ← r.settle
  match switch with
  | .setting setting => return { options, pending := some (setting, none) }
  | .flag flag => return { options := ← options.setFlag flag }
  | .display shown => throw shown

/-- Meets an option with the value attached to it. -/
def meetValue (r : OptionsReader) (setting : Setting) (text : String) :
    Except Refusal OptionsReader := do
  return { options := ← (← r.settle).assign setting text }

/-- Reads an option by its long name, a value after the first equality sign. -/
def readLong (r : OptionsReader) (word : List Char) : Except Refusal OptionsReader :=
  let name := String.ofList (word.takeWhile (· != '='))
  let rest := word.dropWhile (· != '=')
  match Switch.ofLong? name, rest with
  | none, _ => .error .unknownArgument
  | some switch, [] => r.meet switch
  | some (.setting setting), _ :: value => r.meetValue setting (String.ofList value)
  | some _, _ :: _ => .error .tooManyValues

/-- Reads options by their short names. The first one that takes a value takes the rest of the
word. -/
def readShort (r : OptionsReader) : List Char → Except Refusal OptionsReader
  | [] => .ok r
  | c :: cs =>
    match Switch.ofShort? c, cs with
    | none, _ => .error .unknownArgument
    | some (.setting setting), '=' :: value => r.meetValue setting (String.ofList value)
    | some (.setting setting), c' :: cs' => r.meetValue setting (String.ofList (c' :: cs'))
    | some switch, _ => do (← r.meet switch).readShort cs

/-- **Reads words.** After a word of two dashes nothing may follow. -/
def readWords (r : OptionsReader) : List String → Except Refusal Options
  | [] => r.settle
  | word :: words =>
    match word.toList, r.pending with
    | ['-', '-'], _ => if words.isEmpty then r.settle else .error .unknownArgument
    | '-' :: '-' :: name, _ => do (← r.readLong name).readWords words
    | '-' :: c :: cs, _ => do (← r.readShort (c :: cs)).readWords words
    | _, some (setting, none) => { r with pending := some (setting, some word) }.readWords words
    | _, _ => .error .unknownArgument

end OptionsReader

/-- **Reads a command line.** The program comes from one place only. -/
def Options.ofWords (words : List String) : Except Refusal Options := do
  let options ← OptionsReader.readWords {} words
  if options.file.isSome && options.eval.isSome then throw .argumentConflict
  return options

end ScriptMachine
