import ScriptMachine.CommandLine.Folder

/-! # The command line

Reads the files a command line names, runs it, and prints what it leaves behind. -/

namespace ScriptMachine.CommandLine

/-- Why a file cannot be read. -/
def reasonText : IO.Error → String
  | .noFileOrDirectory .. => PathFault.absent.message
  | .permissionDenied .. => "Permission denied (os error 13)"
  | .inappropriateType _ 21 _ => PathFault.isFolder.message
  | .inappropriateType .. => PathFault.notFolder.message
  | .invalidArgument (some _) .. => PathFault.tooLong.message
  | .userError _ => "stream did not contain valid UTF-8"
  | error => toString error

/-- What the files at some paths hold. -/
def readFiles (paths : List String) : IO Files := do
  let texts ← paths.mapM fun (path : String) => do
    match ← (IO.FS.readFile path).toBaseIO with
    | .ok text => return (path, Except.ok text)
    | .error error => return (path, Except.error (reasonText error))
  return fun path => (texts.lookup path).getD (.error "not read")

end ScriptMachine.CommandLine

open ScriptMachine

/-- Runs the command line. -/
def main (words : List String) : IO UInt32 := do
  let paths := match Options.ofWords words with
    | .ok options => options.file.toList ++ options.config.toList
    | .error _ => []
  let completion := CommandLine.run (← CommandLine.readFiles paths) "0ns" 1000000000000000 words
  IO.print completion.stdout
  IO.eprint completion.stderr
  return completion.exitCode
