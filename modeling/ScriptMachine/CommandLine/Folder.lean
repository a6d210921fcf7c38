import ScriptMachine.CommandLine.Run

/-! # Files by their paths

A command line names files by paths. A `Folder` holds the files of the working directory, and
`Folder.read` follows a path from there, one component after the other, to the text of a file or to
the reason why there is none. Of everything outside the working directory only the usual top-level
directories and the null device are known. -/

namespace ScriptMachine.CommandLine

/-- Why a path leads to no text. -/
inductive PathFault where
  /-- There is nothing of that name. -/
  | absent
  /-- The path goes on behind a file. -/
  | notFolder
  /-- The path leads to a folder. -/
  | isFolder
  /-- A component or the whole path is too long. -/
  | tooLong
deriving DecidableEq, Repr

/-- The reason in words, with its number. -/
def PathFault.message : PathFault → String
  | .absent => "No such file or directory (os error 2)"
  | .notFolder => "Not a directory (os error 20)"
  | .isFolder => "Is a directory (os error 21)"
  | .tooLong => "File name too long (os error 36)"

/-- The most bytes a component may have. -/
def maxNameBytes : Nat := 255

/-- The most bytes a path may have. -/
def maxPathBytes : Nat := 4095

/-- A tree of files. A component list that is a proper beginning of a file's path is a folder. -/
structure Folder where
  /-- The files, by the components of their paths. -/
  files : List (List String × String) := []
deriving DecidableEq, Repr

/-- What a path has led to so far. -/
inductive Place where
  /-- A file with its text. -/
  | file (text : String)
  /-- The folder at some components of a tree, and whether the tree begins at the top of the
  system. -/
  | folder (tree : Folder) (top : Bool) (components : List String)
deriving Repr

namespace Folder

/-- The components of a path; a path that ends in a slash ends in an empty component. -/
def components (path : String) : List String := path.splitOn "/"

/-- The tree of files with the given paths. -/
def ofPaths (files : List (String × String)) : Folder :=
  ⟨files.map fun (path, text) => (components path, text)⟩

/-- The usual top-level directories. -/
def topNames : List String :=
  ["bin", "dev", "etc", "home", "lib", "opt", "proc", "root", "run", "sbin", "sys", "tmp", "usr",
   "var"]

/-- What is known of the whole system: its top-level directories, and the null device, which reads
as an empty text. -/
def system : Folder := ⟨(["dev", "null"], "") :: topNames.map fun name => ([name, "."], "")⟩

/-- What stands at some components of a tree. -/
def at? (tree : Folder) (top : Bool) (path : List String) : Option Place :=
  match tree.files.lookup path with
  | some text => some (.file text)
  | none =>
    if tree.files.any fun (other, _) => path.isPrefixOf other then some (.folder tree top path)
    else none

/-- One step of a path. Empty components and `.` stay in a folder, `..` goes up; above the working
directory there are folders of which nothing else is known. -/
def step (place : Place) (name : String) : Except PathFault Place :=
  match place with
  | .file _ => .error .notFolder
  | .folder tree top path =>
    if name == "" || name == "." then .ok place
    else if name == ".." then
      if path.isEmpty && !top then .ok (.folder {} true [])
      else .ok (.folder tree top path.dropLast)
    else if maxNameBytes < name.utf8ByteSize then .error .tooLong
    else match tree.at? top (path ++ [name]) with
      | some next => .ok next
      | none => .error .absent

/-- **Reads the file at a path**, from the working directory or, behind a leading slash, from the
top of the system. -/
def read (folder : Folder) (path : String) : Except PathFault String := do
  if path.isEmpty then throw .absent
  if maxPathBytes < path.utf8ByteSize then throw .tooLong
  let start := if path.startsWith "/" then Place.folder system true [] else .folder folder false []
  match ← (components path).foldlM step start with
  | .file text => return text
  | .folder .. => throw .isFolder

/-- The folder as what its files hold. -/
def toFiles (folder : Folder) : Files := fun path => (folder.read path).mapError PathFault.message

end Folder

end ScriptMachine.CommandLine
