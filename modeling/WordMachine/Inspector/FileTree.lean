/-!
Files in a tree of directories, and where a path leads. A path is a row of names with slashes
between them. It starts at the root if it begins with a slash, and else at the working directory.
No name may follow the name of a file, not even an empty one or a dot.
-/

namespace WordMachine.Inspector

inductive FileFault where
  | missing
  | isDirectory
  | notDirectory
  /-- A name of the path, or the whole path, is too long. -/
  | longName
  /-- The path holds the character with number zero. -/
  | zeroInName
  /-- A fault of another kind, in the words of the system. -/
  | other (message : String)
deriving DecidableEq

def FileFault.message : FileFault → String
  | missing => "No such file or directory (os error 2)"
  | isDirectory => "Is a directory (os error 21)"
  | notDirectory => "Not a directory (os error 20)"
  | longName => "File name too long (os error 36)"
  | zeroInName => "file name contained an unexpected NUL byte"
  | other message => message

/-- What is found under each path. -/
abbrev Files := String → Except FileFault (List UInt8)

inductive FileTree where
  | file (bytes : List UInt8)
  | directory (entries : List (String × FileTree))

namespace FileTree

abbrev Entries := List (String × FileTree)

/-- Where a path has led so far: to a file, or to a directory, with those above it, the nearest
first. -/
inductive Place where
  | file (bytes : List UInt8)
  | directory (entries : Entries) (above : List Entries)

/-- The most bytes that a name has. -/
def longestName : Nat := 255

/-- The most bytes that a path has. -/
def longestPath : Nat := 4095

namespace Place

/-- The place that a name leads to. There is nothing above the root but the root. -/
def next : Place → String → Except FileFault Place
  | file _, _ => .error .notDirectory
  | directory here above, "" | directory here above, "." => .ok (directory here above)
  | directory here [], ".." => .ok (directory here [])
  | directory _ (parent :: above), ".." => .ok (directory parent above)
  | directory here above, name =>
    if longestName < name.utf8ByteSize then .error .longName
    else match here.lookup name with
      | none => .error .missing
      | some (.file bytes) => .ok (file bytes)
      | some (.directory entries) => .ok (directory entries (here :: above))

/-- The root that this place is under. -/
def root : Place → Place
  | file bytes => file bytes
  | directory here above => directory ((here :: above).getLastD here) []

def content : Place → Except FileFault (List UInt8)
  | file bytes => .ok bytes
  | directory _ _ => .error .isDirectory

/-- Reads the file that a path leads to from a working directory. -/
def files (working : Place) : Files := fun path => do
  if '\x00' ∈ path.toList then throw .zeroInName
  if path.isEmpty then throw .missing
  if longestPath < path.utf8ByteSize then throw .longName
  let start := if path.startsWith "/" then working.root else working
  (← (path.splitOn "/").foldlM next start).content

@[simp]
theorem next_file (bytes : List UInt8) (name : String) :
    (file bytes).next name = .error .notDirectory := by
  simp [next]

end Place

/-- A working directory with these files, among the usual directories of a system. They are taken to
be empty, but for the null device. -/
def working (files : List (String × List UInt8)) : Place :=
  let temporary := ("tmp", directory [])
  let devices := ("dev", directory [("null", file [])])
  let others :=
    ["bin", "etc", "home", "lib", "opt", "proc", "root", "run", "sbin", "sys", "usr", "var"]
  let root := temporary :: devices :: others.map fun name => (name, directory [])
  .directory (files.map fun (name, bytes) => (name, file bytes)) [[], root]

end FileTree

end WordMachine.Inspector
