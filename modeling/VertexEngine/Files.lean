import VertexEngine.Error

/-!
# Files

Why a file cannot be read, and a model of a system of files: a tree of directories in which a path
leads from name to name.  `.` and an empty name stay in a directory, `..` goes up, and nothing else
than a directory can be walked through.
-/

namespace VertexEngine

/-- Why a file cannot be read. -/
inductive FileFault where
  | missing
  | denied
  | notADirectory
  | isADirectory
  | nameTooLong
  /-- The path has a zero character in it. -/
  | zeroInName
  deriving DecidableEq, Repr

namespace FileFault

/-- The number by which the system knows a fault. -/
def code? : FileFault → Option Nat
  | missing => some 2
  | denied => some 13
  | notADirectory => some 20
  | isADirectory => some 21
  | nameTooLong => some 36
  | zeroInName => none

/-- The fault that the system knows by a number. -/
def ofCode? (code : Nat) : Option FileFault :=
  [missing, denied, notADirectory, isADirectory, nameTooLong].find? fun f => f.code? = some code

/-- What is said about a fault. -/
def text : FileFault → String
  | missing => "No such file or directory"
  | denied => "Permission denied"
  | notADirectory => "Not a directory"
  | isADirectory => "Is a directory"
  | nameTooLong => "File name too long"
  | zeroInName => "file name contained an unexpected NUL byte"

/-- The error for a file that cannot be read. -/
def error (f : FileFault) : EngineError :=
  match f.code? with
  | some code => .io s!"{f.text} (os error {code})"
  | none => .io f.text

end FileFault

/-! ## Trees of files -/

/-- A file with its content, or a directory with its entries. -/
inductive FileTree where
  | file (content : List UInt8)
  | directory (entries : List (String × FileTree))

namespace FileTree

/-- How many bytes a name may have. -/
def maxName : Nat := 255

/-- How many bytes a path may have. -/
def maxPath : Nat := 4095

/-- The entry of a directory. -/
def entry (t : FileTree) (name : String) : Except FileFault FileTree :=
  match t with
  | .file _ => .error .notADirectory
  | .directory entries =>
    if maxName < name.utf8ByteSize then .error .nameTooLong
    else (entries.lookup name).elim (.error .missing) .ok

/-- Where names lead from `t`.  The directories above it come nearest first; there is nothing above
the last one of them, nor above `t` if there are none. -/
def follow (above : List FileTree) (t : FileTree) : List String → Except FileFault FileTree
  | [] => .ok t
  | name :: names =>
    match t with
    | .file _ => .error .notADirectory
    | .directory _ =>
      if name = "" || name = "." then follow above t names
      else if name = ".." then
        match above with
        | [] => follow [] t names
        | parent :: above => follow above parent names
      else do follow (t :: above) (← t.entry name) names

/-- Where a path leads.  One that does not begin with a slash begins at the directory to which the
names `place` lead from the root. -/
def walk (t : FileTree) (place : List String) (path : String) : Except FileFault FileTree :=
  if path.contains '\x00' then .error .zeroInName
  else if maxPath < path.utf8ByteSize then .error .nameTooLong
  else
    let names := path.splitOn "/"
    t.follow [] (if path.startsWith "/" then names else place ++ names)

/-- The content of the file that a path leads to. -/
def read (t : FileTree) (place : List String) (path : String) :
    Except FileFault (List UInt8) := do
  match ← t.walk place path with
  | .file content => return content
  | .directory _ => throw .isADirectory

/-! ## A usual system -/

/-- The directories at the root of a usual system, each with some that are in it. -/
def usualDirectories : List (String × List String) :=
  [("bin", []), ("boot", []), ("etc", []), ("home", []), ("lib", []), ("media", []), ("mnt", []),
    ("opt", []), ("proc", ["self"]), ("root", []), ("run", []), ("sbin", []), ("srv", []),
    ("sys", []), ("tmp", []), ("usr", ["bin", "include", "lib", "local", "sbin", "share", "src"]),
    ("var", ["cache", "lib", "log", "tmp"])]

/-- A directory of empty directories. -/
def ofNames (names : List String) : FileTree :=
  .directory (names.map fun name => (name, .directory []))

/-- A usual system with some more files at its root.  Of its devices it has the one that is always
empty. -/
def usual (files : List (String × List UInt8)) : FileTree :=
  .directory (files.map (fun (name, content) => (name, .file content))
    ++ ("dev", .directory [("null", .file []), ("pts", .directory []), ("shm", .directory [])])
    :: usualDirectories.map fun (name, inside) => (name, ofNames inside))

/-- The working directory of a usual system. -/
def usualPlace : List String := ["tmp"]

end FileTree

end VertexEngine
