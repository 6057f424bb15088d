/-
  CallLang/Directory.lean
  =======================
  **Directories.**

  A directory as far as reading a file needs it: names of entries, which may lead
  through subdirectories, and the bytes of the files.  A path is followed
  component by component; it leads to a file only through directories, and it
  must not leave the directory.
-/
import CallLang.Table
import CallLang.Text.Lines

namespace CallLang

/-- What a name in a directory stands for. -/
inductive Entry where
  | file (bytes : List UInt8)
  | directory
deriving DecidableEq, Repr

abbrev Directory := Table Entry

namespace Directory

def components (path : String) : List String :=
  (Text.splitAtEach '/' path.toList).map String.ofList

def join (names : List String) : String :=
  "/".intercalate names

/-- Whether a row of components leads to a directory: the directory itself, an entry
    that is one, or the way to another entry. -/
def isDirectory (directory : Directory) (names : List String) : Bool :=
  names.isEmpty || directory.get? (join names) == some .directory ||
    directory.names.any fun path =>
      let row := components path
      names.length < row.length && row.take names.length == names

/-- Follows components from the place already reached.  Every component but a name
    leads only on from a directory, and so does a name. -/
def follow (directory : Directory) : List String → List String → Option (List String)
  | reached, [] => some reached
  | reached, component :: rest =>
    if !directory.isDirectory reached then none
    else if component = "" ∨ component = "." then follow directory reached rest
    else if component = ".." then
      if reached.isEmpty then none else follow directory reached.dropLast rest
    else follow directory (reached ++ [component]) rest

/-- The most bytes that a path may have. -/
def maxPathSize : Nat := 4095

/-- The path of the null device, which is there in every directory tree. -/
def nullDevice : String := "/dev/null"

/-- The bytes of the file at a path, if there is one.  The null device has none. -/
def read? (directory : Directory) (path : String) : Option (List UInt8) :=
  if path = nullDevice then some []
  else if path.isEmpty || path.startsWith "/" || maxPathSize < path.utf8ByteSize then none
  else
    match directory.follow [] (components path) with
    | none => none
    | some names =>
      match directory.get? (join names) with
      | some (.file bytes) => some bytes
      | _ => none

end Directory

end CallLang
