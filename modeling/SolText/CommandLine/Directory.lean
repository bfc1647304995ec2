import SolText.Text.Bytes
import SolText.Text.Split

/-!
# Files and where they lie

The program reads whole text files by their paths. A `Directory` holds files in memory, for the
program to run in.

A path is followed name by name, from the directory itself or, after a leading slash, from outside.
An empty name and `.` stay where they are and `..` goes one directory up, but each of them has to
stand behind a directory. Outside there are only directories without files.

* `Directory.read`: the text of the file that a path leads to.
-/

namespace SolText.CommandLine

open Text

/-- Why a file could not be read. -/
inductive ReadFailure where
  | notFound
  | isDirectory
  /-- A file stands where the path goes on. -/
  | notDirectory
  /-- The path or one of its names is too long. -/
  | invalidName
  /-- The bytes of the file are no text. -/
  | invalidData
  | denied
  | other
  deriving DecidableEq, Repr

/-- What is said of a file that could not be read. -/
def ReadFailure.description : ReadFailure → String
  | notFound => "entity not found"
  | isDirectory => "is a directory"
  | notDirectory => "not a directory"
  | invalidName => "invalid filename"
  | invalidData => "invalid data"
  | denied => "permission denied"
  | other => "uncategorized error"

/-- The contents of files by their paths. -/
abbrev Files := String → Except ReadFailure String

/-- The name of a file or a directory within the one that holds it. -/
abbrev Name := List Char

/-- The names that a path consists of, those that stay in place left out. -/
def namesOf (path : String) : List Name :=
  (splitAll '/' path.toList).filter fun name => name ≠ [] ∧ name ≠ ['.']

/-- Files and directories by the names that lead to them. A file that cannot be read as text comes
with the reason. The directories that lead to a file or to another directory need not be listed. -/
structure Directory where
  files : List (List Name × Except ReadFailure String)
  directories : List (List Name)

namespace Directory

/-- Where a path has led: inside to the given names, the innermost first, or outside. -/
inductive Place where
  | inside (names : List Name)
  | outside
  deriving DecidableEq, Repr

/-- How many bytes a name may have. -/
def maxNameLength : Nat := 255

/-- How many bytes a path may have. -/
def maxPathLength : Nat := 4095

/-- Whether there is a directory under the given names. -/
def isDirectory (directory : Directory) (names : List Name) : Bool :=
  names.isEmpty || directory.directories.any names.isPrefixOf ||
    directory.files.any fun file => names.isPrefixOf file.1 && file.1 ≠ names

/-- The text of the file at a place. -/
def readAt (directory : Directory) : Place → Except ReadFailure String
  | .outside => .error .isDirectory
  | .inside names =>
    if directory.isDirectory names.reverse then .error .isDirectory
    else (directory.files.lookup names.reverse).getD (.error .notFound)

/-- The failure of going on from a place, if it is no directory. -/
def obstacle? (directory : Directory) : Place → Option ReadFailure
  | .outside => none
  | .inside names =>
    if directory.isDirectory names.reverse then none
    else if (directory.files.lookup names.reverse).isSome then some .notDirectory
    else some .notFound

/-- The place that a name leads to. -/
def step (directory : Directory) (place : Place) (name : Name) : Except ReadFailure Place :=
  match directory.obstacle? place with
  | some failure => .error failure
  | none =>
    if name = [] ∨ name = ['.'] then .ok place
    else
      match place with
      | .outside => if name = ['.', '.'] then .ok .outside else .error .notFound
      | .inside names =>
        if name = ['.', '.'] then
          match names with
          | [] => .ok .outside
          | _ :: above => .ok (.inside above)
        else if byteLength name > maxNameLength then .error .invalidName
        else .ok (.inside (name :: names))

/-- The text of the file that a path leads to. -/
def read (directory : Directory) : Files := fun path => do
  let text := path.toList
  if text.isEmpty then throw .notFound
  if byteLength text > maxPathLength then throw .invalidName
  let start := if text.head? = some '/' then .outside else .inside []
  let place ← (splitAll '/' text).foldlM directory.step start
  directory.readAt place

end Directory

end SolText.CommandLine
