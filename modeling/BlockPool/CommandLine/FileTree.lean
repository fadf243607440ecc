/-!
# Files by their paths

A path is followed from directory to directory.  What is met on the way says
whether there is a file at its end and, if not, why it cannot be read.
-/

namespace BlockPool.CommandLine

inductive ReadFault where
  | notFound
  | notDirectory
  | isDirectory
  | nameTooLong
  | other (text : String)
  deriving DecidableEq, Repr

def ReadFault.message : ReadFault → String
  | notFound => "No such file or directory (os error 2)"
  | notDirectory => "Not a directory (os error 20)"
  | isDirectory => "Is a directory (os error 21)"
  | nameTooLong => "File name too long (os error 36)"
  | other text => text

abbrev Files := String → Except ReadFault String

inductive Entry where
  | directory
  | file (text : String)
  deriving DecidableEq, Repr

/-- The names on the way to a place, the last first. -/
abbrev Place := List String

def here : Place := ["."]

structure FileTree where
  entries : List (Place × Entry)
  deriving DecidableEq, Repr

namespace FileTree

def entry? (tree : FileTree) (place : Place) : Option Entry :=
  if place = [] || place = here then some .directory
  else tree.entries.lookup place

def nameLimit : Nat := 255

def pathLimit : Nat := 4095

/-- Follows names from a place.  A name is looked up only in a directory. -/
def follow (tree : FileTree) : Place → Entry → List String → Except ReadFault Entry
  | _, found, [] => .ok found
  | _, .file _, _ :: _ => .error .notDirectory
  | place, .directory, name :: names =>
      if name = "" || name = "." then follow tree place .directory names
      else if name = ".." then follow tree place.tail .directory names
      else if nameLimit < name.utf8ByteSize then .error .nameTooLong
      else
        match tree.entry? (name :: place) with
        | none => .error .notFound
        | some found => follow tree (name :: place) found names

def find (tree : FileTree) (path : String) : Except ReadFault Entry :=
  if path = "" then .error .notFound
  else if pathLimit < path.utf8ByteSize then .error .nameTooLong
  else
    follow tree (if path.startsWith "/" then [] else here) .directory
      (path.splitOn "/")

def read (tree : FileTree) : Files := fun path =>
  match tree.find path with
  | .error fault => .error fault
  | .ok .directory => .error .isDirectory
  | .ok (.file text) => .ok text

end FileTree

end BlockPool.CommandLine
