import SqlTemplate.Files.Path
import SqlTemplate.Number.Decimal
import SqlTemplate.Text.Quoted

set_option autoImplicit false

/-!
# Files and directories

A snapshot holds the files and directories of a file system, each under the names that lead to it
from the root, and which directory is the working one. Paths are followed name by name, so a name of
two dots leads to the directory around the one reached, and every name before the last one has to
lead to a directory. There are no links in a snapshot, and every file and directory in it can be
read.

A run of the program is a function from a snapshot to a snapshot. The file holds what it needs:
looking at what a path leads to, reading a file, creating directories and writing a file.
-/

namespace SqlTemplate

/-- What a name can stand for. -/
inductive Entry where
  | directory
  | file (content : List UInt8)
  deriving DecidableEq

/-- The files and directories of a file system. -/
structure Snapshot where
  -- the names that lead to the working directory
  home : List Text := []
  entries : List (List Text × Entry)
  deriving DecidableEq

/-! ## Errors -/

/-- What can go wrong with a path. -/
inductive FileFault where
  | missing
  | alreadyThere
  -- a name on the way leads to a file
  | notDirectory
  | isDirectory
  | nameTooLong
  deriving DecidableEq, Repr

namespace FileFault

/-- The number of a fault. -/
def number : FileFault → Nat
  | .missing => 2
  | .alreadyThere => 17
  | .notDirectory => 20
  | .isDirectory => 21
  | .nameTooLong => 36

/-- How a fault is called. -/
def title : FileFault → Text
  | .missing => "No such file or directory".toList
  | .alreadyThere => "File exists".toList
  | .notDirectory => "Not a directory".toList
  | .isDirectory => "Is a directory".toList
  | .nameTooLong => "File name too long".toList

end FileFault

/-- A fault and the path that it is about. -/
structure FileError where
  fault : FileFault
  path : Path
  deriving DecidableEq

/-- What is reported to the user. -/
def FileError.message (e : FileError) : Text :=
  "[Errno ".toList ++ Decimal.ofNat e.fault.number ++ "] ".toList ++ e.fault.title
    ++ ": ".toList ++ e.path.text.quoted

/-! ## Places -/

/-- Where a path leads: to what stands under these names inside the root. -/
structure Place where
  inside ::
  names : List Text
  deriving DecidableEq

namespace Place

/-- The directory around a place. The one around the root is the root. -/
def parent : Place → Place
  | .inside names => .inside names.dropLast

/-- The place that a name leads to. -/
def enter (p : Place) (name : Text) : Place :=
  if name = Path.parentName then p.parent else .inside (p.names ++ [name])

/-- The place that names lead to. -/
def resolve (p : Place) (names : List Text) : Place := names.foldl enter p

end Place

namespace Snapshot

/-- Where a path starts: at the root, or in the working directory. -/
def start (s : Snapshot) (p : Path) : Place := if p.root.isEmpty then .inside s.home else .inside []

/-- What stands at a place. -/
def entry? (s : Snapshot) : Place → Option Entry
  | .inside [] => some .directory
  | .inside names => List.lookup names s.entries

/-- The greatest number of bytes of a name. -/
def maxNameBytes : Nat := 255

/-- Whether a name is longer than names may be. -/
def isTooLong (name : Text) : Bool := maxNameBytes < (String.ofList name).utf8ByteSize

/-- Follows one name from a place. -/
def step (s : Snapshot) (p : Place) (name : Text) : Except FileFault Place :=
  match s.entry? p with
  | none => .error .missing
  | some (.file _) => .error .notDirectory
  | some .directory =>
      if isTooLong name then .error .nameTooLong
      else if name = Path.parentName then .ok p.parent
      else
        let next := p.enter name
        if (s.entry? next).isSome then .ok next else .error .missing

/-- Follows names from a place. -/
def walk (s : Snapshot) (p : Place) (names : List Text) : Except FileFault Place :=
  names.foldlM s.step p

/-- What names lead to from the working directory. -/
def lookAt (s : Snapshot) (names : List Text) : Except FileFault Entry := do
  let p ← s.walk (.inside s.home) names
  match s.entry? p with
  | some e => return e
  | none => .error .missing

/-- Whether names lead to a directory. -/
def isDirectory (s : Snapshot) (names : List Text) : Bool :=
  match s.lookAt names with
  | .ok .directory => true
  | _ => false

/-- The bytes of the file that a path leads to. -/
def read (s : Snapshot) (path : Path) : Except FileError (List UInt8) :=
  if path.isTooLong then .error ⟨.nameTooLong, path⟩
  else
    match s.walk (s.start path) path.names with
    | .error fault => .error ⟨fault, path⟩
    | .ok p =>
        match s.entry? p with
        | some (.file content) => .ok content
        | some .directory => .error ⟨.isDirectory, path⟩
        | none => .error ⟨.missing, path⟩

/-- The names in a directory. -/
def namesIn (s : Snapshot) (p : Place) : List Text :=
  s.entries.filterMap fun (path, _) => if path.dropLast = p.names then path.getLast? else none

/-- The directories below a directory at any depth, by the names that lead to them from
there. -/
def directoriesBelow (s : Snapshot) (p : Place) : List (List Text) :=
  s.entries.filterMap fun (path, entry) =>
    if entry = .directory && p.names.isPrefixOf path && p.names.length < path.length then
      some (path.drop p.names.length)
    else none

/-! ## Changes -/

/-- Puts an entry under names, in place of what stood there. -/
def setEntry (entries : List (List Text × Entry)) (names : List Text) (entry : Entry) :
    List (List Text × Entry) :=
  match entries with
  | [] => [(names, entry)]
  | (path, e) :: rest =>
      if path = names then (path, entry) :: rest else (path, e) :: setEntry rest names entry

/-- Puts an entry at a place, in place of what stood there. -/
def set (s : Snapshot) (names : List Text) (entry : Entry) : Snapshot :=
  { s with entries := setEntry s.entries names entry }

/-- The directory that names without the last one lead to, as the names under which the last
one would stand in it. -/
def slot (s : Snapshot) (parents : List Text) (last : Text) : Except FileFault (List Text) := do
  let around ← s.walk (.inside s.home) parents
  match s.entry? around with
  | some .directory =>
      if isTooLong last then .error .nameTooLong else return around.names ++ [last]
  | some (.file _) => .error .notDirectory
  | none => .error .missing

/-- Creates a directory in an existing one. The names are given from the last one back. -/
def makeDirectory (s : Snapshot) : (reversed : List Text) → Except FileFault Snapshot
  | [] => .error .alreadyThere
  | last :: parents => do
      if last = Path.parentName then
        let _ ← s.walk (.inside s.home) (last :: parents).reverse
        .error .alreadyThere
      else
        let names ← s.slot parents.reverse last
        if (s.entry? (.inside names)).isSome then .error .alreadyThere
        else return s.set names .directory

/-- Keeps a snapshot in which a directory could not be created, if names lead to a directory all
the same. -/
def acceptDirectory (s : Snapshot) (names : List Text) (fault : FileFault) :
    Except FileError Snapshot :=
  if s.isDirectory names then .ok s else .error ⟨fault, { names }⟩

/-- Creates a directory and whatever directories are missing on the way to it. The names are
given from the last one back. -/
def ensureDirectory (s : Snapshot) : (reversed : List Text) → Except FileError Snapshot
  | [] => .ok s
  | last :: parents =>
      let names := (last :: parents).reverse
      match s.makeDirectory (last :: parents) with
      | .ok s' => .ok s'
      | .error .missing => do
          let s' ← s.ensureDirectory parents
          match s'.makeDirectory (last :: parents) with
          | .ok s'' => .ok s''
          | .error fault => s'.acceptDirectory names fault
      | .error fault => s.acceptDirectory names fault

/-- Writes a file in an existing directory, over what it held before. -/
def write (s : Snapshot) (names : List Text) (content : List UInt8) :
    Except FileError Snapshot :=
  let failed {α : Type} (fault : FileFault) : Except FileError α := .error ⟨fault, { names }⟩
  match names.reverse with
  | [] => failed .isDirectory
  | last :: parents =>
      match s.slot parents.reverse last with
      | .error fault => failed fault
      | .ok place =>
          if last = Path.parentName then failed .isDirectory
          else
            match s.entry? (.inside place) with
            | some .directory => failed .isDirectory
            | _ => .ok (s.set place (.file content))

/-- Writes a file, creating the directories that are missing on the way to it. -/
def store (s : Snapshot) (names : List Text) (content : List UInt8) :
    Except FileError Snapshot := do
  let s' ← s.ensureDirectory (names.reverse.drop 1)
  s'.write names content

end Snapshot

end SqlTemplate
