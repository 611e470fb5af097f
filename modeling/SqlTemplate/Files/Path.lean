import SqlTemplate.Text

set_option autoImplicit false

/-!
# Paths

A path is a list of names behind an optional root. Repeated slashes, a slash at the end and
names that are a single dot mean nothing and are dropped; the name of two dots stays, because
where it leads depends on the files.
-/

namespace SqlTemplate

/-- A path. -/
structure Path where
  -- the slashes in front of an absolute path, nothing in front of a relative one
  root : Text := []
  names : List Text
  deriving DecidableEq

namespace Path

/-- The name that leads back to the directory around. -/
def parentName : Text := "..".toList

/-- The names in a text, without those that mean nothing. -/
def namesIn (t : Text) : List Text :=
  (t.splitAt (· == '/')).filter fun n => !n.isEmpty && n != ['.']

/-- The root of a path by its leading slashes. Exactly two are kept, more count as one. -/
def rootOf : Text → Text
  | '/' :: '/' :: '/' :: _ => ['/']
  | '/' :: '/' :: _ => ['/', '/']
  | '/' :: _ => ['/']
  | _ => []

/-- The path that a text denotes. -/
def ofText (t : Text) : Path := { root := rootOf t, names := namesIn t }

/-- How a path is written. -/
def text (p : Path) : Text :=
  if p.root.isEmpty && p.names.isEmpty then ['.']
  else p.root ++ Text.joinWith ['/'] p.names

/-- The greatest number of bytes of a path. -/
def maxBytes : Nat := 4095

/-- Whether a path is longer than paths may be. -/
def isTooLong (p : Path) : Bool := maxBytes < (String.ofList p.text).utf8ByteSize

end Path

end SqlTemplate
