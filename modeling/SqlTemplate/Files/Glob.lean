import SqlTemplate.Files.Snapshot
import SqlTemplate.Files.Wildcard

set_option autoImplicit false

/-!
# Selecting files by a pattern

A pattern is a relative path whose names may hold wildcards. The name `**` stands for directories
at any depth, the one reached included. A slash at the end selects directories only. A name
without wildcards is followed as it is, and two dots lead to the directory around.
-/

namespace SqlTemplate

namespace Glob

/-! ## Patterns -/

/-- A name in a pattern. -/
inductive Selector where
  | name (name : Text)
  | wild (parts : List Part)
  | anyDepth

/-- A pattern. -/
structure Pattern where
  selectors : List Selector
  directoriesOnly : Bool

/-- Why a text is no pattern. -/
inductive PatternError where
  | empty
  | absolute
  -- two stars are a part of a name
  | starsInName
  -- it has no name
  | noName
  | noNameButSlash
  deriving DecidableEq, Repr

/-- What is reported to the user. -/
def PatternError.message : PatternError → Text
  | .empty => "Unacceptable pattern: ''".toList
  | .absolute => "Non-relative patterns are unsupported".toList
  | .starsInName => "Invalid pattern: '**' can only be an entire path component".toList
  | .noName => "tuple index out of range".toList
  | .noNameButSlash => "'_TerminatingSelector' object has no attribute 'select_from'".toList

/-- Whether two stars stand next to each other in a text. -/
def hasDoubleStar : Text → Bool
  | '*' :: '*' :: _ => true
  | _ :: t => hasDoubleStar t
  | [] => false

/-- Whether a name has wildcards. -/
def isWild (name : Text) : Bool := name.any fun c => c == '*' || c == '?' || c == '['

/-- What a name in a pattern selects. -/
def Selector.ofName (name : Text) : Except PatternError Selector :=
  if name = "**".toList then .ok .anyDepth
  else if hasDoubleStar name then .error .starsInName
  else if isWild name then .ok (.wild (parts 0 name))
  else .ok (.name name)

/-- What the names of a pattern select. -/
def Selector.ofNames : List Text → Except PatternError (List Selector)
  | [] => .ok []
  | n :: ns => do
      let selector ← ofName n
      let selectors ← ofNames ns
      return selector :: selectors

/-- The pattern that a text denotes. -/
def Pattern.ofText (t : Text) : Except PatternError Pattern := do
  if t.isEmpty then .error .empty
  else if t.head? = some '/' then .error .absolute
  else
    let directoriesOnly := t.getLast? == some '/'
    match Path.namesIn t with
    | [] => .error (if directoriesOnly then .noNameButSlash else .noName)
    | names => return { selectors := ← Selector.ofNames names, directoriesOnly }

/-! ## Selection -/

/-- The paths that selectors select from a place. `base` are the names that lead to the place
and `found` those of them behind the directory in which the selection began. A name or a path
that is longer than it may be is an error. -/
def select (s : Snapshot) (directoriesOnly : Bool) (base : List Text) :
    List Selector → Place → (found : List Text) → Except FileError (List (List Text))
  | [], _, found => .ok [found]
  | .name n :: rest, p, found =>
      let path : Path := { names := base ++ found ++ [n] }
      if path.isTooLong then .error ⟨.nameTooLong, path⟩
      else
        match s.step p n with
        | .error .nameTooLong => .error ⟨.nameTooLong, path⟩
        | .error _ => .ok []
        | .ok next =>
            if (directoriesOnly || !rest.isEmpty) && s.entry? next != some .directory then .ok []
            else select s directoriesOnly base rest next (found ++ [n])
  | .wild ps :: rest, p, found => do
      let names := (s.namesIn p).filter (isMatch ps)
      let results ← names.mapM fun n =>
        match s.step p n with
        | .error _ => .ok []
        | .ok next =>
            if (directoriesOnly || !rest.isEmpty) && s.entry? next != some .directory then .ok []
            else select s directoriesOnly base rest next (found ++ [n])
      return results.flatten
  | .anyDepth :: rest, p, found => do
      let results ← ([] :: s.directoriesBelow p).mapM fun names =>
        match s.walk p names with
        | .error _ => .ok []
        | .ok next => select s directoriesOnly base rest next (found ++ names)
      return results.flatten

/-- The paths in a directory that a pattern selects, by their names from there, in the order of
these names. -/
def selectIn (s : Snapshot) (base : List Text) (pattern : Pattern) :
    Except FileError (List (List Text)) := do
  match s.walk (.inside s.home) base with
  | .error _ => return []
  | .ok p =>
      if s.entry? p != some .directory then return []
      else
        let paths ← select s pattern.directoriesOnly base pattern.selectors p []
        return paths.eraseDups.mergeSort fun a b => (compare a b).isLE

end Glob

end SqlTemplate
