import SqlTemplate.Text

set_option autoImplicit false

/-!
# Names with wildcards

A name in a pattern may hold wildcards: `*` for any characters, `?` for one, and brackets for one
of a set.

Inside brackets a dash between two characters makes a range. A range whose ends are in the wrong
order stands for nothing and vanishes together with its ends, and only then is it seen whether an
exclamation mark comes first, which turns the set into its complement. A bracket that is not
closed is an ordinary character, and so is a closing one in the first place of a set.
-/

namespace SqlTemplate

namespace Glob

/-! ## Sets of characters -/

/-- A set of characters. Each chunk holds members, and from the last character of a chunk to
the first one of the next chunk runs a range of members. -/
structure CharSet where
  -- whether the members are the characters that do not belong to the set
  negated : Bool
  chunks : List Text
  deriving DecidableEq

/-- Cuts the inside of brackets at the dashes that make ranges. A dash makes a range when at
least `guarded` characters came before it in its chunk; `current` holds the chunk so far, its
last character first. A dash at the very end belongs to the last chunk. -/
def cutRanges (guarded : Nat) (current : Text) : Text → List Text
  | [] => if current.isEmpty then [] else [current.reverse]
  | c :: t =>
      if c = '-' && guarded = 0 then
        match cutRanges 2 [] t with
        | [] => [current.reverse ++ ['-']]
        | chunks => current.reverse :: chunks
      else cutRanges (guarded - 1) (c :: current) t

/-- Drops the ranges whose ends are in the wrong order, from the last one to the first. -/
def dropEmptyRanges : List Text → List Text
  | [] => []
  | chunk :: chunks =>
      match dropEmptyRanges chunks with
      | [] => [chunk]
      | next :: rest =>
          match chunk.getLast?, next.head? with
          | some low, some high =>
              if high < low then (chunk.dropLast ++ next.drop 1) :: rest
              else chunk :: next :: rest
          | _, _ => chunk :: next :: rest

/-- The set that the inside of brackets describes. -/
def CharSet.ofInside (t : Text) : CharSet :=
  let guarded := if t.head? = some '!' then 2 else 1
  match dropEmptyRanges (cutRanges guarded [] t) with
  | ('!' :: chunk) :: chunks => ⟨true, chunk :: chunks⟩
  | chunks => ⟨false, chunks⟩

/-- Whether a character lies in one of the ranges between neighbouring chunks. -/
def inRange (c : Char) : List Text → Bool
  | a :: b :: chunks =>
      (match a.getLast?, b.head? with
        | some low, some high => low ≤ c && c ≤ high
        | _, _ => false) || inRange c (b :: chunks)
  | _ => false

/-- Whether a character is a member of a set. -/
def CharSet.holds (s : CharSet) (c : Char) : Bool :=
  (s.chunks.any (·.contains c) || inRange c s.chunks) != s.negated

/-! ## Names -/

/-- A part of a name with wildcards. -/
inductive Part where
  | any
  | one
  | oneOf (set : CharSet)
  | char (c : Char)

/-- The inside of brackets, when an opening one has just been read and a closing one follows. -/
def inside? (t : Text) : Option Text :=
  let mark := if t.head? = some '!' then 1 else 0
  let start := if (t.drop mark).head? = some ']' then mark + 1 else mark
  let rest := t.drop start
  if rest.contains ']' then some (t.take start ++ rest.takeWhile (· != ']')) else none

/-- The parts of a name with wildcards, behind `skip` characters that were read already. -/
def parts (skip : Nat) : Text → List Part
  | [] => []
  | c :: t =>
      match skip with
      | n + 1 => parts n t
      | 0 =>
          if c = '*' then .any :: parts 0 t
          else if c = '?' then .one :: parts 0 t
          else if c = '[' then
            match inside? t with
            | some s => .oneOf (CharSet.ofInside s) :: parts (s.length + 1) t
            | none => .char c :: parts 0 t
          else .char c :: parts 0 t

/-- The ends of a text, the text itself included. -/
def ends : Text → List Text
  | [] => [[]]
  | c :: t => (c :: t) :: ends t

/-- Whether a name has the given parts. -/
def isMatch : List Part → Text → Bool
  | [], t => t.isEmpty
  | .any :: ps, t => (ends t).any (isMatch ps)
  | .one :: ps, _ :: t => isMatch ps t
  | .oneOf s :: ps, c :: t => s.holds c && isMatch ps t
  | .char d :: ps, c :: t => c == d && isMatch ps t
  | _ :: _, [] => false

end Glob

end SqlTemplate
