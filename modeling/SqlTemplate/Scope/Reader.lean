import SqlTemplate.Number.Decimal
import SqlTemplate.Scope
import SqlTemplate.Text.Blank

set_option autoImplicit false

/-!
# Reading the scopes of a template

The words of a template are taken one by one. An opening delimiter opens a scope inside the one
being read, a closing delimiter closes it, and any other word joins it. The scopes that are open
form a stack, the innermost on top.

A strict reading refuses a closing delimiter that closes nothing and a template that ends inside
a scope. A lenient reading skips the one, noting its place, and closes the other.
-/

namespace SqlTemplate

/-- How the delimiters of a template fail to balance. -/
inductive Imbalance where
  -- a closing delimiter, the word of this number counted from zero, closes nothing
  | strayClose (position : Nat)
  | unclosed (count : Nat)
  deriving DecidableEq, Repr

namespace Imbalance

/-- What is reported to the user. -/
def message : Imbalance → Text
  | .strayClose n =>
      "'".toList ++ Keyword.scopeClose.text ++ "' at token ".toList ++ Decimal.ofNat n
        ++ " has no matching '".toList ++ Keyword.scopeOpen.text ++ "'".toList
  | .unclosed n =>
      Decimal.ofNat n ++ " '".toList ++ Keyword.scopeOpen.text
        ++ "' scope(s) left unclosed".toList

end Imbalance

/-- The scopes that are open at some point of a template. -/
structure OpenScopes where
  -- the pieces of the innermost open scope, the newest first
  current : List Piece := []
  -- the pieces of the scopes around it, from the inside out, each with the newest first
  around : List (List Piece) := []

namespace OpenScopes

/-- How many scopes are open inside the template. -/
def depth (s : OpenScopes) : Nat := s.around.length

/-- Adds a word to the innermost scope. -/
def addWord (s : OpenScopes) (t : Text) : OpenScopes :=
  { s with current := .word t :: s.current }

/-- Opens a scope inside the innermost one. -/
def openScope (s : OpenScopes) : OpenScopes :=
  { current := [], around := s.current :: s.around }

/-- Closes the innermost scope, unless only the template itself is open. -/
def closeScope? (s : OpenScopes) : Option OpenScopes :=
  match s.around with
  | [] => none
  | outer :: rest => some { current := .scope s.current.reverse :: outer, around := rest }

/-- The pieces of the template when every open scope is closed here. -/
def closeAll (current : List Piece) : List (List Piece) → List Piece
  | [] => current.reverse
  | outer :: rest => closeAll (.scope current.reverse :: outer) rest

end OpenScopes

/-- A template read for its scopes. -/
structure Reading where
  pieces : List Piece
  -- the numbers of the words that were skipped because they close nothing
  skipped : List Nat := []

namespace Reading

/-- Reads words from the given place on: `position` is the number of the next word and
`skipped` holds the numbers of the words skipped so far, the last one first. -/
def ofWordsFrom (strict : Bool) (position : Nat) (scopes : OpenScopes) (skipped : List Nat) :
    List Text → Except Imbalance Reading
  | [] =>
      if strict && scopes.depth != 0 then .error (.unclosed scopes.depth)
      else .ok ⟨OpenScopes.closeAll scopes.current scopes.around, skipped.reverse⟩
  | w :: ws =>
      if w = Keyword.scopeOpen.text then
        ofWordsFrom strict (position + 1) scopes.openScope skipped ws
      else if w = Keyword.scopeClose.text then
        match scopes.closeScope? with
        | some outer => ofWordsFrom strict (position + 1) outer skipped ws
        | none =>
            if strict then .error (.strayClose position)
            else ofWordsFrom strict (position + 1) scopes (position :: skipped) ws
      else ofWordsFrom strict (position + 1) (scopes.addWord w) skipped ws

/-- Reads the words of a template. -/
def ofWords (strict : Bool) (ws : List Text) : Except Imbalance Reading :=
  ofWordsFrom strict 0 {} [] ws

/-- Reads a template. -/
def ofTemplate (strict : Bool) (template : Text) : Except Imbalance Reading :=
  ofWords strict template.words

end Reading

end SqlTemplate
