import SqlTemplate.Text

set_option autoImplicit false

/-!
# Reserved words

The five words with a meaning of their own in a template: three that lay out a conditional and
two that delimit a scope.
-/

namespace SqlTemplate

/-- A word with a meaning of its own. -/
inductive Keyword where
  | ifWord
  -- ends the predicate and starts what stands when it is true
  | thenWord
  -- starts what stands when the predicate is false
  | elseWord
  | scopeOpen
  | scopeClose
  deriving DecidableEq, Repr

namespace Keyword

/-- The reserved words. -/
def all : List Keyword := [.ifWord, .thenWord, .elseWord, .scopeOpen, .scopeClose]

/-- How a reserved word is written. -/
def text : Keyword → Text
  | .ifWord => "[if]".toList
  | .thenWord => "[then]".toList
  | .elseWord => "[else]".toList
  | .scopeOpen => "\x7b\x7b".toList
  | .scopeClose => "\x7d\x7d".toList

/-- The reserved word that a text is, if it is one. -/
def ofText? (t : Text) : Option Keyword := all.find? fun k => k.text == t

/-- Whether a text is a reserved word. -/
def isReserved (t : Text) : Bool := (ofText? t).isSome

theorem ofText?_eq_some_iff (t : Text) (k : Keyword) : ofText? t = some k ↔ t = k.text := by
  constructor
  · intro h
    have := List.find?_some h
    simpa using (beq_iff_eq.mp this).symm
  · rintro rfl
    cases k <;> decide

theorem text_injective {k l : Keyword} (h : k.text = l.text) : k = l := by
  have hk : ofText? k.text = some k := (ofText?_eq_some_iff _ _).mpr rfl
  have hl : ofText? k.text = some l := (ofText?_eq_some_iff _ _).mpr h
  exact Option.some.inj (hk.symm.trans hl)

theorem isReserved_iff (t : Text) : isReserved t = true ↔ ∃ k : Keyword, t = k.text := by
  simp [isReserved, Option.isSome_iff_exists, ofText?_eq_some_iff]

end Keyword

end SqlTemplate
