import SqlTemplate.Keyword

set_option autoImplicit false

/-!
# Scopes

A template read for its delimiters is a list of pieces: words and nested scopes. A scope is what
stood between an opening and a closing delimiter; the whole template is the pieces of the
outermost scope, which has no delimiters.
-/

namespace SqlTemplate

/-- A piece of a template: a word, or a scope and the pieces in it. -/
inductive Piece where
  | word (text : Text)
  | scope (inside : List Piece)

namespace Piece

/-- Whether a piece is the given reserved word. -/
def isKeyword (k : Keyword) : Piece → Bool
  | .word t => t == k.text
  | .scope _ => false

@[simp] theorem isKeyword_word (k : Keyword) (t : Text) :
    (word t).isKeyword k = (t == k.text) := rfl

@[simp] theorem isKeyword_scope (k : Keyword) (inside : List Piece) :
    (scope inside).isKeyword k = false := rfl

theorem isKeyword_iff (k : Keyword) (p : Piece) : p.isKeyword k = true ↔ p = .word k.text := by
  cases p <;> simp

/-- Induction on scopes: a property that holds of a scope whenever it holds of the scopes that
stand directly in it holds of every scope. -/
theorem scope_induction {P : List Piece → Prop}
    (scope : ∀ pieces, (∀ inside, .scope inside ∈ pieces → P inside) → P pieces)
    (pieces : List Piece) : P pieces := by
  refine scope pieces fun inside h => ?_
  have hpiece : sizeOf (Piece.scope inside) < sizeOf pieces := List.sizeOf_lt_of_mem h
  have hinside : sizeOf inside < sizeOf (Piece.scope inside) := by simp
  exact scope_induction scope inside
termination_by sizeOf pieces

end Piece

end SqlTemplate
