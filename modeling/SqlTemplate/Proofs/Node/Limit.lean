import SqlTemplate.Proofs.Node.Acceptance

set_option autoImplicit false

/-! # The limit of the nesting

Scopes are read up to a limit for their depth. The limit is asked for the depth of each scope and
for nothing else, so limits that no scope exceeds give the same reading, tree or error
(`Node.ofScope_eq_of_nesting_le`), and below the nesting of the scopes no reading succeeds
(`Node.exists_error_of_lt_nesting`).

Each reading function asks the limit through the scopes that stand directly in the pieces it reads.
Where two limits read these alike, they read the pieces alike, and `Piece.scope_induction` goes from
the scopes inside a scope to the scope itself.
-/

namespace SqlTemplate

namespace Piece

/-! ## How deeply scopes are nested -/

mutual

/-- How many scopes are nested in one another in a piece, a scope itself included. -/
def nestingOf : Piece → Nat
  | .word _ => 0
  | .scope inside => nesting inside + 1

/-- How deeply scopes are nested in pieces, zero when no scope is among them. -/
def nesting : List Piece → Nat
  | [] => 0
  | p :: ps => max p.nestingOf (nesting ps)

end

@[simp] theorem nesting_word_cons (t : Text) (ps : List Piece) :
    nesting (.word t :: ps) = nesting ps := by
  simp [nesting, nestingOf]

@[simp] theorem nesting_scope_cons (inside ps : List Piece) :
    nesting (.scope inside :: ps) = max (nesting inside + 1) (nesting ps) := by
  simp [nesting, nestingOf]

theorem nesting_lt_of_mem {inside ps : List Piece} (h : .scope inside ∈ ps) :
    nesting inside < nesting ps := by
  induction ps with
  | nil => cases h
  | cons p ps ih =>
      rcases List.mem_cons.mp h with rfl | h
      · rw [nesting_scope_cons]
        omega
      · have hlt := ih h
        rw [nesting]
        omega

/-- The nesting is that of one of the scopes in the pieces. -/
theorem exists_nesting_eq_succ {ps : List Piece} (h : nesting ps ≠ 0) :
    ∃ inside, .scope inside ∈ ps ∧ nesting ps = nesting inside + 1 := by
  induction ps with
  | nil => exact absurd rfl h
  | cons p ps ih =>
      cases p with
      | word t =>
          rw [nesting_word_cons] at h ⊢
          obtain ⟨inside, hmem, hn⟩ := ih h
          exact ⟨inside, List.mem_cons_of_mem _ hmem, hn⟩
      | scope inside =>
          rw [nesting_scope_cons]
          by_cases hle : nesting ps ≤ nesting inside + 1
          · exact ⟨inside, List.mem_cons_self .., Nat.max_eq_left hle⟩
          · obtain ⟨inside', hmem, hn⟩ := ih (by omega)
            exact ⟨inside', List.mem_cons_of_mem _ hmem, by omega⟩

/-- Some scope stands as deep as scopes are nested. -/
theorem exists_isScopeAt_nesting (ps : List Piece) :
    ∃ scope, IsScopeAt ps (nesting ps) scope := by
  induction ps using Piece.scope_induction with
  | scope ps ih =>
      by_cases hzero : nesting ps = 0
      · exact ⟨ps, hzero ▸ .root ps⟩
      · obtain ⟨inside, hmem, hn⟩ := exists_nesting_eq_succ hzero
        obtain ⟨scope, hscope⟩ := ih inside hmem
        exact ⟨scope, hn ▸ .nested hmem hscope⟩

end Piece

namespace Node

open Piece

variable {Foreign : Type}

/-! ## Limits that read alike -/

/-- Whether two limits read every scope alike that stands directly in the pieces of a scope of the
given depth. -/
def AgreeInside (Foreign : Type) (limit limit' depth : Int) (ps : List Piece) : Prop :=
  ∀ inside, .scope inside ∈ ps →
    (ofScope limit (depth + 1) inside : Except ShapeError (Node Foreign)) =
      ofScope limit' (depth + 1) inside

theorem AgreeInside.tail {limit limit' depth : Int} {p : Piece} {ps : List Piece}
    (h : AgreeInside Foreign limit limit' depth (p :: ps)) :
    AgreeInside Foreign limit limit' depth ps :=
  fun inside hmem => h inside (List.mem_cons_of_mem _ hmem)

theorem AgreeInside.ofPiece_eq {limit limit' depth : Int} {p : Piece} {ps : List Piece}
    (h : AgreeInside Foreign limit limit' depth (p :: ps)) :
    (ofPiece limit (depth + 1) p : Except ShapeError (Node Foreign)) =
      ofPiece limit' (depth + 1) p := by
  cases p with
  | word t => simp only [ofPiece]
  | scope inside => exact h inside (List.mem_cons_self ..)

theorem AgreeInside.sequenceOf_eq {limit limit' depth : Int} {ps : List Piece}
    (h : AgreeInside Foreign limit limit' depth ps) :
    (sequenceOf limit depth ps : Except ShapeError (List (Node Foreign))) =
      sequenceOf limit' depth ps := by
  induction ps with
  | nil => simp only [sequenceOf]
  | cons p ps ih => simp only [sequenceOf, h.ofPiece_eq, ih h.tail]

theorem AgreeInside.elseClauseOf_eq {limit limit' depth : Int} {ps : List Piece}
    (h : AgreeInside Foreign limit limit' depth ps) :
    (elseClauseOf limit depth ps : Except ShapeError (List (Node Foreign))) =
      elseClauseOf limit' depth ps := by
  induction ps with
  | nil => simp only [elseClauseOf]
  | cons p ps ih =>
      cases p with
      | word t => simp only [elseClauseOf, ih h.tail]
      | scope inside => simp only [elseClauseOf, h.ofPiece_eq, ih h.tail]

theorem AgreeInside.thenClauseOf_eq {limit limit' depth : Int} {ps : List Piece}
    (h : AgreeInside Foreign limit limit' depth ps) :
    (thenClauseOf limit depth ps :
        Except ShapeError (List (Node Foreign) × Option (List (Node Foreign)))) =
      thenClauseOf limit' depth ps := by
  induction ps with
  | nil => simp only [thenClauseOf]
  | cons p ps ih =>
      cases p with
      | word t => simp only [thenClauseOf, h.tail.elseClauseOf_eq, ih h.tail]
      | scope inside => simp only [thenClauseOf, h.ofPiece_eq, ih h.tail]

theorem AgreeInside.predicateOf_eq {limit limit' depth : Int} {ps : List Piece}
    (h : AgreeInside Foreign limit limit' depth ps) :
    (predicateOf limit depth ps :
        Except ShapeError (List Text × List (Node Foreign) × Option (List (Node Foreign)))) =
      predicateOf limit' depth ps := by
  induction ps with
  | nil => simp only [predicateOf]
  | cons p ps ih =>
      cases p with
      | word t => simp only [predicateOf, h.tail.thenClauseOf_eq, ih h.tail]
      | scope inside => simp only [predicateOf]

/-- **One step of a reading** asks the limit for the depth of the scope itself. -/
theorem AgreeInside.ofScope_eq {limit limit' depth : Int} {ps : List Piece}
    (h : AgreeInside Foreign limit limit' depth ps) (hlimit : depth ≤ limit)
    (hlimit' : depth ≤ limit') :
    (ofScope limit depth ps : Except ShapeError (Node Foreign)) = ofScope limit' depth ps := by
  have hconditional : (ofConditional limit depth ps : Except ShapeError (Node Foreign)) =
      ofConditional limit' depth ps := by
    cases ps with
    | nil => simp only [ofConditional, List.tail_nil, predicateOf]
    | cons p ps => simp only [ofConditional, List.tail_cons, h.tail.predicateOf_eq]
  rw [Node.ofScope_eq, Node.ofScope_eq, if_neg (by omega), if_neg (by omega), hconditional,
    h.sequenceOf_eq]

/-- **Limits that no scope exceeds** give the same reading. -/
theorem ofScope_eq_of_nesting_le (ps : List Piece) {limit limit' depth : Int}
    (hlimit : depth + Piece.nesting ps ≤ limit) (hlimit' : depth + Piece.nesting ps ≤ limit') :
    (ofScope limit depth ps : Except ShapeError (Node Foreign)) = ofScope limit' depth ps := by
  induction ps using Piece.scope_induction generalizing depth with
  | scope ps ih =>
      have hinside : AgreeInside Foreign limit limit' depth ps := by
        intro inside hmem
        have hlt := nesting_lt_of_mem hmem
        exact ih inside hmem (by omega) (by omega)
      exact hinside.ofScope_eq (by omega) (by omega)

/-- Below the nesting of the scopes no reading succeeds. -/
theorem exists_error_of_lt_nesting {ps : List Piece} {limit : Int} (h : limit < Piece.nesting ps) :
    ∃ e, (ofScope limit 0 ps : Except ShapeError (Node Foreign)) = .error e := by
  cases hread : (ofScope limit 0 ps : Except ShapeError (Node Foreign)) with
  | error e => exact ⟨e, rfl⟩
  | ok n =>
      obtain ⟨scope, hscope⟩ := exists_isScopeAt_nesting ps
      have hfits := (fits_of_isScopeAt hscope hread).notTooDeep
      omega

/-- A reading that succeeds also does up to a larger limit. -/
theorem ofScope_mono {limit limit' depth : Int} (hle : limit ≤ limit') {ps : List Piece}
    {n : Node Foreign} (h : ofScope limit depth ps = .ok n) : ofScope limit' depth ps = .ok n := by
  obtain ⟨hwellFormed, hpieces, hnesting⟩ := (readsExactly limit ps depth n).mp h
  exact (readsExactly limit' ps depth n).mpr ⟨hwellFormed, hpieces, by omega⟩

end Node

end SqlTemplate
