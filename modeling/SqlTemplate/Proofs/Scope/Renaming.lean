import SqlTemplate.Proofs.Outcome
import SqlTemplate.Scope.Reader

set_option autoImplicit false

/-! # Other words in the same scopes

A change of words that keeps the reserved words (`Keyword.KeptBy`) changes nothing else about a
template: its scopes stand where they stood (`Reading.ofWords_map`), and a template that cannot be
read cannot be read for the same reason.
-/

namespace SqlTemplate

/-- Whether a change of words keeps the reserved words and makes no other word one of them. -/
def Keyword.KeptBy (f : Text → Text) : Prop := ∀ (w : Text) (k : Keyword), f w = k.text ↔ w = k.text

theorem Keyword.KeptBy.isReserved_eq {f : Text → Text} (h : Keyword.KeptBy f) (w : Text) :
    Keyword.isReserved (f w) = Keyword.isReserved w := by
  rw [Bool.eq_iff_iff, isReserved_iff, isReserved_iff]
  exact exists_congr (h w)

namespace Piece

mutual

/-- The piece with other words in the same places. -/
def mapWords (f : Text → Text) : Piece → Piece
  | .word t => .word (f t)
  | .scope inside => .scope (mapAllWords f inside)

/-- The pieces with other words in the same places. -/
def mapAllWords (f : Text → Text) : List Piece → List Piece
  | [] => []
  | p :: ps => p.mapWords f :: mapAllWords f ps

end

theorem mapAllWords_eq_map (f : Text → Text) (ps : List Piece) :
    mapAllWords f ps = ps.map (mapWords f) := by
  induction ps with
  | nil => rfl
  | cons p ps ih => rw [mapAllWords, ih, List.map_cons]

theorem mapWords_scope (f : Text → Text) (inside : List Piece) :
    (scope inside).mapWords f = scope (inside.map (mapWords f)) := by
  rw [mapWords, mapAllWords_eq_map]

end Piece

namespace OpenScopes

variable (f : Text → Text)

/-- The open scopes with other words in the same places. -/
def mapWords (s : OpenScopes) : OpenScopes :=
  { current := s.current.map (Piece.mapWords f)
    around := s.around.map (List.map (Piece.mapWords f)) }

theorem depth_mapWords (s : OpenScopes) : (s.mapWords f).depth = s.depth := List.length_map ..

theorem addWord_mapWords (s : OpenScopes) (w : Text) :
    (s.mapWords f).addWord (f w) = (s.addWord w).mapWords f := rfl

theorem openScope_mapWords (s : OpenScopes) :
    (s.mapWords f).openScope = s.openScope.mapWords f := rfl

theorem closeScope?_mapWords (s : OpenScopes) :
    (s.mapWords f).closeScope? = s.closeScope?.map (mapWords f) := by
  obtain ⟨current, around⟩ := s
  cases around with
  | nil => rfl
  | cons outer rest =>
      simp only [closeScope?, mapWords, List.map_cons, Option.map_some, Piece.mapWords_scope,
        List.map_reverse]

theorem closeAll_map (current : List Piece) (around : List (List Piece)) :
    closeAll (current.map (Piece.mapWords f)) (around.map (List.map (Piece.mapWords f))) =
      (closeAll current around).map (Piece.mapWords f) := by
  induction around generalizing current with
  | nil => rw [List.map_nil, closeAll, closeAll, List.map_reverse]
  | cons outer rest ih =>
      rw [List.map_cons, closeAll, closeAll, ← ih, List.map_cons, Piece.mapWords_scope,
        List.map_reverse]

end OpenScopes

namespace Reading

/-- The reading with other words in the same places. -/
def mapWords (f : Text → Text) (r : Reading) : Reading :=
  { r with pieces := r.pieces.map (Piece.mapWords f) }

theorem ofWordsFrom_map {f : Text → Text} (hf : Keyword.KeptBy f) (strict : Bool) (position : Nat)
    (scopes : OpenScopes) (skipped : List Nat) (ws : List Text) :
    ofWordsFrom strict position (scopes.mapWords f) skipped (ws.map f) =
      (ofWordsFrom strict position scopes skipped ws).map (mapWords f) := by
  induction ws generalizing position scopes skipped with
  | nil =>
      rw [List.map_nil, ofWordsFrom, ofWordsFrom, OpenScopes.depth_mapWords]
      split
      · rfl
      · rw [OpenScopes.mapWords, OpenScopes.closeAll_map]
        rfl
  | cons w ws ih =>
      rw [List.map_cons, ofWordsFrom, ofWordsFrom]
      -- the new word is a delimiter when the old one was that delimiter
      simp only [hf w]
      by_cases hopen : w = Keyword.scopeOpen.text
      · rw [if_pos hopen, if_pos hopen, OpenScopes.openScope_mapWords, ih]
      · rw [if_neg hopen, if_neg hopen]
        by_cases hclose : w = Keyword.scopeClose.text
        · rw [if_pos hclose, if_pos hclose, OpenScopes.closeScope?_mapWords]
          cases scopes.closeScope? with
          | some outer => exact ih ..
          | none =>
              cases strict with
              | true => rfl
              | false => exact ih ..
        · rw [if_neg hclose, if_neg hclose, OpenScopes.addWord_mapWords, ih]

/-- **Scopes stay where they are** when words are changed that are not reserved. -/
theorem ofWords_map {f : Text → Text} (hf : Keyword.KeptBy f) (strict : Bool) (ws : List Text) :
    ofWords strict (ws.map f) = (ofWords strict ws).map (mapWords f) :=
  ofWordsFrom_map hf strict 0 {} [] ws

end Reading

end SqlTemplate
