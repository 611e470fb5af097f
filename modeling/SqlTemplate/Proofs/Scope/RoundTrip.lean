import SqlTemplate.Proofs.Scope.Words
import SqlTemplate.Proofs.Text.Words

set_option autoImplicit false

/-! # Writing pieces and reading them back

Pieces are written as their words with single spaces between them. A strict reading of a template
is written as the template itself with its blanks evened out, and pieces whose words can stand in a
template (`Piece.Legible`) are read back as they were, strictly or not.
`Reading.ofTemplate_roundTrip` says both, and that a reading gives no other pieces.

How a word changes what was read is stated once for each kind of word (`Reading.ofWordsFrom_open`
and the lemmas behind it). Reading the words of pieces then adds the pieces to the innermost open
scope and leaves the others alone (`Reading.ofWordsFrom_words_append`).
-/

namespace SqlTemplate

namespace Piece

/-- Whether the words in pieces can stand in a template as text. -/
def Legible (ps : List Piece) : Prop := ∀ w ∈ plainWords ps, Text.IsWord w ∧ ¬ IsDelimiter w

instance (ps : List Piece) : Decidable (Legible ps) :=
  inferInstanceAs (Decidable (∀ w ∈ plainWords ps, _))

theorem Legible.undelimited {ps : List Piece} (h : Legible ps) : Undelimited ps :=
  fun w hw => (h w hw).2

@[simp] theorem legible_word_cons_iff (t : Text) (ps : List Piece) :
    Legible (.word t :: ps) ↔ (Text.IsWord t ∧ ¬ IsDelimiter t) ∧ Legible ps := by
  simp [Legible]

@[simp] theorem legible_scope_cons_iff (inside ps : List Piece) :
    Legible (.scope inside :: ps) ↔ Legible inside ∧ Legible ps := by
  rw [Legible, plainWords_scope_cons, List.forall_mem_append]
  rfl

/-- Delimiters included, the words of legible pieces are words. -/
theorem Legible.isWord {ps : List Piece} (h : Legible ps) : ∀ w ∈ words ps, Text.IsWord w := by
  induction ps using Piece.scope_induction with
  | scope ps ihscope =>
      induction ps with
      | nil => simp
      | cons p ps ih =>
          have ih := ih fun inside hi => ihscope inside (List.mem_cons_of_mem _ hi)
          cases p with
          | word t =>
              rw [legible_word_cons_iff] at h
              exact List.forall_mem_cons.mpr ⟨h.1.1, ih h.2⟩
          | scope inside =>
              rw [legible_scope_cons_iff] at h
              have hinside := ihscope inside (List.mem_cons_self ..) h.1
              intro w hw
              simp only [words_scope_cons, List.cons_append, List.mem_cons, List.mem_append,
                List.not_mem_nil, or_false] at hw
              rcases hw with rfl | (hw | rfl) | hw
              · exact Text.isWord_keyword .scopeOpen
              · exact hinside w hw
              · exact Text.isWord_keyword .scopeClose
              · exact ih h.2 w hw

end Piece

namespace OpenScopes

/-- Adds pieces to the innermost scope. -/
def addPieces (s : OpenScopes) (ps : List Piece) : OpenScopes :=
  { s with current := ps.reverse ++ s.current }

theorem addPieces_word_cons (s : OpenScopes) (t : Text) (ps : List Piece) :
    s.addPieces (.word t :: ps) = (s.addWord t).addPieces ps := by
  simp [addPieces, addWord]

/-- A scope that is opened, filled and closed is a piece of the scope around it. -/
theorem closeScope?_addPieces_openScope (s : OpenScopes) (inside : List Piece) :
    (s.openScope.addPieces inside).closeScope? = some (s.addPieces [.scope inside]) := by
  simp [closeScope?, addPieces, openScope]

theorem addPieces_cons (s : OpenScopes) (p : Piece) (ps : List Piece) :
    s.addPieces (p :: ps) = (s.addPieces [p]).addPieces ps := by
  simp [addPieces]

end OpenScopes

namespace Reading

/-! ## One word -/

variable (strict : Bool) (position : Nat) (scopes : OpenScopes) (skipped : List Nat)
  (ws : List Text)

theorem ofWordsFrom_open :
    ofWordsFrom strict position scopes skipped (Keyword.scopeOpen.text :: ws) =
      ofWordsFrom strict (position + 1) scopes.openScope skipped ws := by
  rw [ofWordsFrom, if_pos rfl]

theorem ofWordsFrom_close {scopes outer : OpenScopes} (h : scopes.closeScope? = some outer) :
    ofWordsFrom strict position scopes skipped (Keyword.scopeClose.text :: ws) =
      ofWordsFrom strict (position + 1) outer skipped ws := by
  rw [ofWordsFrom, if_neg (by decide), if_pos rfl, h]

/-- A closing delimiter that closes nothing is skipped by a lenient reading. -/
theorem ofWordsFrom_stray {scopes : OpenScopes} (h : scopes.closeScope? = none) :
    ofWordsFrom false position scopes skipped (Keyword.scopeClose.text :: ws) =
      ofWordsFrom false (position + 1) scopes (position :: skipped) ws := by
  rw [ofWordsFrom, if_neg (by decide), if_pos rfl, h]
  rfl

theorem ofWordsFrom_word {w : Text} (hw : ¬ IsDelimiter w) :
    ofWordsFrom strict position scopes skipped (w :: ws) =
      ofWordsFrom strict (position + 1) (scopes.addWord w) skipped ws := by
  rw [IsDelimiter, not_or] at hw
  rw [ofWordsFrom, if_neg hw.1, if_neg hw.2]

/-! ## The words of pieces -/

/-- Reading the words of pieces adds the pieces to the innermost scope. -/
theorem ofWordsFrom_words_append {ps : List Piece} (h : Piece.Undelimited ps) :
    ofWordsFrom strict position scopes skipped (Piece.words ps ++ ws) =
      ofWordsFrom strict (position + (Piece.words ps).length) (scopes.addPieces ps) skipped ws := by
  induction ps using Piece.scope_induction generalizing position scopes ws with
  | scope ps ihscope =>
      induction ps generalizing position scopes with
      | nil => rfl
      | cons p ps ih =>
          have ih := ih fun inside hi => ihscope inside (List.mem_cons_of_mem _ hi)
          cases p with
          | word t =>
              rw [Piece.undelimited_word_cons_iff] at h
              rw [Piece.words_word_cons, List.cons_append, ofWordsFrom_word _ _ _ _ _ h.1,
                ih _ _ h.2, OpenScopes.addPieces_word_cons, List.length_cons, Nat.add_assoc,
                Nat.add_comm 1]
          | scope inside =>
              rw [Piece.undelimited_scope_cons_iff] at h
              have hinside := ihscope inside (List.mem_cons_self ..)
              -- the scope is opened, its own pieces are added, and it is closed again
              calc ofWordsFrom strict position scopes skipped
                    (Piece.words (.scope inside :: ps) ++ ws)
                  = ofWordsFrom strict position scopes skipped (Keyword.scopeOpen.text ::
                      (Piece.words inside ++ Keyword.scopeClose.text ::
                        (Piece.words ps ++ ws))) := by simp
                _ = ofWordsFrom strict (position + 1 + (Piece.words inside).length)
                      (scopes.openScope.addPieces inside) skipped
                      (Keyword.scopeClose.text :: (Piece.words ps ++ ws)) := by
                    rw [ofWordsFrom_open, hinside _ _ _ h.1]
                _ = ofWordsFrom strict
                      (position + 1 + (Piece.words inside).length + 1 + (Piece.words ps).length)
                      ((scopes.addPieces [.scope inside]).addPieces ps) skipped ws := by
                    rw [ofWordsFrom_close _ _ _ _
                      (OpenScopes.closeScope?_addPieces_openScope scopes inside), ih _ _ h.2]
                _ = ofWordsFrom strict
                      (position + (Piece.words (.scope inside :: ps)).length)
                      (scopes.addPieces (.scope inside :: ps)) skipped ws := by
                    have hlength : position + 1 + (Piece.words inside).length + 1 +
                        (Piece.words ps).length =
                          position + (Piece.words (.scope inside :: ps)).length := by
                      simp
                      omega
                    rw [hlength, ← OpenScopes.addPieces_cons]

/-- The words of pieces are read back as the pieces. -/
theorem ofWords_words {ps : List Piece} (h : Piece.Undelimited ps) :
    ofWords strict (Piece.words ps) = .ok ⟨ps, []⟩ := by
  have hread := ofWordsFrom_words_append strict 0 {} [] [] h
  rw [List.append_nil] at hread
  rw [ofWords, hread]
  simp [ofWordsFrom, OpenScopes.addPieces, OpenScopes.closeAll, OpenScopes.depth]

/-- A template whose words are those of pieces is read as the pieces, whatever its blanks are. -/
theorem ofTemplate_of_words {template : Text} {ps : List Piece} (h : Piece.Undelimited ps)
    (hwords : template.words = Piece.words ps) : ofTemplate strict template = .ok ⟨ps, []⟩ := by
  rw [ofTemplate, hwords, ofWords_words strict h]

/-- The pieces of a reading are legible. -/
theorem legible_pieces {template : Text} {r : Reading}
    (h : ofTemplate strict template = .ok r) : Piece.Legible r.pieces := by
  intro w hw
  refine ⟨?_, undelimited_pieces h w hw⟩
  rw [plainWords_eq h] at hw
  exact Text.isWord_of_mem_words (List.mem_filter.mp hw).1

/-- **Reading and writing undo each other.** A strict reading is written as the words of the
template, legible pieces are read back from what is written for them, and the pieces of a reading
are legible. -/
theorem ofTemplate_roundTrip :
    (∀ template r, ofTemplate true template = .ok r →
      Text.unwords (Piece.words r.pieces) = Text.unwords template.words) ∧
    (∀ strict ps, Piece.Legible ps →
      ofTemplate strict (Text.unwords (Piece.words ps)) = .ok ⟨ps, []⟩) ∧
    ∀ strict template r, ofTemplate strict template = .ok r → Piece.Legible r.pieces := by
  refine ⟨fun template r h => ?_, fun strict ps h => ?_, fun strict template r => ?_⟩
  · rw [words_of_strict h]
  · rw [ofTemplate, Text.words_unwords h.isWord, ofWords_words strict h.undelimited]
  · exact legible_pieces strict

/-- An empty scope in a scope, and blanks of several kinds between the words. -/
theorem ofTemplate_roundTrip_of_blanks :
    let ps : List Piece :=
      [.word "a".toList, .scope [.scope [], .word "[if]".toList], .word "\x7b".toList]
    let template : Text :=
      "a\t\x7b\x7b \u3000\x7b\x7b\n\x7d\x7d [if]\u00a0\x7d\x7d \x7b ".toList
    ofTemplate true template = .ok ⟨ps, []⟩ ∧
      Text.unwords (Piece.words ps) = Text.unwords (Text.words template) ∧
      ofTemplate false (Text.unwords (Piece.words ps)) = .ok ⟨ps, []⟩ := by
  intro ps template
  have hread : ofTemplate true template = .ok ⟨ps, []⟩ := rfl
  have hlegible : Piece.Legible ps := ofTemplate_roundTrip.2.2 true template _ hread
  exact ⟨hread, ofTemplate_roundTrip.1 template _ hread,
    ofTemplate_roundTrip.2.1 false ps hlegible⟩

end Reading

end SqlTemplate
