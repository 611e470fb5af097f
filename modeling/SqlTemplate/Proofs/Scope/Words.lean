import SqlTemplate.Scope.Reader

set_option autoImplicit false

/-! # The words that pieces were read from

A reading can be undone. `Piece.wordsAll` writes pieces back as words, with given words in the
places of the delimiters. With the delimiters themselves there, a strict reading is written back
as the words of the template (`Reading.words_of_strict`). With nothing there, any reading is
written back as those words of the template that are no delimiters (`Reading.plainWords_eq`).
-/

namespace SqlTemplate

/-- Whether a word opens or closes a scope. -/
def IsDelimiter (w : Text) : Prop := w = Keyword.scopeOpen.text ∨ w = Keyword.scopeClose.text

instance (w : Text) : Decidable (IsDelimiter w) := inferInstanceAs (Decidable (_ ∨ _))

/-! ## Pieces as words -/

namespace Piece

variable (opening closing : List Text)

mutual

/-- The words that a piece stands for, with given words at both ends of a scope. -/
def wordsOf : Piece → List Text
  | .word t => [t]
  | .scope inside => opening ++ wordsAll inside ++ closing

/-- The words that pieces stand for, with given words at both ends of a scope. -/
def wordsAll : List Piece → List Text
  | [] => []
  | p :: ps => wordsOf p ++ wordsAll ps

end

/-- The words that pieces stand for, delimiters included. -/
def words (ps : List Piece) : List Text :=
  wordsAll [Keyword.scopeOpen.text] [Keyword.scopeClose.text] ps

/-- The words that pieces stand for, without delimiters. -/
def plainWords (ps : List Piece) : List Text := wordsAll [] [] ps

theorem wordsAll_append (ps qs : List Piece) :
    wordsAll opening closing (ps ++ qs) =
      wordsAll opening closing ps ++ wordsAll opening closing qs := by
  induction ps with
  | nil => rfl
  | cons p ps ih => simp only [List.cons_append, wordsAll, ih, List.append_assoc]

theorem wordsAll_map_word (ws : List Text) : wordsAll opening closing (ws.map .word) = ws := by
  induction ws with
  | nil => rfl
  | cons w ws ih => rw [List.map_cons, wordsAll, wordsOf, ih, List.singleton_append]

theorem wordsAll_reverse_cons (p : Piece) (ps : List Piece) :
    wordsAll opening closing (p :: ps).reverse =
      wordsAll opening closing ps.reverse ++ wordsOf opening closing p := by
  simp [wordsAll_append, wordsAll]

@[simp] theorem words_nil : words [] = [] := rfl

@[simp] theorem words_word_cons (t : Text) (ps : List Piece) :
    words (.word t :: ps) = t :: words ps := rfl

@[simp] theorem words_scope_cons (inside ps : List Piece) :
    words (.scope inside :: ps) =
      Keyword.scopeOpen.text :: words inside ++ [Keyword.scopeClose.text] ++ words ps := rfl

theorem words_append (ps qs : List Piece) : words (ps ++ qs) = words ps ++ words qs :=
  wordsAll_append _ _ ps qs

@[simp] theorem plainWords_nil : plainWords [] = [] := rfl

@[simp] theorem plainWords_word_cons (t : Text) (ps : List Piece) :
    plainWords (.word t :: ps) = t :: plainWords ps := rfl

@[simp] theorem plainWords_scope_cons (inside ps : List Piece) :
    plainWords (.scope inside :: ps) = plainWords inside ++ plainWords ps := by
  simp [plainWords, wordsAll, wordsOf]

theorem plainWords_append (ps qs : List Piece) :
    plainWords (ps ++ qs) = plainWords ps ++ plainWords qs :=
  wordsAll_append _ _ ps qs

/-- Whether no word in the pieces is a delimiter. -/
def Undelimited (ps : List Piece) : Prop := ∀ w ∈ plainWords ps, ¬ IsDelimiter w

@[simp] theorem undelimited_word_cons_iff (t : Text) (ps : List Piece) :
    Undelimited (.word t :: ps) ↔ ¬ IsDelimiter t ∧ Undelimited ps := by
  simp [Undelimited]

@[simp] theorem undelimited_scope_cons_iff (inside ps : List Piece) :
    Undelimited (.scope inside :: ps) ↔ Undelimited inside ∧ Undelimited ps := by
  simp only [Undelimited, plainWords_scope_cons, List.mem_append, or_imp, forall_and]

theorem undelimited_append_iff (ps qs : List Piece) :
    Undelimited (ps ++ qs) ↔ Undelimited ps ∧ Undelimited qs := by
  simp only [Undelimited, plainWords_append, List.mem_append, or_imp, forall_and]

end Piece

/-! ## What was read up to some point -/

namespace OpenScopes

variable (opening closing : List Text)

/-- The words read so far, given the pieces of the open scopes from the inside out. -/
def wordsRead (current : List Piece) : List (List Piece) → List Text
  | [] => Piece.wordsAll opening closing current.reverse
  | outer :: rest =>
      wordsRead outer rest ++ opening ++ Piece.wordsAll opening closing current.reverse

theorem wordsRead_cons (p : Piece) (current : List Piece) (around : List (List Piece)) :
    wordsRead opening closing (p :: current) around =
      wordsRead opening closing current around ++ Piece.wordsOf opening closing p := by
  cases around with
  | nil => exact Piece.wordsAll_reverse_cons opening closing p current
  | cons outer rest =>
      simp only [wordsRead, Piece.wordsAll_reverse_cons, List.append_assoc]

/-- Closing a scope adds what stands at its end. -/
theorem wordsRead_close (current outer : List Piece) (rest : List (List Piece)) :
    wordsRead opening closing (.scope current.reverse :: outer) rest =
      wordsRead opening closing current (outer :: rest) ++ closing := by
  rw [wordsRead_cons]
  simp only [wordsRead, Piece.wordsOf, List.append_assoc]

/-- Closing all scopes adds what stands at the end of each one. -/
theorem wordsAll_closeAll (current : List Piece) (around : List (List Piece)) :
    Piece.wordsAll opening closing (closeAll current around) =
      wordsRead opening closing current around ++
        (List.replicate around.length closing).flatten := by
  induction around generalizing current with
  | nil => simp [closeAll, wordsRead]
  | cons outer rest ih =>
      calc Piece.wordsAll opening closing (closeAll current (outer :: rest))
          = wordsRead opening closing (.scope current.reverse :: outer) rest ++
              (List.replicate rest.length closing).flatten := ih _
        _ = wordsRead opening closing current (outer :: rest) ++ closing ++
              (List.replicate rest.length closing).flatten := by rw [wordsRead_close]
        _ = wordsRead opening closing current (outer :: rest) ++
              (List.replicate (outer :: rest).length closing).flatten := by
            simp [List.replicate_succ]

end OpenScopes

namespace Reading

/-- What a word of a template is written back as. -/
def spelled (opening closing : List Text) (w : Text) : List Text :=
  if w = Keyword.scopeOpen.text then opening
  else if w = Keyword.scopeClose.text then closing
  else [w]

theorem flatMap_spelled_delimiters (ws : List Text) :
    ws.flatMap (spelled [Keyword.scopeOpen.text] [Keyword.scopeClose.text]) = ws := by
  induction ws with
  | nil => rfl
  | cons w ws ih =>
      rw [List.flatMap_cons, ih, spelled]
      split
      · simp [*]
      · split <;> simp [*]

theorem flatMap_spelled_nil (ws : List Text) :
    ws.flatMap (spelled [] []) = ws.filter fun w => ¬ IsDelimiter w := by
  induction ws with
  | nil => rfl
  | cons w ws ih =>
      rw [List.flatMap_cons, ih, spelled, List.filter_cons]
      split
      · simp [IsDelimiter, *]
      · split <;> simp [IsDelimiter, *]

/-- **A reading is undone** by writing its pieces back, with given words in the places of the
delimiters. A lenient reading closes scopes that the template leaves open and skips words that
close nothing, so nothing may stand in the place of a closing delimiter then. -/
theorem wordsAll_ofWordsFrom (opening closing : List Text) {strict : Bool}
    (h : strict = true ∨ closing = []) {position : Nat} {scopes : OpenScopes} {skipped : List Nat}
    {ws : List Text} {r : Reading}
    (hr : ofWordsFrom strict position scopes skipped ws = .ok r) :
    Piece.wordsAll opening closing r.pieces =
      OpenScopes.wordsRead opening closing scopes.current scopes.around ++
        ws.flatMap (spelled opening closing) := by
  induction ws generalizing position scopes skipped with
  | nil =>
      simp only [ofWordsFrom] at hr
      split at hr
      · cases hr
      · rename_i hopen
        cases hr
        rw [OpenScopes.wordsAll_closeAll, List.flatMap_nil]
        refine congrArg _ ?_
        -- a strict reading ends with no open scope, and a lenient one puts nothing at their ends
        rcases h with h | h
        · have hdepth : scopes.around.length = 0 := by simpa [h, OpenScopes.depth] using hopen
          rw [hdepth]
          rfl
        · simp [h]
  | cons w ws ih =>
      simp only [ofWordsFrom] at hr
      rw [List.flatMap_cons, spelled, ← List.append_assoc]
      split at hr
      · rename_i hw
        rw [ih hr, if_pos hw]
        simp [OpenScopes.openScope, OpenScopes.wordsRead, Piece.wordsAll]
      · rename_i hw
        rw [if_neg hw]
        split at hr
        · rename_i hw'
          rw [if_pos hw']
          match hs : scopes.around with
          | [] =>
              -- the word closes nothing: only a lenient reading goes on
              simp only [OpenScopes.closeScope?, hs] at hr
              rcases h with h | h
              · simp [h] at hr
              · split at hr
                · cases hr
                · rw [ih hr, hs, h, List.append_nil]
          | outer :: rest =>
              simp only [OpenScopes.closeScope?, hs] at hr
              rw [ih hr, OpenScopes.wordsRead_close]
        · rename_i hw'
          rw [if_neg hw', ih hr, OpenScopes.addWord, OpenScopes.wordsRead_cons, Piece.wordsOf]

/-- The pieces of a strict reading are written back as the words of the template. -/
theorem words_of_strict {ws : List Text} {r : Reading} (h : ofWords true ws = .ok r) :
    Piece.words r.pieces = ws := by
  have hw := wordsAll_ofWordsFrom [Keyword.scopeOpen.text] [Keyword.scopeClose.text]
    (Or.inl rfl) h
  rw [flatMap_spelled_delimiters] at hw
  exact hw

/-- Without delimiters, the pieces of a reading are written back as the words of the template
that are no delimiters. -/
theorem plainWords_eq {strict : Bool} {ws : List Text} {r : Reading}
    (h : ofWords strict ws = .ok r) :
    Piece.plainWords r.pieces = ws.filter fun w => ¬ IsDelimiter w := by
  have hw := wordsAll_ofWordsFrom [] [] (Or.inr rfl) h
  rw [flatMap_spelled_nil] at hw
  exact hw

/-- The words in the pieces of a reading are no delimiters. -/
theorem undelimited_pieces {strict : Bool} {ws : List Text} {r : Reading}
    (h : ofWords strict ws = .ok r) : Piece.Undelimited r.pieces := by
  intro w hw
  rw [plainWords_eq h] at hw
  simpa using (List.mem_filter.mp hw).2

end Reading

end SqlTemplate
