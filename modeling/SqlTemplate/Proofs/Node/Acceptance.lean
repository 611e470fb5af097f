import SqlTemplate.Proofs.Node.Grammar

set_option autoImplicit false

/-! # Which scopes can be read

Whether a scope can be read is said here without reading it. Every scope in it, itself included,
has to stand no deeper than the limit and to have a piece, and when it starts with `[if]`, its own
pieces have to be those of a conditional (`Piece.Fits`). When the reading fails, its error
describes a scope for which this does not hold (`ShapeError.Describes`).

One step of the reading is about a single scope: either that scope itself is at fault, or the error
comes from a scope directly inside it (`Node.describes_or_failsInside`). The run through all scopes
follows by `Piece.scope_induction`.
-/

namespace SqlTemplate

namespace Piece

/-! ## The rules for a scope -/

/-- Whether `scope` are the pieces of a scope that stands `level` scopes deep inside `ps`. The
pieces `ps` themselves are the scope at level zero. -/
inductive IsScopeAt : List Piece → Nat → List Piece → Prop where
  | root (ps : List Piece) : IsScopeAt ps 0 ps
  | nested {ps inside scope : List Piece} {level : Nat} (hmem : .scope inside ∈ ps)
      (hscope : IsScopeAt inside level scope) : IsScopeAt ps (level + 1) scope

/-- How many times a reserved word stands in a scope itself. -/
def own (k : Keyword) (ps : List Piece) : Nat := ps.countP (isKeyword k)

/-- The pieces of a scope in front of its first `[then]`. -/
def beforeThen (ps : List Piece) : List Piece := ps.takeWhile fun p => !p.isKeyword .thenWord

/-- Whether a scope starts with `[if]`. -/
def StartsWithIf (ps : List Piece) : Prop := ps.head? = some (.word Keyword.ifWord.text)

/-- Whether the second piece of a scope is a word that is not reserved. -/
def HasPredicate (ps : List Piece) : Prop :=
  ∃ t, ps[1]? = some (.word t) ∧ ∀ k : Keyword, t ≠ k.text

/-- Whether the pieces of a scope are laid out as those of a conditional. -/
structure IsLaidOut (ps : List Piece) : Prop where
  predicate : HasPredicate ps
  oneThen : own .thenWord ps = 1
  wordsFirst : ∀ p ∈ beforeThen ps, ∃ t, p = .word t ∧ t ≠ Keyword.elseWord.text
  elseOnce : own .elseWord ps ≤ 1

/-- Whether a scope at a level of nesting can stand in a template. -/
structure Fits (limit level : Int) (ps : List Piece) : Prop where
  notTooDeep : level ≤ limit
  nonempty : ps ≠ []
  laidOut : StartsWithIf ps → IsLaidOut ps

/-- Whether every scope in `ps` can stand where it does. -/
def Accepted (limit : Int) (ps : List Piece) : Prop :=
  ∀ level inside, IsScopeAt ps level inside → Fits limit level inside

theorem own_cons (k : Keyword) (p : Piece) (ps : List Piece) :
    own k (p :: ps) = own k ps + if p.isKeyword k then 1 else 0 := List.countP_cons

@[simp] theorem own_append (k : Keyword) (ps qs : List Piece) :
    own k (ps ++ qs) = own k ps + own k qs := List.countP_append

theorem own_word_cons (k : Keyword) (t : Text) (ps : List Piece) :
    own k (.word t :: ps) = own k ps + if t = k.text then 1 else 0 := by
  simp [own_cons]

@[simp] theorem own_keyword_cons (k : Keyword) (ps : List Piece) :
    own k (.word k.text :: ps) = own k ps + 1 := by
  simp [own_word_cons]

theorem own_keyword_cons_of_ne {k l : Keyword} (h : l ≠ k) (ps : List Piece) :
    own k (.word l.text :: ps) = own k ps := by
  have hne : l.text ≠ k.text := fun he => h (Keyword.text_injective he)
  simp [own_word_cons, hne]

theorem own_eq_zero_iff (k : Keyword) (ps : List Piece) :
    own k ps = 0 ↔ .word k.text ∉ ps := by
  simp only [own, List.countP_eq_zero, isKeyword_iff]
  constructor
  · exact fun h hmem => h _ hmem rfl
  · rintro h p hp rfl
    exact h hp

theorem hasPredicate_word_iff (p : Piece) (t : Text) (ps : List Piece) :
    HasPredicate (p :: .word t :: ps) ↔ Keyword.isReserved t = false := by
  rw [← Bool.not_eq_true, Keyword.isReserved_iff, not_exists]
  simp [HasPredicate]

@[simp] theorem beforeThen_scope_cons (inside ps : List Piece) :
    beforeThen (.scope inside :: ps) = .scope inside :: beforeThen ps := by
  simp [beforeThen]

theorem beforeThen_word_cons {t : Text} (ht : t ≠ Keyword.thenWord.text) (ps : List Piece) :
    beforeThen (.word t :: ps) = .word t :: beforeThen ps := by
  have hk : (Piece.word t).isKeyword .thenWord = false := by simpa using ht
  simp [beforeThen, hk]

/-- Words in front of `[then]` that are not `[then]` themselves stay in front of it. -/
theorem beforeThen_map_word_append {ws : List Text} (h : Keyword.thenWord.text ∉ ws)
    (ps : List Piece) :
    beforeThen (ws.map .word ++ .word Keyword.thenWord.text :: ps) = ws.map .word := by
  induction ws with
  | nil => simp [beforeThen]
  | cons w ws ih =>
      rw [List.mem_cons, not_or] at h
      rw [List.map_cons, List.cons_append, beforeThen_word_cons (Ne.symm h.1), ih h.2]

end Piece

namespace ShapeError

open Piece

/-- What an error about the layout of a conditional says about its pieces. -/
def DescribesLayout (ps : List Piece) : ShapeError → Prop
  | .scopeInPredicate => ∃ inside, .scope inside ∈ beforeThen ps
  | .elseBeforeThen => .word Keyword.elseWord.text ∈ beforeThen ps
  | .repeatedThen => 2 ≤ own .thenWord ps
  | .repeatedElse => 2 ≤ own .elseWord ps
  | _ => False

/-- What an error says about a scope at a level of nesting. -/
def Describes (limit level : Int) (ps : List Piece) : ShapeError → Prop
  | .tooDeep bound => bound = limit ∧ limit < level
  | .emptyScope => ps = []
  | .missingPredicate => StartsWithIf ps ∧ ¬ HasPredicate ps
  | .missingThen => StartsWithIf ps ∧ HasPredicate ps ∧ .word Keyword.thenWord.text ∉ ps
  | e => StartsWithIf ps ∧ e.DescribesLayout ps

/-- Whether an error says that a clause starts once more in `ps`, when so many have started in front
of it. -/
def RepeatsClause (thens elses : Nat) (ps : List Piece) : ShapeError → Prop
  | .repeatedThen => 2 ≤ thens + own .thenWord ps
  | .repeatedElse => 2 ≤ elses + own .elseWord ps
  | _ => False

theorem RepeatsClause.cons {thens elses : Nat} {ps : List Piece} {e : ShapeError} (p : Piece)
    (h : e.RepeatsClause thens elses ps) : e.RepeatsClause thens elses (p :: ps) := by
  cases e <;> simp only [RepeatsClause, own_cons] at h ⊢ <;> omega

theorem repeatsClause_thenWord (elses : Nat) (ps : List Piece) :
    repeatedThen.RepeatsClause 1 elses (.word Keyword.thenWord.text :: ps) := by
  simp only [RepeatsClause, own_keyword_cons]
  omega

theorem repeatsClause_elseWord (thens : Nat) (ps : List Piece) :
    repeatedElse.RepeatsClause thens 1 (.word Keyword.elseWord.text :: ps) := by
  simp only [RepeatsClause, own_keyword_cons]
  omega

theorem RepeatsClause.elseWord_cons {ps : List Piece} {e : ShapeError}
    (h : e.RepeatsClause 1 1 ps) : e.RepeatsClause 1 0 (.word Keyword.elseWord.text :: ps) := by
  have hne : Keyword.elseWord ≠ Keyword.thenWord := by decide
  cases e <;> simp only [RepeatsClause, own_keyword_cons, own_keyword_cons_of_ne hne] at h ⊢ <;>
    omega

theorem RepeatsClause.thenWord_cons {ps : List Piece} {e : ShapeError}
    (h : e.RepeatsClause 1 0 ps) : e.DescribesLayout (.word Keyword.thenWord.text :: ps) := by
  have hne : Keyword.thenWord ≠ Keyword.elseWord := by decide
  cases e <;> simp only [RepeatsClause, DescribesLayout, own_keyword_cons,
    own_keyword_cons_of_ne hne] at h ⊢ <;> omega

/-- A word in the predicate hides no fault in the layout behind it. -/
theorem DescribesLayout.word_cons {t : Text} (ht : t ≠ Keyword.thenWord.text) {ps : List Piece}
    {e : ShapeError} (h : e.DescribesLayout ps) : e.DescribesLayout (.word t :: ps) := by
  cases e with
  | scopeInPredicate =>
      obtain ⟨inside, hmem⟩ := h
      exact ⟨inside, by simp [beforeThen_word_cons ht, hmem]⟩
  | elseBeforeThen =>
      have hmem : .word Keyword.elseWord.text ∈ beforeThen ps := h
      simp [DescribesLayout, beforeThen_word_cons ht, hmem]
  | repeatedThen =>
      simp only [DescribesLayout, own_cons] at h ⊢
      omega
  | repeatedElse =>
      simp only [DescribesLayout, own_cons] at h ⊢
      omega
  | _ => exact h

theorem DescribesLayout.describes {limit level : Int} {ps : List Piece} {e : ShapeError}
    (hif : StartsWithIf ps) (h : e.DescribesLayout ps) : e.Describes limit level ps := by
  cases e <;> first | exact h.elim | exact ⟨hif, h⟩

/-- A scope that an error describes breaks a rule. -/
theorem Describes.not_fits {limit level : Int} {ps : List Piece} {e : ShapeError}
    (h : e.Describes limit level ps) : ¬ Fits limit level ps := by
  intro hf
  cases e with
  | emptyScope => exact hf.nonempty h
  | missingPredicate => exact h.2 (hf.laidOut h.1).predicate
  | missingThen =>
      have hone := (hf.laidOut h.1).oneThen
      rw [(own_eq_zero_iff .thenWord ps).mpr h.2.2] at hone
      cases hone
  | scopeInPredicate =>
      obtain ⟨hif, inside, hmem⟩ := h
      obtain ⟨t, ht, -⟩ := (hf.laidOut hif).wordsFirst _ hmem
      cases ht
  | repeatedThen =>
      have hone := (hf.laidOut h.1).oneThen
      have htwo : 2 ≤ own .thenWord ps := h.2
      omega
  | elseBeforeThen =>
      obtain ⟨t, ht, hne⟩ := (hf.laidOut h.1).wordsFirst _ h.2
      injection ht with ht
      exact hne ht.symm
  | repeatedElse =>
      have hone := (hf.laidOut h.1).elseOnce
      have htwo : 2 ≤ own .elseWord ps := h.2
      omega
  | tooDeep bound =>
      have hle := hf.notTooDeep
      have hlt := h.2
      omega

end ShapeError

namespace Node

open Piece

variable {Foreign : Type}

/-! ## Scopes that are read -/

/-- Every piece that a reading goes through is read as an item. -/
theorem exists_readsItem {limit depth : Int} {barred : List Text}
    {read : List Piece → Except ShapeError (List (Node Foreign))}
    (hcons : ∀ p ps ns, read (p :: ps) = .ok ns ↔
      ∃ n rest, ReadsItem barred limit depth p n ∧ read ps = .ok rest ∧ ns = n :: rest)
    {ps : List Piece} {ns : List (Node Foreign)} (h : read ps = .ok ns) :
    ∀ p ∈ ps, ∃ n : Node Foreign, ReadsItem barred limit depth p n := by
  induction ps generalizing ns with
  | nil => simp
  | cons p ps ih =>
      obtain ⟨n, rest, hn, hrest, -⟩ := (hcons p ps ns).mp h
      exact List.forall_mem_cons.mpr ⟨⟨n, hn⟩, ih hrest⟩

/-- The pieces of a clause are no words that start a clause. -/
theorem own_eq_zero_of_readsItem {limit depth : Int} {k : Keyword} (hk : k.text ∈ clauseWords)
    {ps : List Piece}
    (h : ∀ p ∈ ps, ∃ n : Node Foreign, ReadsItem clauseWords limit depth p n) :
    own k ps = 0 := by
  rw [own_eq_zero_iff]
  intro hmem
  obtain ⟨n, hn⟩ := h _ hmem
  exact hn.1 hk

/-- What the pieces behind `[then]` are when they can be read. -/
theorem clauses_of_thenClauseOf {limit depth : Int} {ps : List Piece} {ts : List (Node Foreign)}
    {es : Option (List (Node Foreign))} (h : thenClauseOf limit depth ps = .ok (ts, es)) :
    own .thenWord ps = 0 ∧ own .elseWord ps ≤ 1 ∧
      ∀ inside, .scope inside ∈ ps →
        ∃ n : Node Foreign, ofScope limit (depth + 1) inside = .ok n := by
  have hthen : Keyword.thenWord.text ∈ clauseWords := by decide
  have helse : Keyword.elseWord.text ∈ clauseWords := by decide
  rcases (thenClauseOf_eq_ok_iff limit depth ps ts es).mp h with
    ⟨-, hread⟩ | ⟨xs, ys, ns, rfl, -, hxs, hys⟩
  · have hitems := exists_readsItem (elseClauseOf_cons_iff limit depth) hread
    refine ⟨own_eq_zero_of_readsItem hthen hitems, ?_, fun inside hmem => hitems _ hmem⟩
    rw [own_eq_zero_of_readsItem helse hitems]
    omega
  · have hxs := exists_readsItem (elseClauseOf_cons_iff limit depth) hxs
    have hys := exists_readsItem (elseClauseOf_cons_iff limit depth) hys
    refine ⟨?_, ?_, ?_⟩
    · rw [own_append, own_keyword_cons_of_ne (by decide), own_eq_zero_of_readsItem hthen hxs,
        own_eq_zero_of_readsItem hthen hys]
    · have hone : own .elseWord (xs ++ .word Keyword.elseWord.text :: ys) = 1 := by
        rw [own_append, own_keyword_cons, own_eq_zero_of_readsItem helse hxs,
          own_eq_zero_of_readsItem helse hys]
      exact Nat.le_of_eq hone
    · intro inside hmem
      rw [List.mem_append, List.mem_cons] at hmem
      rcases hmem with hmem | hmem | hmem
      · exact hxs _ hmem
      · cases hmem
      · exact hys _ hmem

/-- The pieces of a scope that is read as a conditional. -/
theorem conditional_pieces {limit depth : Int} {ps : List Piece} {predicate : List Text}
    {ts : List (Node Foreign)} {es : Option (List (Node Foreign))}
    (hc : isConditional ps = .ok true)
    (hread : predicateOf limit depth ps.tail = .ok (predicate, ts, es)) :
    HasPredicate ps ∧ ∃ qs, (∀ w ∈ predicate, w ∉ clauseWords) ∧
      ps = (Keyword.ifWord.text :: predicate).map .word ++ .word Keyword.thenWord.text :: qs ∧
      thenClauseOf limit depth qs = .ok (ts, es) := by
  obtain ⟨t, rest, rfl, hr, hmem⟩ := (isConditional_eq_true_iff ps).mp hc
  obtain ⟨qs, hsplit, hbar, hthen⟩ :=
    (predicateOf_eq_ok_iff limit depth (List.mem_cons_of_mem _ hmem) predicate ts es).mp hread
  refine ⟨(hasPredicate_word_iff _ t rest).mpr hr, qs, hbar, ?_, hthen⟩
  rw [List.map_cons, List.cons_append, ← hsplit]

/-- A scope that can be read keeps to the rules. -/
theorem fits_of_ofScope {limit depth : Int} {ps : List Piece} {n : Node Foreign}
    (h : ofScope limit depth ps = .ok n) : Fits limit depth ps := by
  obtain ⟨hd, ⟨hc, -⟩ | ⟨hc, predicate, ts, es, hread, -⟩⟩ :=
    (ofScope_eq_ok_cases ..).mp h
  · obtain ⟨p, rest, rfl, hp⟩ := (isConditional_eq_false_iff ps).mp hc
    exact ⟨hd, by simp, fun hif => absurd (Option.some.inj hif) hp⟩
  · obtain ⟨hpredicate, qs, hbar, rfl, hthen⟩ := conditional_pieces hc hread
    obtain ⟨hnoThen, helse, -⟩ := clauses_of_thenClauseOf hthen
    have hwords : ∀ w ∈ Keyword.ifWord.text :: predicate, w ∉ clauseWords :=
      List.forall_mem_cons.mpr ⟨by decide, hbar⟩
    have hzero : ∀ k : Keyword, k.text ∈ clauseWords →
        own k ((Keyword.ifWord.text :: predicate).map .word) = 0 := by
      intro k hk
      rw [own_eq_zero_iff]
      intro hmem
      obtain ⟨w, hw, he⟩ := List.mem_map.mp hmem
      injection he with he
      exact hwords w hw (he ▸ hk)
    refine ⟨hd, by simp, fun _ => ⟨hpredicate, ?_, ?_, ?_⟩⟩
    · rw [own_append, own_keyword_cons, hzero _ (by decide), hnoThen]
    · rw [beforeThen_map_word_append fun hmem => hwords _ hmem (by decide)]
      intro p hp
      obtain ⟨w, hw, rfl⟩ := List.mem_map.mp hp
      exact ⟨w, rfl, fun he => hwords w hw (he ▸ by decide)⟩
    · rw [own_append, own_keyword_cons_of_ne (by decide), hzero _ (by decide)]
      omega

/-- With a scope the scopes in it are read. -/
theorem exists_ofScope_of_mem {limit depth : Int} {ps inside : List Piece} {n : Node Foreign}
    (h : ofScope limit depth ps = .ok n) (hmem : .scope inside ∈ ps) :
    ∃ m : Node Foreign, ofScope limit (depth + 1) inside = .ok m := by
  obtain ⟨-, ⟨-, ns, hread, -⟩ | ⟨hc, predicate, ts, es, hread, -⟩⟩ :=
    (ofScope_eq_ok_cases ..).mp h
  · exact exists_readsItem (sequenceOf_cons_iff limit depth) hread _ hmem
  · obtain ⟨-, qs, -, rfl, hthen⟩ := conditional_pieces hc hread
    -- a nested scope stands behind `[then]`
    have hqs : .scope inside ∈ qs := by simpa using hmem
    exact (clauses_of_thenClauseOf hthen).2.2 inside hqs

/-- When a scope can be read, every scope in it keeps to the rules. -/
theorem fits_of_isScopeAt {limit : Int} {ps scope : List Piece} {level : Nat}
    (hs : IsScopeAt ps level scope) {depth : Int} {n : Node Foreign}
    (h : ofScope limit depth ps = .ok n) : Fits limit (depth + level) scope := by
  induction hs generalizing depth n with
  | root ps => simpa using fits_of_ofScope h
  | @nested ps inside scope level hmem hscope ih =>
      obtain ⟨m, hm⟩ := exists_ofScope_of_mem h hmem
      have hfits := ih hm
      have hlevel : depth + ((level + 1 : Nat) : Int) = depth + 1 + level := by omega
      rwa [hlevel]

/-! ## Scopes that cannot be read -/

/-- Whether an error comes from a scope that stands directly in a scope of the given depth. -/
def FailsInside (Foreign : Type) (limit depth : Int) (ps : List Piece) (e : ShapeError) : Prop :=
  ∃ inside, .scope inside ∈ ps ∧
    (ofScope limit (depth + 1) inside : Except ShapeError (Node Foreign)) = .error e

theorem FailsInside.cons {limit depth : Int} {ps : List Piece} {e : ShapeError}
    (p : Piece) (h : FailsInside Foreign limit depth ps e) :
    FailsInside Foreign limit depth (p :: ps) e := by
  obtain ⟨inside, hmem, he⟩ := h
  exact ⟨inside, List.mem_cons_of_mem _ hmem, he⟩

theorem failsInside_scope_cons {limit depth : Int} {inside ps : List Piece} {e : ShapeError}
    (h : (ofPiece limit (depth + 1) (.scope inside) : Except ShapeError (Node Foreign)) =
      .error e) : FailsInside Foreign limit depth (.scope inside :: ps) e :=
  ⟨inside, List.mem_cons_self .., h⟩

/-- In a plain scope only the scopes inside can be at fault. -/
theorem failsInside_of_sequenceOf {limit depth : Int} {ps : List Piece} {e : ShapeError}
    (h : (sequenceOf limit depth ps : Except ShapeError (List (Node Foreign))) = .error e) :
    FailsInside Foreign limit depth ps e := by
  induction ps with
  | nil => cases h
  | cons p ps ih =>
      simp only [sequenceOf, bind_eq_error_iff, pure_ne_error, and_false, exists_false,
        or_false] at h
      rcases h with h | ⟨n, -, h⟩
      · cases p with
        | word t => cases h
        | scope inside => exact failsInside_scope_cons h
      · exact (ih h).cons p

theorem elseClauseOf_eq_error {limit depth : Int} {ps : List Piece} {e : ShapeError}
    (h : (elseClauseOf limit depth ps : Except ShapeError (List (Node Foreign))) = .error e) :
    FailsInside Foreign limit depth ps e ∨ e.RepeatsClause 1 1 ps := by
  induction ps with
  | nil => cases h
  | cons p ps ih =>
      have hrest := fun h => (ih h).imp (FailsInside.cons p) (ShapeError.RepeatsClause.cons p)
      cases p with
      | scope inside =>
          simp only [elseClauseOf, bind_eq_error_iff, pure_ne_error, and_false, exists_false,
            or_false] at h
          rcases h with h | ⟨n, -, h⟩
          · exact Or.inl (failsInside_scope_cons h)
          · exact hrest h
      | word t =>
          simp only [elseClauseOf] at h
          split at h
          · rename_i ht
            subst ht
            cases h
            exact Or.inr (ShapeError.repeatsClause_thenWord 1 ps)
          · split at h
            · rename_i ht
              subst ht
              cases h
              exact Or.inr (ShapeError.repeatsClause_elseWord 1 ps)
            · simp only [bind_eq_error_iff, pure_ne_error, and_false, exists_false, or_false] at h
              exact hrest h

theorem thenClauseOf_eq_error {limit depth : Int} {ps : List Piece} {e : ShapeError}
    (h : (thenClauseOf limit depth ps :
      Except ShapeError (List (Node Foreign) × Option (List (Node Foreign)))) = .error e) :
    FailsInside Foreign limit depth ps e ∨ e.RepeatsClause 1 0 ps := by
  induction ps with
  | nil => cases h
  | cons p ps ih =>
      have hrest := fun h => (ih h).imp (FailsInside.cons p) (ShapeError.RepeatsClause.cons p)
      cases p with
      | scope inside =>
          simp only [thenClauseOf, bind_eq_error_iff, pure_ne_error, and_false, exists_false,
            or_false] at h
          rcases h with h | ⟨n, -, h⟩
          · exact Or.inl (failsInside_scope_cons h)
          · exact hrest h
      | word t =>
          simp only [thenClauseOf] at h
          split at h
          · rename_i ht
            subst ht
            cases h
            exact Or.inr (ShapeError.repeatsClause_thenWord 0 ps)
          · split at h
            · rename_i ht
              subst ht
              simp only [bind_eq_error_iff, pure_ne_error, and_false, exists_false, or_false] at h
              exact (elseClauseOf_eq_error h).imp (FailsInside.cons _)
                ShapeError.RepeatsClause.elseWord_cons
            · simp only [bind_eq_error_iff, pure_ne_error, and_false, exists_false, or_false] at h
              exact hrest h

/-- Behind `[if]` the layout is at fault or a scope inside. -/
theorem predicateOf_eq_error {limit depth : Int} {ps : List Piece} {e : ShapeError}
    (h : (predicateOf limit depth ps :
      Except ShapeError (List Text × List (Node Foreign) × Option (List (Node Foreign)))) =
        .error e) :
    FailsInside Foreign limit depth ps e ∨ e.DescribesLayout ps := by
  induction ps with
  | nil => cases h
  | cons p ps ih =>
      cases p with
      | scope inside =>
          cases h
          exact Or.inr ⟨inside, by simp⟩
      | word t =>
          simp only [predicateOf] at h
          split at h
          · rename_i ht
            subst ht
            simp only [bind_eq_error_iff, pure_ne_error, and_false, exists_false, or_false] at h
            exact (thenClauseOf_eq_error h).imp (FailsInside.cons _)
              ShapeError.RepeatsClause.thenWord_cons
          · rename_i hne
            split at h
            · rename_i ht
              subst ht
              cases h
              refine Or.inr ?_
              rw [ShapeError.DescribesLayout, beforeThen_word_cons hne]
              exact List.mem_cons_self ..
            · simp only [bind_eq_error_iff, pure_ne_error, and_false, exists_false, or_false] at h
              exact (ih h).imp (FailsInside.cons _) (ShapeError.DescribesLayout.word_cons hne)

/-- What the first look at a scope that starts with `[if]` and a word finds. -/
theorem isConditional_ifWord_cons (t : Text) (ps : List Piece) :
    isConditional (.word Keyword.ifWord.text :: .word t :: ps) =
      if Keyword.isReserved t = true then .error .missingPredicate
      else if (Piece.word t :: ps).any (Piece.isKeyword .thenWord) = true then .ok true
      else .error .missingThen := by
  simp only [isConditional, Piece.isKeyword_word, beq_self_eq_true, Bool.not_true,
    Bool.false_eq_true, if_false]

/-- The first look at a scope finds it empty or without what belongs to an `[if]`. -/
theorem describes_of_isConditional {limit depth : Int} {ps : List Piece} {e : ShapeError}
    (h : isConditional ps = .error e) : e.Describes limit depth ps := by
  cases ps with
  | nil =>
      cases h
      rfl
  | cons p rest =>
      by_cases hp : p = .word Keyword.ifWord.text
      · subst hp
        cases rest with
        | nil =>
            cases h
            exact ⟨rfl, by simp [HasPredicate]⟩
        | cons q ts =>
            cases q with
            | scope inside =>
                cases h
                exact ⟨rfl, by simp [HasPredicate]⟩
            | word t =>
                rw [isConditional_ifWord_cons] at h
                split at h
                · rename_i hr
                  cases h
                  exact ⟨rfl, by simp [hasPredicate_word_iff, hr]⟩
                · rename_i hr
                  split at h
                  · cases h
                  · rename_i hthen
                    cases h
                    refine ⟨rfl, (hasPredicate_word_iff _ t ts).mpr (by simpa using hr), ?_⟩
                    rw [any_isKeyword] at hthen
                    rw [List.mem_cons, not_or]
                    refine ⟨fun he => ?_, hthen⟩
                    injection he with he
                    exact absurd (Keyword.text_injective he) (by decide)
      · rw [isConditional_of_ne hp] at h
        cases h

/-- A scope is read at its depth, by a first look at it, and then piece by piece. -/
theorem ofScope_eq (limit depth : Int) (ps : List Piece) :
    (ofScope limit depth ps : Except ShapeError (Node Foreign)) =
      if limit < depth then .error (.tooDeep limit)
      else do
        let conditional ← isConditional ps
        if conditional then ofConditional limit depth ps
        else
          let nodes ← sequenceOf limit depth ps
          return .sequence nodes := by
  by_cases hd : limit < depth
  · cases ps <;> simp [ofScope, ofPiece, hd]
  · rw [if_neg hd]
    cases ps with
    | nil => simp only [ofScope, ofPiece, hd, if_false]; rfl
    | cons p rest =>
        simp only [ofScope, ofPiece, hd, if_false]
        cases isConditional (p :: rest) with
        | error e => rfl
        | ok c =>
            cases c with
            | true => rfl
            | false =>
                simp only [sequenceOf, bind_assoc, pure_bind]
                rfl

/-- The reading of a scope fails at its depth, at the first look, or at one of its pieces. -/
theorem ofScope_eq_error_cases {limit depth : Int} {ps : List Piece} {e : ShapeError}
    (h : (ofScope limit depth ps : Except ShapeError (Node Foreign)) = .error e) :
    (e = .tooDeep limit ∧ limit < depth) ∨ isConditional ps = .error e ∨
      (isConditional ps = .ok true ∧ (predicateOf limit depth ps.tail :
        Except ShapeError (List Text × List (Node Foreign) × Option (List (Node Foreign)))) =
          .error e) ∨
      (sequenceOf limit depth ps : Except ShapeError (List (Node Foreign))) = .error e := by
  rw [ofScope_eq] at h
  split at h
  · rename_i hlt
    cases h
    exact Or.inl ⟨rfl, hlt⟩
  · rcases (bind_eq_error_iff ..).mp h with hc | ⟨c, hc, h⟩
    · exact Or.inr (Or.inl hc)
    · cases c with
      | true =>
          simp only [if_true, ofConditional, bind_eq_error_iff, pure_ne_error, and_false,
            exists_false, or_false] at h
          exact Or.inr (Or.inr (Or.inl ⟨hc, h⟩))
      | false =>
          simp only [Bool.false_eq_true, if_false, bind_eq_error_iff, pure_ne_error, and_false,
            exists_false, or_false] at h
          exact Or.inr (Or.inr (Or.inr h))

/-- **One step of a failed reading.** The scope that is read is at fault itself, or a scope that
stands directly in it is. -/
theorem describes_or_failsInside {limit depth : Int} {ps : List Piece} {e : ShapeError}
    (h : (ofScope limit depth ps : Except ShapeError (Node Foreign)) = .error e) :
    e.Describes limit depth ps ∨ FailsInside Foreign limit depth ps e := by
  rcases ofScope_eq_error_cases h with ⟨rfl, hlt⟩ | hc | ⟨hc, hread⟩ | hread
  · exact Or.inl ⟨rfl, hlt⟩
  · exact Or.inl (describes_of_isConditional hc)
  · obtain ⟨t, rest, rfl, -, -⟩ := (isConditional_eq_true_iff ps).mp hc
    rcases predicateOf_eq_error hread with hin | hlayout
    · exact Or.inr (hin.cons _)
    · exact Or.inl (ShapeError.DescribesLayout.describes rfl
        (hlayout.word_cons (by decide)))
  · exact Or.inr (failsInside_of_sequenceOf hread)

/-- The error of a failed reading describes one of the scopes that were to be read. -/
theorem exists_describes {limit : Int} (ps : List Piece) {depth : Int} {e : ShapeError}
    (h : (ofScope limit depth ps : Except ShapeError (Node Foreign)) = .error e) :
    ∃ level scope, IsScopeAt ps level scope ∧ e.Describes limit (depth + (level : Nat)) scope := by
  induction ps using Piece.scope_induction generalizing depth with
  | scope ps ih =>
      rcases describes_or_failsInside h with hown | ⟨inside, hmem, hin⟩
      · exact ⟨0, ps, .root ps, by simpa using hown⟩
      · obtain ⟨level, scope, hs, he⟩ := ih inside hmem hin
        refine ⟨level + 1, scope, .nested hmem hs, ?_⟩
        have hlevel : depth + ((level + 1 : Nat) : Int) = depth + 1 + level := by omega
        rwa [hlevel]

/-! ## What is accepted -/

/-- A reading succeeds when every scope keeps to the rules. -/
theorem exists_ofScope_eq_ok_iff (Foreign : Type) (limit : Int) (ps : List Piece) :
    (∃ n : Node Foreign, ofScope limit 0 ps = .ok n) ↔ Accepted limit ps := by
  constructor
  · rintro ⟨n, hn⟩ level scope hs
    simpa using fits_of_isScopeAt hs hn
  · intro haccepted
    cases h : (ofScope limit 0 ps : Except ShapeError (Node Foreign)) with
    | ok n => exact ⟨n, rfl⟩
    | error e =>
        obtain ⟨level, scope, hs, he⟩ := exists_describes ps h
        rw [Int.zero_add] at he
        exact absurd (haccepted level scope hs) he.not_fits

/-- **What can be read and what goes wrong otherwise.** A reading succeeds exactly when every scope
keeps to the rules, and when it fails, its error describes a scope that breaks one. -/
theorem ofScope_accepts_grammar (Foreign : Type) (limit : Int) (ps : List Piece) :
    ((∃ n : Node Foreign, ofScope limit 0 ps = .ok n) ↔ Accepted limit ps) ∧
    ∀ e, (ofScope limit 0 ps : Except ShapeError (Node Foreign)) = .error e →
      ∃ level scope, IsScopeAt ps level scope ∧ e.Describes limit level scope ∧
        ¬ Fits limit level scope := by
  refine ⟨exists_ofScope_eq_ok_iff Foreign limit ps, fun e he => ?_⟩
  obtain ⟨level, scope, hs, hdescribes⟩ := exists_describes ps he
  rw [Int.zero_add] at hdescribes
  exact ⟨level, scope, hs, hdescribes, hdescribes.not_fits⟩

/-- The conditional has a second `[then]`, but the empty scope in front of it is met first. -/
theorem ofScope_accepts_grammar_of_emptyScope :
    let ps : List Piece := [.word "[if]".toList, .word ".x".toList, .word "[then]".toList,
      .scope [], .word "[then]".toList]
    (ofScope 1 0 ps : Except ShapeError (Node Empty)) = .error .emptyScope ∧
      ∃ level scope, IsScopeAt ps level scope ∧ ShapeError.emptyScope.Describes 1 level scope ∧
        ¬ Fits 1 level scope :=
  ⟨rfl, (ofScope_accepts_grammar Empty 1 _).2 _ rfl⟩

end Node

end SqlTemplate
