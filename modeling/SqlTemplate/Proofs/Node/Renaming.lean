import SqlTemplate.Proofs.Node.Acceptance
import SqlTemplate.Proofs.Node.Calls
import SqlTemplate.Proofs.Node.Selection
import SqlTemplate.Proofs.Scope.Renaming

set_option autoImplicit false

/-! # Other words in the same tree

A change of words that keeps the reserved words commutes with the reading of scopes
(`Node.ofScope_map`): the tree has the new words in the same places, and a scope that cannot be read
is at fault in the same way, after calls that nest as deeply (`Node.readingCalls_map`). When the new
words are looked up like the old ones, a substitution stops at the same place
(`Node.stop?_mapWords`), and the same places are reached (`Node.reached_mapWords`).
-/

namespace SqlTemplate

/-- The first look at a scope asks only for reserved words. -/
theorem isConditional_map {f : Text → Text} (hf : Keyword.KeptBy f) (ps : List Piece) :
    isConditional (ps.map (Piece.mapWords f)) = isConditional ps := by
  have hkeyword : ∀ (k : Keyword) (p : Piece), (p.mapWords f).isKeyword k = p.isKeyword k := by
    intro k p
    cases p with
    | word t =>
        rw [Piece.mapWords, Piece.isKeyword_word, Piece.isKeyword_word, Bool.eq_iff_iff, beq_iff_eq,
          beq_iff_eq]
        exact hf t k
    | scope inside => rw [Piece.mapWords, Piece.isKeyword_scope, Piece.isKeyword_scope]
  have hany : ∀ (k : Keyword) (ps : List Piece),
      (ps.map (Piece.mapWords f)).any (Piece.isKeyword k) = ps.any (Piece.isKeyword k) := by
    intro k ps
    rw [List.any_map]
    exact congrArg ps.any (funext (hkeyword k))
  rcases ps with _ | ⟨first, _ | ⟨t | inside, rest⟩⟩
  · rfl
  · simp only [List.map_cons, List.map_nil, isConditional, hkeyword]
  · have hthen := hany .thenWord (.word t :: rest)
    simp only [List.map_cons, Piece.mapWords] at hthen
    simp only [List.map_cons, Piece.mapWords, isConditional, hkeyword, hf.isReserved_eq, hthen]
  · simp only [List.map_cons, Piece.mapWords, isConditional, hkeyword]

namespace Node

variable {Foreign : Type}

/-! ## Reading scopes -/

/-- Whether the reading of a scope follows a change of words. -/
def Follows (Foreign : Type) (f : Text → Text) (limit : Int) (inside : List Piece) : Prop :=
  ∀ depth : Int, (ofScope limit depth (inside.map (Piece.mapWords f)) :
    Except ShapeError (Node Foreign)) = (ofScope limit depth inside).map (mapWords f)

/-- What is read of the clauses of a conditional, with other words in the same places. -/
def mapClauses (f : Text → Text) (clauses : List (Node Foreign) × Option (List (Node Foreign))) :
    List (Node Foreign) × Option (List (Node Foreign)) :=
  (mapAllWords f clauses.1, clauses.2.map (mapAllWords f))

theorem mapWords_ofClauses (f : Text → Text) (predicate : List Text) (ts : List (Node Foreign))
    (es : Option (List (Node Foreign))) :
    (ofClauses predicate ts es).mapWords f =
      ofClauses (predicate.map f) (mapAllWords f ts) (es.map (mapAllWords f)) := by
  cases es <;> rfl

section

variable {f : Text → Text} {limit : Int}

theorem ofPiece_map {p : Piece}
    (hp : ∀ inside, p = .scope inside → Follows Foreign f limit inside) (depth : Int) :
    (ofPiece limit depth (p.mapWords f) : Except ShapeError (Node Foreign)) =
      (ofPiece limit depth p).map (mapWords f) := by
  cases p with
  | word t => rfl
  | scope inside =>
      rw [Piece.mapWords_scope]
      exact hp inside rfl depth

/-- The pieces of a plain scope are read one by one. -/
theorem sequenceOf_map {ps : List Piece}
    (hps : ∀ inside, .scope inside ∈ ps → Follows Foreign f limit inside) (depth : Int) :
    (sequenceOf limit depth (ps.map (Piece.mapWords f)) :
        Except ShapeError (List (Node Foreign))) =
      (sequenceOf limit depth ps).map (mapAllWords f) := by
  induction ps with
  | nil => rfl
  | cons p ps ih =>
      have hp := ofPiece_map (p := p) (fun inside h => hps inside (h ▸ List.mem_cons_self ..))
        (depth + 1)
      have hrest := ih fun inside h => hps inside (List.mem_cons_of_mem _ h)
      rw [List.map_cons, sequenceOf, sequenceOf, hp, hrest]
      cases (ofPiece limit (depth + 1) p : Except ShapeError (Node Foreign)) with
      | error e => rfl
      | ok n => cases (sequenceOf limit depth ps : Except ShapeError (List (Node Foreign))) <;> rfl

theorem elseClauseOf_map (hf : Keyword.KeptBy f) {ps : List Piece}
    (hps : ∀ inside, .scope inside ∈ ps → Follows Foreign f limit inside) (depth : Int) :
    (elseClauseOf limit depth (ps.map (Piece.mapWords f)) :
        Except ShapeError (List (Node Foreign))) =
      (elseClauseOf limit depth ps).map (mapAllWords f) := by
  induction ps with
  | nil => rfl
  | cons p ps ih =>
      have hp := ofPiece_map (p := p) (fun inside h => hps inside (h ▸ List.mem_cons_self ..))
        (depth + 1)
      have hrest := ih fun inside h => hps inside (List.mem_cons_of_mem _ h)
      rw [List.map_cons]
      cases p with
      | scope inside =>
          rw [Piece.mapWords] at hp ⊢
          rw [elseClauseOf, elseClauseOf, hp, hrest]
          cases (ofPiece limit (depth + 1) (.scope inside) : Except ShapeError (Node Foreign)) with
          | error e => rfl
          | ok n =>
              cases (elseClauseOf limit depth ps : Except ShapeError (List (Node Foreign))) <;> rfl
      | word t =>
          rw [Piece.mapWords, elseClauseOf, elseClauseOf, hrest]
          simp only [hf t]
          split
          · rfl
          · split
            · rfl
            · cases (elseClauseOf limit depth ps : Except ShapeError (List (Node Foreign))) <;> rfl

theorem thenClauseOf_map (hf : Keyword.KeptBy f) {ps : List Piece}
    (hps : ∀ inside, .scope inside ∈ ps → Follows Foreign f limit inside) (depth : Int) :
    (thenClauseOf limit depth (ps.map (Piece.mapWords f)) :
        Except ShapeError (List (Node Foreign) × Option (List (Node Foreign)))) =
      (thenClauseOf limit depth ps).map (mapClauses f) := by
  induction ps with
  | nil => rfl
  | cons p ps ih =>
      have hp := ofPiece_map (p := p) (fun inside h => hps inside (h ▸ List.mem_cons_self ..))
        (depth + 1)
      have htail := fun inside h => hps inside (List.mem_cons_of_mem _ h)
      have hrest := ih htail
      rw [List.map_cons]
      cases p with
      | scope inside =>
          rw [Piece.mapWords] at hp ⊢
          rw [thenClauseOf, thenClauseOf, hp, hrest]
          cases (ofPiece limit (depth + 1) (.scope inside) : Except ShapeError (Node Foreign)) with
          | error e => rfl
          | ok n =>
              cases (thenClauseOf limit depth ps :
                Except ShapeError (List (Node Foreign) × Option (List (Node Foreign)))) <;> rfl
      | word t =>
          rw [Piece.mapWords, thenClauseOf, thenClauseOf, hrest, elseClauseOf_map hf htail]
          simp only [hf t]
          split
          · rfl
          · split
            · cases (elseClauseOf limit depth ps : Except ShapeError (List (Node Foreign))) <;> rfl
            · cases (thenClauseOf limit depth ps :
                Except ShapeError (List (Node Foreign) × Option (List (Node Foreign)))) <;> rfl

theorem predicateOf_map (hf : Keyword.KeptBy f) {ps : List Piece}
    (hps : ∀ inside, .scope inside ∈ ps → Follows Foreign f limit inside) (depth : Int) :
    (predicateOf limit depth (ps.map (Piece.mapWords f)) : Except ShapeError
        (List Text × List (Node Foreign) × Option (List (Node Foreign)))) =
      (predicateOf limit depth ps).map (Prod.map (List.map f) (mapClauses f)) := by
  induction ps with
  | nil => rfl
  | cons p ps ih =>
      have htail := fun inside h => hps inside (List.mem_cons_of_mem _ h)
      have hrest := ih htail
      rw [List.map_cons]
      cases p with
      | scope inside =>
          rw [Piece.mapWords, predicateOf, predicateOf]
          rfl
      | word t =>
          rw [Piece.mapWords, predicateOf, predicateOf, hrest, thenClauseOf_map hf htail]
          simp only [hf t]
          split
          · cases (thenClauseOf limit depth ps :
              Except ShapeError (List (Node Foreign) × Option (List (Node Foreign)))) <;> rfl
          · split
            · rfl
            · cases (predicateOf limit depth ps : Except ShapeError
                (List Text × List (Node Foreign) × Option (List (Node Foreign)))) <;> rfl

end

/-- **The tree of a scope follows a change of words** that keeps the reserved words. -/
theorem ofScope_map {f : Text → Text} (hf : Keyword.KeptBy f) (limit : Int) (ps : List Piece) :
    Follows Foreign f limit ps := by
  induction ps using Piece.scope_induction with
  | scope ps ih =>
      intro depth
      rw [ofScope_eq, ofScope_eq, isConditional_map hf]
      split
      · rfl
      · cases isConditional ps with
        | error e => rfl
        | ok conditional =>
            cases conditional with
            | false =>
                simp only [sequenceOf_map ih]
                cases (sequenceOf limit depth ps : Except ShapeError (List (Node Foreign))) <;> rfl
            | true =>
                have htail : ∀ inside, .scope inside ∈ ps.tail → Follows Foreign f limit inside :=
                  fun inside h => ih inside (List.mem_of_mem_tail h)
                simp only [ofConditional, ← List.map_tail, predicateOf_map hf htail]
                cases (predicateOf limit depth ps.tail : Except ShapeError
                  (List Text × List (Node Foreign) × Option (List (Node Foreign)))) with
                | error e => rfl
                | ok clauses =>
                    obtain ⟨predicate, ts, es⟩ := clauses
                    exact congrArg Except.ok (mapWords_ofClauses f predicate ts es).symm

theorem Reach.behind_map {f : Text → Text} (hf : Keyword.KeptBy f) (reach : Reach) (t : Text) :
    reach.behind (f t) = reach.behind t := by
  cases reach <;> simp only [Reach.behind, hf t]

/-- The calls that read the pieces of a scope, given that those for the scopes in it are as many. -/
theorem readingCallsFrom_map {f : Text → Text} (hf : Keyword.KeptBy f) {limit depth : Int}
    {ps : List Piece}
    (hps : ∀ inside, .scope inside ∈ ps →
      readingCalls limit (depth + 1) (.scope (inside.map (Piece.mapWords f))) =
        readingCalls limit (depth + 1) (.scope inside)) (reach : Reach) :
    readingCallsFrom limit depth reach (ps.map (Piece.mapWords f)) =
      readingCallsFrom limit depth reach ps := by
  induction ps generalizing reach with
  | nil => rfl
  | cons p ps ih =>
      have hrest := ih fun inside hmem => hps inside (List.mem_cons_of_mem _ hmem)
      cases p with
      | word t =>
          simp only [List.map_cons, Piece.mapWords, readingCallsFrom, Reach.behind_map hf, hrest]
      | scope inside =>
          have hscope := hps inside (List.mem_cons_self ..)
          have hread := @ofScope_map Empty f hf limit inside (depth + 1)
          rw [ofScope, ofScope] at hread
          simp only [List.map_cons, Piece.mapWords_scope, readingCallsFrom, hscope, hrest, hread]
          cases (ofPiece limit (depth + 1) (.scope inside) : Except ShapeError (Node Empty)) <;> rfl

/-- **The calls that read a scope** do not depend on its words, but for the reserved ones. -/
theorem readingCalls_map {f : Text → Text} (hf : Keyword.KeptBy f) (limit depth : Int)
    (ps : List Piece) : readingCalls limit depth (.scope (ps.map (Piece.mapWords f))) =
      readingCalls limit depth (.scope ps) := by
  induction ps using Piece.scope_induction generalizing depth with
  | scope ps ih =>
      have hinside := readingCallsFrom_map hf fun inside hmem => ih inside hmem (depth + 1)
      simp only [readingCalls, isConditional_map hf, hinside]

end Node

/-! ## Reading the tree under tables that agree -/

/-- The error of a predicate with other words in it. A word that is no truth value is reported as
it is after its replacement, and only the words of a predicate that has several are reported as they
stand in the template. -/
def PredicateError.mapWords (f : Text → Text) : PredicateError → PredicateError
  | .several ws => .several (ws.map f)
  | e => e

/-- The error of a substitution with other words in it. -/
def SubstitutionError.mapWords {Foreign : Type} (f : Text → Text) :
    SubstitutionError Foreign → SubstitutionError Foreign
  | .predicate e => .predicate (e.mapWords f)
  | e => e

section

variable {f : Text → Text} {table table' : Lookup}

theorem Lookup.fault?_map {w : Text} (h : table'.resolve (f w) = table.resolve w) :
    table'.fault? (f w) = table.fault? w := by
  rw [fault?, fault?, h]

/-- A word that can be replaced is replaced alike. -/
theorem Lookup.replace_map {w : Text} (h : table'.resolve (f w) = table.resolve w)
    (hfault : table.fault? w = none) : table'.replace (f w) = table.replace w := by
  obtain ⟨t, ht⟩ := (fault?_eq_none_iff table w).mp hfault
  rw [replace_of_ok ht, replace_of_ok (h ▸ ht)]

theorem substitutePredicate_map {Foreign : Type} {q : List Text}
    (h : ∀ w ∈ q, table'.resolve (f w) = table.resolve w) :
    (substitutePredicate table' (q.map f) : Substituted (List Text) Foreign).2 =
      (substitutePredicate table q).2.map (SubstitutionError.mapWords f) := by
  match q, h with
  | [], _ => rfl
  | v :: w :: ws, _ => rfl
  | [w], h =>
      have hw := h w (List.mem_cons_self ..)
      simp only [List.map_cons, List.map_nil, substitutePredicate, Lookup.fault?_map hw]
      cases hfault : table.fault? w with
      | some fault => rfl
      | none =>
          rw [Lookup.replace_map hw hfault]
          dsimp only
          split <;> rfl

theorem Lookup.takes_map {q : List Text} (h : ∀ w ∈ q, table'.replace (f w) = table.replace w) :
    table'.takes (q.map f) = table.takes q := by
  match q, h with
  | [], _ => rfl
  | v :: w :: ws, _ => rfl
  | [w], h =>
      have hw := h w (List.mem_cons_self ..)
      simp only [List.map_cons, List.map_nil, Lookup.takes, Lookup.truthOf?, hw]

namespace Node

variable {Foreign : Type}

theorem ownStop?_mapWords {n : Node Foreign}
    (h : ∀ w ∈ n.ownWords, table'.resolve (f w) = table.resolve w) :
    (n.mapWords f).ownStop? table' = (n.ownStop? table).map (SubstitutionError.mapWords f) := by
  cases n with
  | literal t =>
      have hw := h t (List.mem_cons_self ..)
      simp only [mapWords, ownStop?, Lookup.fault?_map hw, Option.map_map]
      rfl
  | conditional predicate a b => exact substitutePredicate_map h
  | sequence children => rfl
  | foreign x => rfl

/-- The substitution stops at the same node, for the same reason. -/
theorem stop?_mapWords {n : Node Foreign}
    (h : ∀ w ∈ n.words, table'.resolve (f w) = table.resolve w) :
    (n.mapWords f).stop? table' = (n.stop? table).map (SubstitutionError.mapWords f) := by
  unfold words at h
  unfold stop?
  rw [nodes_mapWords]
  generalize n.nodes = ns at h
  induction ns with
  | nil => rfl
  | cons m ms ih =>
      rw [List.flatMap_cons, List.forall_mem_append] at h
      rw [List.map_cons, List.findSome?_cons, List.findSome?_cons, ownStop?_mapWords h.1, ih h.2]
      cases m.ownStop? table <;> rfl

theorem predicateCalls_map {q : List Text}
    (h : ∀ w ∈ q, table'.resolve (f w) = table.resolve w) :
    predicateCalls table' (q.map f) = predicateCalls table q := by
  match q, h with
  | [], _ => rfl
  | v :: w :: ws, _ => rfl
  | [w], h => simp only [List.map_cons, List.map_nil, predicateCalls, h w (List.mem_cons_self ..)]

/-- The calls of the substitution nest as deeply. -/
theorem substitutionCalls_mapWords {n : Node Foreign}
    (h : ∀ w ∈ n.words, table'.resolve (f w) = table.resolve w) :
    (n.mapWords f).substitutionCalls table' = n.substitutionCalls table := by
  unfold words at h
  induction n using parts_induction
    (fun b => (∀ w ∈ (elseNodes b).flatMap ownWords, table'.resolve (f w) = table.resolve w) →
      elseSubstitutionCalls table' (mapElseWords f b) = elseSubstitutionCalls table b)
    (fun ns => (∀ w ∈ (nodesAll ns).flatMap ownWords, table'.resolve (f w) = table.resolve w) →
      substitutionCallsAll table' (mapAllWords f ns) = substitutionCallsAll table ns) with
  | literal t =>
      rw [mapWords, substitutionCalls, substitutionCalls, h t (by simp [nodes, ownWords])]
  | conditional predicate a b iha ihb =>
      rw [nodes, List.flatMap_cons, List.flatMap_append, ownWords, List.forall_mem_append,
        List.forall_mem_append] at h
      obtain ⟨hq, ha, hb⟩ := h
      rw [mapWords, substitutionCalls_conditional, substitutionCalls_conditional,
        substitutePredicate_map hq, predicateCalls_map hq, stop?_mapWords ha, iha ha, ihb hb,
        Option.isSome_map, Option.isSome_map]
  | sequence children ih => exact congrArg (· + 1) (ih h)
  | foreign x => rfl
  | none => rfl
  | some n ih h => exact ih h
  | nil => rfl
  | cons n ns ihn ihns h =>
      rw [nodesAll, List.flatMap_append, List.forall_mem_append] at h
      rw [mapAllWords, substitutionCallsAll_cons, substitutionCallsAll_cons, stop?_mapWords h.1,
        ihn h.1, ihns h.2, Option.isSome_map]

/-- What is reached depends on the truth of the changed predicates. -/
theorem reached_mapWords (f : Text → Text) (takes : List Text → Bool) (n : Node Foreign) :
    (n.mapWords f).reached takes = (n.reached fun q => takes (q.map f)).map f := by
  induction n using parts_induction
    (fun b => reachedElse takes (mapElseWords f b) =
      (reachedElse (fun q => takes (q.map f)) b).map f)
    (fun ns => reachedAll takes (mapAllWords f ns) =
      (reachedAll (fun q => takes (q.map f)) ns).map f) with
  | literal t => rfl
  | conditional predicate a b iha ihb =>
      simp only [mapWords, reached, iha, ihb]
      split <;> rfl
  | sequence children ih => simp only [mapWords, reached, ih]
  | foreign x => rfl
  | none => rfl
  | some n ih => exact ih
  | nil => rfl
  | cons n ns ihn ihns => simp only [mapAllWords, reachedAll, List.map_append, ihn, ihns]

/-! ## The same tree under tables that agree -/

theorem mapWords_id (n : Node Foreign) : n.mapWords id = n := by
  induction n using parts_induction
    (fun b => mapElseWords id b = b)
    (fun ns => mapAllWords id ns = ns) with
  | literal t => rfl
  | conditional predicate a b iha ihb => rw [mapWords, iha, ihb, List.map_id]
  | sequence children ih => exact congrArg sequence ih
  | foreign x => rfl
  | none => rfl
  | some n ih => exact congrArg some ih
  | nil => rfl
  | cons n ns ihn ihns => rw [mapAllWords, ihn, ihns]

theorem mapWords_id_substitutionError (e : SubstitutionError Foreign) : e.mapWords id = e := by
  match e with
  | .predicate (.several ws) => simp [SubstitutionError.mapWords, PredicateError.mapWords]
  | .predicate .empty => rfl
  | .predicate (.notTruth w) => rfl
  | .noText fault => rfl
  | .foreign x => rfl

theorem stop?_congr {n : Node Foreign} (h : ∀ w ∈ n.words, table'.resolve w = table.resolve w) :
    n.stop? table' = n.stop? table := by
  have hstop := stop?_mapWords (f := id) h
  rw [mapWords_id] at hstop
  rw [hstop]
  cases n.stop? table with
  | none => rfl
  | some e => exact congrArg some (mapWords_id_substitutionError e)

theorem substitutionCalls_congr {n : Node Foreign}
    (h : ∀ w ∈ n.words, table'.resolve w = table.resolve w) :
    n.substitutionCalls table' = n.substitutionCalls table := by
  have hcalls := substitutionCalls_mapWords (f := id) h
  rwa [mapWords_id] at hcalls

end Node

end

end SqlTemplate
