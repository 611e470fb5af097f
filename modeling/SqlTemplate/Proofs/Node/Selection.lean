import SqlTemplate.Proofs.Node.Interpretation
import SqlTemplate.Proofs.Node.Pieces
import SqlTemplate.Proofs.Scope.Words
import SqlTemplate.Proofs.Text.Spacing

set_option autoImplicit false

/-! # The words that a text is made of

The predicates of a tree select branches, and the words in the branches taken are all that the
text of the tree is made of: the text is these words, replaced and spaced
(`Node.interpret_eq_spaced`). Which words they are depends on the truth of the predicates alone,
and they stand in the tree in the same order (`Node.reached_sublist_words`).
-/

namespace SqlTemplate

/-- Whether a predicate selects the then branch under a table. -/
def Lookup.takes (table : Lookup) (predicate : List Text) : Bool :=
  table.truthOf? predicate == some true

namespace Node

variable {Foreign : Type}

mutual

/-- The words of a tree outside of predicates and of branches that are not taken. -/
def reached (takes : List Text → Bool) : Node Foreign → List Text
  | .literal t => [t]
  | .conditional predicate a b =>
      if takes predicate then a.reached takes else reachedElse takes b
  | .sequence children => reachedAll takes children
  | .foreign _ => []

/-- The words that are reached in a branch that may be missing. -/
def reachedElse (takes : List Text → Bool) : Option (Node Foreign) → List Text
  | none => []
  | some n => n.reached takes

/-- The words that are reached in trees one after another. -/
def reachedAll (takes : List Text → Bool) : List (Node Foreign) → List Text
  | [] => []
  | n :: ns => n.reached takes ++ reachedAll takes ns

end

theorem reachedAll_append (takes : List Text → Bool) (xs ys : List (Node Foreign)) :
    reachedAll takes (xs ++ ys) = reachedAll takes xs ++ reachedAll takes ys := by
  induction xs with
  | nil => rfl
  | cons n ns ih => rw [List.cons_append, reachedAll, reachedAll, ih, List.append_assoc]

/-- **The text of a tree** is that of its reached words, replaced and spaced. -/
theorem interpret_eq_spaced (table : Lookup) (n : Node Foreign) :
    n.interpret table = Text.spaced ((n.reached table.takes).map table.replace) := by
  induction n using parts_induction
    (fun b => interpretElse table b =
      Text.spaced ((reachedElse table.takes b).map table.replace))
    (fun ns => Text.spaced (interpretAll table ns) =
      Text.spaced ((reachedAll table.takes ns).map table.replace)) with
  | literal t => simp [interpret, reached]
  | conditional predicate a b iha ihb =>
      simp only [interpret, reached, Lookup.takes, beq_iff_eq, iha, ihb]
      split <;> rfl
  | sequence children ih => exact ih
  | foreign x => rfl
  | none => rfl
  | some n ih => exact ih
  | nil => rfl
  | cons n ns ihn ihns =>
      calc Text.spaced (n.interpret table :: interpretAll table ns)
          = Text.spaced [n.interpret table, Text.spaced (interpretAll table ns)] :=
            Text.spaced_cons _ _
        _ = Text.spaced [Text.spaced ((n.reached table.takes).map table.replace),
              Text.spaced ((reachedAll table.takes ns).map table.replace)] := by rw [ihn, ihns]
        _ = Text.spaced ((n.reached table.takes ++ reachedAll table.takes ns).map
              table.replace) := by rw [← Text.spaced_append, ← List.map_append]

/-- Only the predicates of a tree matter to what is reached. -/
theorem reached_congr {takes takes' : List Text → Bool} {n : Node Foreign}
    (h : ∀ q ∈ n.predicates, takes q = takes' q) : n.reached takes = n.reached takes' := by
  induction n using parts_induction
    (fun b => (∀ q ∈ elsePredicates b, takes q = takes' q) →
      reachedElse takes b = reachedElse takes' b)
    (fun ns => (∀ q ∈ predicatesAll ns, takes q = takes' q) →
      reachedAll takes ns = reachedAll takes' ns) with
  | literal t => rfl
  | conditional predicate a b iha ihb =>
      simp only [predicates, List.mem_cons, List.mem_append] at h
      rw [reached, reached, h predicate (Or.inl rfl), iha fun q hq => h q (Or.inr (Or.inl hq)),
        ihb fun q hq => h q (Or.inr (Or.inr hq))]
  | sequence children ih => exact ih h
  | foreign x => rfl
  | none => rfl
  | some n ih h => exact ih h
  | nil => rfl
  | cons n ns ihn ihns h =>
      simp only [predicatesAll, List.mem_append] at h
      rw [reachedAll, reachedAll, ihn fun q hq => h q (Or.inl hq),
        ihns fun q hq => h q (Or.inr hq)]

/-! ## Tables that agree on the predicates -/

/-- Whether two tables replace every word in the predicates of a tree alike. -/
def AgreeOnPredicates (table table' : Lookup) (n : Node Foreign) : Prop :=
  ∀ q ∈ n.predicates, ∀ w ∈ q, table.replace w = table'.replace w

/-- Whether two substitutions stop for the same reason or both go through, unless one of them stops
for a value that has no text. -/
def StopsAlike (a b : Option (SubstitutionError Foreign)) : Prop :=
  (∃ fault, a = some (.noText fault)) ∨ (∃ fault, b = some (.noText fault)) ∨ a = b

/-- Substitutions that stop alike at each node stop alike at the first one. -/
theorem stopsAlike_findSome? {f g : Node Foreign → Option (SubstitutionError Foreign)}
    {ns : List (Node Foreign)} (h : ∀ n ∈ ns, StopsAlike (f n) (g n)) :
    StopsAlike (ns.findSome? f) (ns.findSome? g) := by
  induction ns with
  | nil => exact Or.inr (Or.inr rfl)
  | cons n ns ih =>
      have hns := ih fun m hm => h m (List.mem_cons_of_mem n hm)
      rw [List.findSome?_cons, List.findSome?_cons]
      rcases h n (List.mem_cons_self ..) with ⟨fault, hf⟩ | ⟨fault, hg⟩ | heq
      · exact Or.inl ⟨fault, by rw [hf]⟩
      · exact Or.inr (Or.inl ⟨fault, by rw [hg]⟩)
      · rw [heq]
        cases g n with
        | none => exact hns
        | some e => exact Or.inr (Or.inr rfl)

/-- Tables that accept and refuse each predicate of a tree alike stop alike in the tree. -/
theorem stopsAlike_of_predicates {table table' : Lookup} {n : Node Foreign}
    (h : ∀ q ∈ n.predicates, @StopsAlike Foreign (substitutePredicate table q).2
      (substitutePredicate table' q).2) :
    StopsAlike (n.stop? table) (n.stop? table') := by
  refine stopsAlike_findSome? fun m hm => ?_
  cases m with
  | literal t =>
      simp only [ownStop?]
      cases table.fault? t with
      | some fault => exact Or.inl ⟨fault, rfl⟩
      | none =>
          cases table'.fault? t with
          | some fault => exact Or.inr (Or.inl ⟨fault, rfl⟩)
          | none => exact Or.inr (Or.inr rfl)
  | conditional q a b => exact h q ((mem_predicates_iff q n).mpr ⟨a, b, hm⟩)
  | sequence children => exact Or.inr (Or.inr rfl)
  | foreign x => exact Or.inr (Or.inr rfl)

/-- A predicate of a word that two tables replace alike is accepted and refused alike. -/
theorem stopsAlike_singleton {table table' : Lookup} {w : Text}
    (h : table.replace w = table'.replace w) :
    @StopsAlike Foreign (substitutePredicate table [w]).2
      (substitutePredicate table' [w]).2 := by
  simp only [substitutePredicate, h]
  cases table.fault? w with
  | some fault => exact Or.inl ⟨fault, rfl⟩
  | none =>
      cases table'.fault? w with
      | some fault => exact Or.inr (Or.inl ⟨fault, rfl⟩)
      | none => exact Or.inr (Or.inr rfl)

theorem AgreeOnPredicates.stopsAlike {table table' : Lookup} {n : Node Foreign}
    (h : AgreeOnPredicates table table' n) : StopsAlike (n.stop? table) (n.stop? table') := by
  refine stopsAlike_of_predicates fun q hq => ?_
  match q, h q hq with
  | [], _ => exact Or.inr (Or.inr rfl)
  | [w], hw => exact stopsAlike_singleton (hw w (List.mem_cons_self ..))
  | v :: w :: ws, _ => exact Or.inr (Or.inr rfl)

/-- Tables that agree on the predicates reach the same words. -/
theorem AgreeOnPredicates.reached_eq {table table' : Lookup} {n : Node Foreign}
    (h : AgreeOnPredicates table table' n) : n.reached table.takes = n.reached table'.takes := by
  refine reached_congr fun q hq => ?_
  -- only a predicate of one word is looked up
  match q, h q hq with
  | [], _ => rfl
  | [w], hw => simp only [Lookup.takes, Lookup.truthOf?, hw w (List.mem_cons_self ..)]
  | v :: w :: ws, _ => rfl

/-! ## Where the words stand -/

theorem wordsAll_pieces_conditional (opening closing predicate : List Text) (a : Node Foreign)
    (b : Option (Node Foreign)) :
    Piece.wordsAll opening closing (Node.conditional predicate a b).pieces =
      (Keyword.ifWord.text :: predicate ++ [Keyword.thenWord.text]) ++
        Piece.wordsAll opening closing (a.pieces ++ elsePieces b) := by
  simp [pieces, Piece.wordsAll, Piece.wordsOf, Piece.wordsAll_append, Piece.wordsAll_map_word]

theorem plainWords_piecesAll_cons (n : Node Foreign) (ns : List (Node Foreign)) :
    Piece.plainWords (piecesAll (n :: ns)) =
      Piece.plainWords n.pieces ++ Piece.plainWords (piecesAll ns) := by
  cases n <;> simp [piecesAll, pieces, Piece.plainWords, Piece.wordsAll, Piece.wordsOf,
    Piece.wordsAll_append]

/-- The reached words are among the words of the tree, in the same order. -/
theorem reached_sublist_words (takes : List Text → Bool) (n : Node Foreign) :
    (n.reached takes).Sublist n.words := by
  unfold words
  induction n using parts_induction
    (fun b => (reachedElse takes b).Sublist ((elseNodes b).flatMap ownWords))
    (fun ns => (reachedAll takes ns).Sublist ((nodesAll ns).flatMap ownWords)) with
  | literal t => exact List.Sublist.refl _
  | conditional predicate a b iha ihb =>
      rw [nodes, List.flatMap_cons, List.flatMap_append, reached]
      -- the words of the branches come last
      refine List.Sublist.trans ?_ (List.sublist_append_right _ _)
      split
      · exact iha.trans (List.sublist_append_left _ _)
      · exact ihb.trans (List.sublist_append_right _ _)
  | sequence children ih => exact ih
  | foreign x => exact List.nil_sublist _
  | none => exact List.nil_sublist _
  | some n ih => exact ih
  | nil => exact List.nil_sublist _
  | cons n ns ihn ihns =>
      rw [reachedAll, nodesAll, List.flatMap_append]
      exact ihn.append ihns

/-- The words of a tree are among the words that it was read from, in the same order. -/
theorem words_sublist_plainWords (n : Node Foreign) :
    n.words.Sublist (Piece.plainWords n.pieces) := by
  unfold words
  induction n using parts_induction
    (fun b => ((elseNodes b).flatMap ownWords).Sublist (Piece.plainWords (elsePieces b)))
    (fun ns => ((nodesAll ns).flatMap ownWords).Sublist (Piece.plainWords (piecesAll ns))) with
  | literal t => exact List.Sublist.refl _
  | conditional predicate a b iha ihb =>
      have hpredicate : predicate.Sublist
          (Keyword.ifWord.text :: predicate ++ [Keyword.thenWord.text]) :=
        (List.sublist_cons_self _ _).trans (List.sublist_append_left _ _)
      rw [nodes, List.flatMap_cons, List.flatMap_append, ownWords, Piece.plainWords,
        wordsAll_pieces_conditional, Piece.wordsAll_append]
      exact hpredicate.append (iha.append ihb)
  | sequence children ih => exact ih
  | foreign x => exact List.nil_sublist _
  | none => exact List.nil_sublist _
  | some n ih => exact ih.trans (List.sublist_cons_self _ _)
  | nil => exact List.nil_sublist _
  | cons n ns ihn ihns =>
      rw [nodesAll, List.flatMap_append, plainWords_piecesAll_cons]
      exact ihn.append ihns

end Node

end SqlTemplate
