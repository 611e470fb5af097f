import SqlTemplate.Node.Calls
import SqlTemplate.Proofs.Node.Grammar
import SqlTemplate.Proofs.Node.Interpretation

set_option autoImplicit false

/-! # The calls of stages that succeed

How deeply a stage nests its calls depends on where it stops. A reading that succeeds goes to the
end of every scope, so what it needs is a number of the pieces alone (`Node.readingCalls_scope`):
other limits do not change it, and pieces one after another need as much as those of them that need
more. A step of such a reading leads from one piece of a scope to the next (`Node.ReadsOn.word`,
`Node.ReadsOn.scope`), and the run through a scope follows by induction on its pieces.

A substitution makes a call for each node on a way down the tree, and at its end those for the value
of a word (`Node.substitutionCalls_le`). One that succeeds goes to the end of every way, so its
calls are at least as many as the tree is high (`Node.height_le_substitutionCalls`).
-/

namespace SqlTemplate

namespace Piece

mutual

/-- How deeply the calls nest that read a piece to its end. -/
def fullCalls : Piece → Nat
  | .word _ => 0
  | .scope inside => fullCallsAll inside + if isConditional inside matches .ok true then 2 else 1

/-- How deeply the calls nest that read pieces one after another to their ends. -/
def fullCallsAll : List Piece → Nat
  | [] => 0
  | p :: ps => max p.fullCalls (fullCallsAll ps)

end

theorem fullCalls_scope {inside : List Piece} {conditional : Bool}
    (h : isConditional inside = .ok conditional) :
    (Piece.scope inside).fullCalls = fullCallsAll inside + if conditional then 2 else 1 := by
  rw [fullCalls, h]
  cases conditional <;> rfl

theorem fullCallsAll_append (ps qs : List Piece) :
    fullCallsAll (ps ++ qs) = max (fullCallsAll ps) (fullCallsAll qs) := by
  induction ps with
  | nil => simp [fullCallsAll]
  | cons p ps ih => rw [List.cons_append, fullCallsAll, fullCallsAll, ih, Nat.max_assoc]

@[simp] theorem fullCallsAll_word_cons (t : Text) (ps : List Piece) :
    fullCallsAll (.word t :: ps) = fullCallsAll ps := by
  simp [fullCallsAll, fullCalls]

end Piece

namespace Node

/-! ## Reading -/

/-- Whether the pieces of a scope of the given depth are read to their end from where the reading
has got to. -/
def ReadsOn (limit depth : Int) : Reach → List Piece → Prop
  | .start, ps => ∃ t rest, ps = .word t :: rest ∧
      ∃ clauses : _ × List (Node Empty) × _, predicateOf limit depth rest = .ok clauses
  | .plain, ps => ∃ ns : List (Node Empty), sequenceOf limit depth ps = .ok ns
  | .predicate, ps =>
      ∃ clauses : _ × List (Node Empty) × _, predicateOf limit depth ps = .ok clauses
  | .thenClause, ps =>
      ∃ clauses : List (Node Empty) × _, thenClauseOf limit depth ps = .ok clauses
  | .elseClause, ps => ∃ ns : List (Node Empty), elseClauseOf limit depth ps = .ok ns

variable {limit depth : Int}

/-- **A step over a word.** The word is no error, and the rest is read from where it leads to. -/
theorem ReadsOn.word {reach : Reach} {t : Text} {ps : List Piece}
    (h : ReadsOn limit depth reach (.word t :: ps)) :
    ∃ reach', reach.behind t = some reach' ∧ ReadsOn limit depth reach' ps := by
  cases reach with
  | start =>
      obtain ⟨t', rest, heq, clauses, hread⟩ := h
      obtain ⟨-, rfl⟩ := List.cons.inj heq
      exact ⟨.predicate, rfl, clauses, hread⟩
  | plain =>
      obtain ⟨ns, hread⟩ := h
      obtain ⟨n, rest, -, hrest, -⟩ := (sequenceOf_cons_iff ..).mp hread
      exact ⟨.plain, rfl, rest, hrest⟩
  | predicate =>
      obtain ⟨clauses, hread⟩ := h
      simp only [predicateOf] at hread
      simp only [Reach.behind]
      split at hread
      · rename_i ht
        obtain ⟨a, ha, -⟩ := (bind_eq_ok_iff ..).mp hread
        exact ⟨.thenClause, if_pos ht, a, ha⟩
      · rename_i ht
        split at hread
        · cases hread
        · rename_i he
          obtain ⟨a, ha, -⟩ := (bind_eq_ok_iff ..).mp hread
          exact ⟨.predicate, by rw [if_neg ht, if_neg he], a, ha⟩
  | thenClause =>
      obtain ⟨⟨ts, es⟩, hread⟩ := h
      by_cases he : t = Keyword.elseWord.text
      · rw [he] at hread ⊢
        obtain ⟨-, ns, hrest, -⟩ := (thenClauseOf_elseWord_iff ..).mp hread
        exact ⟨.elseClause, rfl, ns, hrest⟩
      · obtain ⟨n, rest, ⟨ht, -⟩, hrest, -⟩ :=
          (thenClauseOf_cons_iff _ _ (mt Piece.word.inj he) ..).mp hread
        have hthen : t ≠ Keyword.thenWord.text := fun h => ht (by simp [clauseWords, h])
        exact ⟨.thenClause, by rw [Reach.behind, if_neg hthen, if_neg he], _, hrest⟩
  | elseClause =>
      obtain ⟨ns, hread⟩ := h
      obtain ⟨n, rest, ⟨ht, -⟩, hrest, -⟩ := (elseClauseOf_cons_iff ..).mp hread
      have hthen : t ≠ Keyword.thenWord.text := fun h => ht (by simp [clauseWords, h])
      have helse : t ≠ Keyword.elseWord.text := fun h => ht (by simp [clauseWords, h])
      exact ⟨.elseClause, by rw [Reach.behind, if_neg hthen, if_neg helse], rest, hrest⟩

/-- **A step over a scope.** The scope is read, and the rest from where the reading has got to. -/
theorem ReadsOn.scope {reach : Reach} {inside ps : List Piece}
    (h : ReadsOn limit depth reach (.scope inside :: ps)) :
    reach ≠ .predicate ∧ (∃ n : Node Empty, ofScope limit (depth + 1) inside = .ok n) ∧
      ReadsOn limit depth reach ps := by
  cases reach with
  | start =>
      obtain ⟨t', rest, heq, -⟩ := h
      cases heq
  | plain =>
      obtain ⟨ns, hread⟩ := h
      obtain ⟨n, rest, hn, hrest, -⟩ := (sequenceOf_cons_iff ..).mp hread
      exact ⟨by simp, ⟨n, hn⟩, rest, hrest⟩
  | predicate =>
      obtain ⟨clauses, hread⟩ := h
      rw [predicateOf] at hread
      cases hread
  | thenClause =>
      obtain ⟨⟨ts, es⟩, hread⟩ := h
      have hword : Piece.scope inside ≠ .word Keyword.elseWord.text := by simp
      obtain ⟨n, rest, hn, hrest, -⟩ := (thenClauseOf_cons_iff _ _ hword ..).mp hread
      exact ⟨by simp, ⟨n, hn⟩, _, hrest⟩
  | elseClause =>
      obtain ⟨ns, hread⟩ := h
      obtain ⟨n, rest, hn, hrest, -⟩ := (elseClauseOf_cons_iff ..).mp hread
      exact ⟨by simp, ⟨n, hn⟩, rest, hrest⟩

/-- The run through the pieces of a scope, given what the scopes in them need. -/
theorem readingCallsFrom_eq {reach : Reach} {ps : List Piece}
    (hps : ∀ inside, .scope inside ∈ ps → ∀ n : Node Empty,
      ofScope limit (depth + 1) inside = .ok n →
        readingCalls limit (depth + 1) (.scope inside) = Piece.fullCalls (.scope inside))
    (h : ReadsOn limit depth reach ps) :
    readingCallsFrom limit depth reach ps = Piece.fullCallsAll ps := by
  induction ps generalizing reach with
  | nil => rw [readingCallsFrom, Piece.fullCallsAll]
  | cons p ps ih =>
      have hrest : ∀ {reach'}, ReadsOn limit depth reach' ps →
          readingCallsFrom limit depth reach' ps = Piece.fullCallsAll ps :=
        fun h => ih (fun inside hmem => hps inside (List.mem_cons_of_mem _ hmem)) h
      cases p with
      | word t =>
          obtain ⟨reach', hreach, hreads⟩ := h.word
          simp only [readingCallsFrom, hreach, hrest hreads, Piece.fullCallsAll_word_cons]
      | scope inside =>
          obtain ⟨hreach, ⟨n, hn⟩, hreads⟩ := h.scope
          have hscope := hps inside (List.mem_cons_self ..) n hn
          rw [ofScope] at hn
          rw [readingCallsFrom, if_neg hreach, Piece.fullCallsAll]
          simp only [hn, hscope, hrest hreads]

/-- **A reading that succeeds** nests its calls as deeply as its pieces are read to their ends. -/
theorem readingCalls_scope {ps : List Piece} {n : Node Empty} (h : ofScope limit depth ps = .ok n) :
    readingCalls limit depth (.scope ps) = Piece.fullCalls (.scope ps) := by
  induction ps using Piece.scope_induction generalizing depth n with
  | scope ps ih =>
      obtain ⟨hdepth, ⟨hplain, ns, hread, -⟩ | ⟨hcond, predicate, ts, es, hread, -⟩⟩ :=
        (ofScope_eq_ok_cases ..).mp h
      · have hreads : ReadsOn limit depth .plain ps := ⟨ns, hread⟩
        have hcalls := readingCallsFrom_eq (fun inside hmem n hn => ih inside hmem hn) hreads
        simp only [readingCalls, if_neg (Int.not_lt.mpr hdepth), hplain, Piece.fullCalls, hcalls]
        rfl
      · have hreads : ReadsOn limit depth .start ps := by
          obtain ⟨t, rest, rfl, -, -⟩ := (isConditional_eq_true_iff ps).mp hcond
          exact ⟨_, _, rfl, _, hread⟩
        have hcalls := readingCallsFrom_eq (fun inside hmem n hn => ih inside hmem hn) hreads
        simp only [readingCalls, if_neg (Int.not_lt.mpr hdepth), hcond, Piece.fullCalls, hcalls]
        rfl

/-! ## Substitution -/

variable {Foreign : Type}

/-- The calls of a substitution in a conditional, by what stops it. -/
theorem substitutionCalls_conditional (table : Lookup) (predicate : List Text) (a : Node Foreign)
    (b : Option (Node Foreign)) :
    (Node.conditional predicate a b).substitutionCalls table =
      (if (substitutePredicate table predicate : Substituted (List Text) Foreign).2.isSome then
          predicateCalls table predicate
        else
          max (predicateCalls table predicate)
            (if (a.stop? table).isSome then a.substitutionCalls table
            else max (a.substitutionCalls table) (elseSubstitutionCalls table b))) + 1 := by
  rw [← substitute_snd, substitutionCalls]
  rcases (substitutePredicate table predicate : Substituted (List Text) Foreign) with ⟨q', _ | e⟩
  · rcases a.substitute table with ⟨a', _ | e⟩ <;> rfl
  · rfl

/-- The calls of a substitution in trees one after another, by what stops it. -/
theorem substitutionCallsAll_cons (table : Lookup) (n : Node Foreign) (ns : List (Node Foreign)) :
    substitutionCallsAll table (n :: ns) =
      if (n.stop? table).isSome then n.substitutionCalls table
      else max (n.substitutionCalls table) (substitutionCallsAll table ns) := by
  rw [← substitute_snd, substitutionCallsAll]
  rcases n.substitute table with ⟨n', _ | e⟩ <;> rfl

theorem substitutionCallsAll_append {table : Lookup} {xs : List (Node Foreign)}
    (h : (substituteAll table xs).2 = none) (ys : List (Node Foreign)) :
    substitutionCallsAll table (xs ++ ys) =
      max (substitutionCallsAll table xs) (substitutionCallsAll table ys) := by
  induction xs with
  | nil => simp [substitutionCallsAll]
  | cons n ns ih =>
      rw [substituteAll_cons_snd, Option.or_eq_none_iff] at h
      have hstop : n.stop? table = none := (substitute_snd table n).symm.trans h.1
      simp only [List.cons_append, substitutionCallsAll_cons, hstop, ih h.2, Option.isSome_none,
        Bool.false_eq_true, if_false, Nat.max_assoc]

theorem predicateCalls_le {table : Lookup} {c : Nat} {predicate : List Text}
    (h : ∀ w ∈ predicate, (table.resolve w).calls ≤ c) :
    predicateCalls table predicate ≤ c + 1 := by
  match predicate with
  | [] => exact Nat.le_add_left _ _
  | [w] => exact Nat.succ_le_succ (h w (List.mem_cons_self ..))
  | v :: w :: ws => exact Nat.le_add_left _ _

theorem height_pos (n : Node Foreign) : 0 < n.height := by
  cases n <;> simp [height]

/-- **The calls of a substitution** are at most those for the nodes on a way down the tree and those
for the value of a word. -/
theorem substitutionCalls_le {table : Lookup} {c : Nat} {n : Node Foreign}
    (h : ∀ w ∈ n.words, (table.resolve w).calls ≤ c) :
    n.substitutionCalls table ≤ n.height + c := by
  unfold words at h
  induction n using parts_induction
    (fun b => (∀ w ∈ (elseNodes b).flatMap ownWords, (table.resolve w).calls ≤ c) →
      elseSubstitutionCalls table b ≤ elseHeight b + c)
    (fun ns => (∀ w ∈ (nodesAll ns).flatMap ownWords, (table.resolve w).calls ≤ c) →
      substitutionCallsAll table ns ≤ heightAll ns + c) with
  | literal t =>
      have hle := h t (by simp [nodes, ownWords])
      rw [substitutionCalls, height]
      omega
  | conditional predicate a b iha ihb =>
      rw [nodes, List.flatMap_cons, List.flatMap_append, ownWords, List.forall_mem_append,
        List.forall_mem_append] at h
      obtain ⟨hq, ha, hb⟩ := h
      have hpredicate := predicateCalls_le hq
      have hpos := a.height_pos
      have hthen := iha ha
      have helse := ihb hb
      rw [substitutionCalls_conditional, height]
      split
      · omega
      · split <;> omega
  | sequence children ih =>
      have hle := ih h
      rw [substitutionCalls, height]
      omega
  | foreign x =>
      rw [substitutionCalls, height]
      omega
  | none => exact Nat.zero_le _
  | some n ih h => exact ih h
  | nil => exact Nat.zero_le _
  | cons n ns ihn ihns h =>
      rw [nodesAll, List.flatMap_append, List.forall_mem_append] at h
      have hn := ihn h.1
      have hns := ihns h.2
      rw [substitutionCallsAll_cons, heightAll]
      split <;> omega

/-- **A substitution that succeeds** makes a call for each node on every way down the tree. -/
theorem height_le_substitutionCalls (table : Lookup) {n : Node Foreign}
    (h : (n.substitute table).2 = none) : n.height ≤ n.substitutionCalls table := by
  induction n using parts_induction
    (fun b => (substituteOption table b).2 = none →
      elseHeight b ≤ elseSubstitutionCalls table b)
    (fun ns => (substituteAll table ns).2 = none →
      heightAll ns ≤ substitutionCallsAll table ns) with
  | literal t =>
      rw [height, substitutionCalls]
      omega
  | conditional predicate a b iha ihb =>
      rw [substitute_conditional_snd, Option.or_eq_none_iff, Option.or_eq_none_iff] at h
      obtain ⟨hq, ha, hb⟩ := h
      have hle := iha ha
      have hle' := ihb hb
      rw [substitute_snd] at ha
      simp only [substitutionCalls_conditional, hq, ha, height, Option.isSome_none,
        Bool.false_eq_true, if_false]
      omega
  | sequence children ih =>
      have hle := ih h
      rw [height, substitutionCalls]
      omega
  | foreign x => cases h
  | none => exact Nat.le_refl 0
  | some n ih h => exact ih h
  | nil => exact Nat.le_refl 0
  | cons n ns ihn ihns h =>
      rw [substituteAll_cons_snd, Option.or_eq_none_iff] at h
      have hle := ihn h.1
      have hle' := ihns h.2
      have hstop : n.stop? table = none := (substitute_snd table n).symm.trans h.1
      simp only [substitutionCallsAll_cons, hstop, heightAll, Option.isSome_none,
        Bool.false_eq_true, if_false]
      omega

end Node

end SqlTemplate
