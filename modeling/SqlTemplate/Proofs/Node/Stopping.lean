import SqlTemplate.Proofs.Node.Interpretation

set_option autoImplicit false

/-! # Where a substitution stops

A substitution that fails has changed a part of the tree. The nodes of a tree are listed in the
order of the template (`Node.nodes`), and in this list the failure has a place. It is a conditional
whose predicate is refused, with its branches as they were and with its predicate left as `Refused`
says, or it is a node with a word whose value has no text (`Node.Stops`). In front of it stand nodes
whose words are all replaced and whose predicates are all truth values, so it is the first node of
its kind, and behind it stand nodes that nothing has happened to. The relation between the two lists
of nodes is `Node.StopsAmong`, and the main statement is `Node.substitute_stops_at_first`.

The proof goes through the tree as substitution does. Parts that were gone through without an error
are put in front of the place of the failure (`Node.StopsAmong.append_left`), and parts that were
not reached are put behind it (`Node.StopsAmong.append_right`).
-/

namespace SqlTemplate

/-- Why a predicate is refused and which words it is left with. A single word is replaced when it is
a key, even by a text that is no word for true or false. With any other number of words the
predicate stays as it is. -/
inductive Refused (table : Lookup) : List Text → PredicateError → List Text → Prop where
  | empty : Refused table [] .empty []
  | several (v w : Text) (ws : List Text) :
      Refused table (v :: w :: ws) (.several (v :: w :: ws)) (v :: w :: ws)
  | value {w t : Text} {v : Value} (hkey : table.find? w = some v) (htext : v.format = .ok t)
      (hfalse : t.truth? = none) : Refused table [w] (.notTruth t) [t]
  | word {w : Text} (hkey : table.find? w = none) (hfalse : w.truth? = none) :
      Refused table [w] (.notTruth w) [w]

/-- Whatever becomes of a predicate, it keeps its number of words. -/
theorem length_substitutePredicate {Foreign : Type} (table : Lookup) (predicate : List Text) :
    (substitutePredicate table predicate : Substituted (List Text) Foreign).1.length =
      predicate.length := by
  match predicate with
  | [] => rfl
  | [w] =>
      simp only [substitutePredicate]
      split <;> rfl
  | v :: w :: ws => rfl

namespace Node

variable {Foreign : Type}

/-! ## Before and at the place of the failure -/

/-- Whether the predicates of all conditionals among some nodes are truth values, all values that
the words of these nodes stand for have a text, and other nodes have these words, each replaced. -/
structure Replaced (table : Lookup) (old new : List (Node Empty)) : Prop where
  truths : ∀ q a b, .conditional q a b ∈ old → (table.truthOf? q).isSome
  texts : ∀ n ∈ old, ∀ w ∈ n.ownWords, ∀ v, table.find? w = some v → ∃ t, v.format = .ok t
  words : new.map ownWords = old.map fun n => n.ownWords.map table.replace

/-- Whether a substitution stops at a node with an error, and what it leaves in its place. Words
whose values have no text stay, and so does everything in the branches of a conditional. -/
inductive Stops (table : Lookup) : Node Empty → SubstitutionError Empty → Node Empty → Prop where
  | refused {q left : List Text} {reason : PredicateError} (h : Refused table q reason left)
      (a : Node Empty) (b : Option (Node Empty)) :
      Stops table (.conditional q a b) (.predicate reason) (.conditional left a b)
  | predicate {w : Text} {v : Value} {fault : FormatFault} (hkey : table.find? w = some v)
      (hfault : v.format = .error fault) (a : Node Empty) (b : Option (Node Empty)) :
      Stops table (.conditional [w] a b) (.noText fault) (.conditional [w] a b)
  | literal {w : Text} {v : Value} {fault : FormatFault} (hkey : table.find? w = some v)
      (hfault : v.format = .error fault) : Stops table (.literal w) (.noText fault) (.literal w)

/-- Whether nodes in the order of the template have become other nodes in a substitution that
stopped among them: at one of them, behind nodes that are replaced, and in front of nodes that are
as they were, those in the branches of a conditional first. -/
inductive StopsAmong (table : Lookup) (e : SubstitutionError Empty) :
    List (Node Empty) → List (Node Empty) → Prop where
  | stop {before changed after : List (Node Empty)} {n n' : Node Empty}
      (hbefore : Replaced table before changed) (hstop : Stops table n e n') :
      StopsAmong table e (before ++ n :: after) (changed ++ n' :: after)

/-- **A predicate that is not accepted** stops the substitution at its conditional. -/
theorem stops_of_substitutePredicate {table : Lookup} {q left : List Text}
    {e : SubstitutionError Empty} (h : substitutePredicate table q = (left, some e))
    (a : Node Empty) (b : Option (Node Empty)) :
    Stops table (.conditional q a b) e (.conditional left a b) := by
  match q with
  | [] =>
      cases h
      exact .refused .empty a b
  | v :: w :: ws =>
      cases h
      exact .refused (.several v w ws) a b
  | [w] =>
      simp only [substitutePredicate] at h
      cases hfault : table.fault? w with
      | some fault =>
          obtain ⟨⟨v, hkey, hformat⟩, hreplace⟩ := Lookup.exists_of_fault? hfault
          rw [hfault, hreplace] at h
          cases h
          exact .predicate hkey hformat a b
      | none =>
          rw [hfault] at h
          simp only [Prod.mk.injEq] at h
          obtain ⟨rfl, h⟩ := h
          split at h
          · cases h
          · rename_i hfalse
            cases h
            have hfalse : (table.replace w).truth? = none := by simpa using hfalse
            cases hkey : table.find? w with
            | some v =>
                obtain ⟨t, ht⟩ := (Lookup.fault?_eq_none_iff table w).mp hfault
                rw [Lookup.replace_of_ok ht] at hfalse ⊢
                rw [Lookup.resolve_of_find? hkey] at ht
                exact .refused (.value hkey ht hfalse) a b
            | none =>
                have hreplace : table.replace w = w :=
                  Lookup.replace_of_ok (by rw [Lookup.resolve_of_find?_eq_none hkey]; rfl)
                rw [hreplace] at hfalse ⊢
                exact .refused (.word hkey hfalse) a b

theorem replaced_nil (table : Lookup) : Replaced table [] [] := ⟨by simp, by simp, rfl⟩

theorem Replaced.append {table : Lookup} {old new old' new' : List (Node Empty)}
    (h : Replaced table old new) (h' : Replaced table old' new') :
    Replaced table (old ++ old') (new ++ new') := by
  refine ⟨fun q a b hmem => ?_, List.forall_mem_append.mpr ⟨h.texts, h'.texts⟩, ?_⟩
  · rcases List.mem_append.mp hmem with hmem | hmem
    · exact h.truths q a b hmem
    · exact h'.truths q a b hmem
  · rw [List.map_append, List.map_append, h.words, h'.words]

theorem StopsAmong.append_left {table : Lookup} {e : SubstitutionError Empty}
    {old new front front' : List (Node Empty)} (hfront : Replaced table front front')
    (h : StopsAmong table e old new) : StopsAmong table e (front ++ old) (front' ++ new) := by
  cases h with
  | stop hbefore hstop =>
      rw [← List.append_assoc, ← List.append_assoc]
      exact .stop (hfront.append hbefore) hstop

theorem StopsAmong.append_right {table : Lookup} {e : SubstitutionError Empty}
    {old new : List (Node Empty)} (h : StopsAmong table e old new) (behind : List (Node Empty)) :
    StopsAmong table e (old ++ behind) (new ++ behind) := by
  cases h with
  | stop hbefore hstop =>
      rw [List.append_assoc, List.append_assoc]
      exact .stop hbefore hstop

/-- A tree that substitution goes through without an error is replaced. -/
theorem replaced_nodes {table : Lookup} {n : Node Empty} (h : (n.substitute table).2 = none) :
    Replaced table n.nodes (n.substitute table).1.nodes := by
  obtain ⟨htruths, htexts⟩ := (substitute_snd_eq_none_iff table n).mp h
  refine ⟨fun q a b hmem => ?_, fun m hm w hw => ?_, ?_⟩
  · exact htruths q ((mem_predicates_iff q n).mpr ⟨a, b, hmem⟩)
  · exact (Lookup.fault?_eq_none_iff_of_find? table w).mp
      (htexts w (List.mem_flatMap.mpr ⟨m, hm, hw⟩))
  · rw [substitute_fst table h, nodes_mapWords, List.map_map]
    exact List.map_congr_left fun m _ => ownWords_mapWords table.replace m

/-- The node of a sequence is replaced whatever becomes of its children. -/
theorem replaced_sequence (table : Lookup) (children children' : List (Node Empty)) :
    Replaced table [.sequence children] [.sequence children'] :=
  ⟨by simp, by simp [ownWords], rfl⟩

/-- The node of a conditional is replaced with its predicate. -/
theorem replaced_conditional {table : Lookup} {q left : List Text}
    (h : (substitutePredicate table q : Substituted (List Text) Empty) = (left, none))
    (a a' : Node Empty) (b b' : Option (Node Empty)) :
    Replaced table [.conditional q a b] [.conditional left a' b'] := by
  have hnone : (substitutePredicate table q : Substituted (List Text) Empty).2 = none := by rw [h]
  have hwords := substitutePredicate_fst table hnone
  obtain ⟨htruth, htexts⟩ := (substitutePredicate_snd_eq_none_iff table q).mp hnone
  rw [h] at hwords
  refine ⟨fun q' a b hmem => ?_, List.forall_mem_singleton.mpr fun w hw => ?_, ?_⟩
  · obtain ⟨rfl, -, -⟩ : q' = q ∧ _ := by simpa using hmem
    exact htruth
  · exact (Lookup.fault?_eq_none_iff_of_find? table w).mp (htexts w hw)
  · simpa [ownWords] using hwords

/-! ## The place of the failure -/

/-- **One step of a substitution** in a conditional. -/
theorem stopsAmong_conditional {table : Lookup} {e : SubstitutionError Empty} {q : List Text}
    {a : Node Empty} {b : Option (Node Empty)}
    (ha : (a.substitute table).2 = some e →
      StopsAmong table e a.nodes (a.substitute table).1.nodes)
    (hb : (substituteOption table b).2 = some e →
      StopsAmong table e (elseNodes b) (elseNodes (substituteOption table b).1))
    (h : ((Node.conditional q a b).substitute table).2 = some e) :
    StopsAmong table e (Node.conditional q a b).nodes
      ((Node.conditional q a b).substitute table).1.nodes := by
  simp only [substitute] at h ⊢
  rcases hq : (substitutePredicate table q : Substituted (List Text) Empty) with ⟨left, _ | e'⟩
  · simp only [hq] at h ⊢
    have hhead := replaced_conditional hq a
    have hthen : (a.substitute table).2 = none →
        Replaced table a.nodes (a.substitute table).1.nodes := replaced_nodes
    generalize a.substitute table = outcome at h ha hthen ⊢
    obtain ⟨a', _ | e'⟩ := outcome
    · -- the then branch is gone through, and the else branch fails
      exact ((hb h).append_left (hthen rfl)).append_left (hhead a' b _)
    · exact ((ha h).append_right (elseNodes b)).append_left (hhead a' b b)
  · simp only [hq] at h ⊢
    obtain rfl := Option.some.inj h
    exact .stop (replaced_nil table) (stops_of_substitutePredicate hq a b)

/-- **One step of a substitution** in trees one after another. -/
theorem stopsAmong_cons {table : Lookup} {e : SubstitutionError Empty} {n : Node Empty}
    {ns : List (Node Empty)}
    (hn : (n.substitute table).2 = some e →
      StopsAmong table e n.nodes (n.substitute table).1.nodes)
    (hns : (substituteAll table ns).2 = some e →
      StopsAmong table e (nodesAll ns) (nodesAll (substituteAll table ns).1))
    (h : (substituteAll table (n :: ns)).2 = some e) :
    StopsAmong table e (nodesAll (n :: ns)) (nodesAll (substituteAll table (n :: ns)).1) := by
  have hfront : (n.substitute table).2 = none →
      Replaced table n.nodes (n.substitute table).1.nodes := replaced_nodes
  simp only [substituteAll] at h ⊢
  generalize n.substitute table = outcome at h hn hfront ⊢
  obtain ⟨n', _ | e'⟩ := outcome
  · exact (hns h).append_left (hfront rfl)
  · exact (hn h).append_right (nodesAll ns)

/-- A literal stops a substitution when its value has no text. -/
theorem stopsAmong_literal {table : Lookup} {e : SubstitutionError Empty} {t : Text}
    (h : ((Node.literal t : Node Empty).substitute table).2 = some e) :
    StopsAmong table e (Node.literal t : Node Empty).nodes
      ((Node.literal t : Node Empty).substitute table).1.nodes := by
  rw [substitute, Option.map_eq_some_iff] at h
  obtain ⟨fault, hfault, rfl⟩ := h
  obtain ⟨⟨v, hkey, hformat⟩, hreplace⟩ := Lookup.exists_of_fault? hfault
  rw [substitute, hreplace]
  exact .stop (replaced_nil table) (.literal hkey hformat)

theorem stopsAmong_nodes {table : Lookup} {e : SubstitutionError Empty} {n : Node Empty}
    (h : (n.substitute table).2 = some e) :
    StopsAmong table e n.nodes (n.substitute table).1.nodes := by
  induction n using parts_induction
    (fun b => (substituteOption table b).2 = some e →
      StopsAmong table e (elseNodes b) (elseNodes (substituteOption table b).1))
    (fun ns => (substituteAll table ns).2 = some e →
      StopsAmong table e (nodesAll ns) (nodesAll (substituteAll table ns).1)) with
  | literal t => exact stopsAmong_literal h
  | conditional predicate a b iha ihb => exact stopsAmong_conditional iha ihb h
  | sequence children ih => exact (ih h).append_left (replaced_sequence table children _)
  | foreign x => exact x.elim
  | none h => cases h
  | some n ih h => exact ih h
  | nil h => cases h
  | cons n ns ihn ihns h => exact stopsAmong_cons ihn ihns h

/-! ## The shape -/

/-- Substitution changes words only, also when it fails. -/
theorem sameShape_substitute (table : Lookup) (n : Node Foreign) :
    (n.substitute table).1.SameShape n := by
  unfold SameShape
  induction n using parts_induction
    (fun b => mapElseWords (fun _ => []) (substituteOption table b).1 =
      mapElseWords (fun _ => []) b)
    (fun ns => mapAllWords (fun _ => []) (substituteAll table ns).1 =
      mapAllWords (fun _ => []) ns) with
  | literal t => rfl
  | conditional predicate a b iha ihb =>
      have hq : (substitutePredicate table predicate : Substituted (List Text) Foreign).1.map
          (fun _ => ([] : Text)) = predicate.map fun _ => [] := by
        rw [List.map_const', List.map_const', length_substitutePredicate]
      simp only [substitute]
      generalize (substitutePredicate table predicate :
        Substituted (List Text) Foreign) = outcome at hq ⊢
      obtain ⟨p, _ | e⟩ := outcome
      · generalize a.substitute table = outcome at iha ⊢
        obtain ⟨a', _ | e⟩ := outcome
        · simp only [mapWords, hq, iha, ihb]
        · simp only [mapWords, hq, iha]
      · simp only [mapWords, hq]
  | sequence children ih => exact congrArg sequence ih
  | foreign x => rfl
  | none => rfl
  | some n ih => exact congrArg some ih
  | nil => rfl
  | cons n ns ihn ihns =>
      simp only [substituteAll]
      generalize n.substitute table = outcome at ihn ⊢
      obtain ⟨n', _ | e⟩ := outcome
      · simp only [mapAllWords, ihn, ihns]
      · simp only [mapAllWords, ihn]

/-- **What a failed substitution leaves behind.** It has stopped, in the order of the template, at
the first conditional whose predicate is no truth value or the first word whose value has no text,
and the error says which of the two it was and why. Every word in front of that node is replaced, a
predicate that is refused is replaced if it is a key, the branches of that conditional and
everything behind it are as they were, and the tree has kept its shape. -/
theorem substitute_stops_at_first (table : Lookup) (n : Node Empty) {e : SubstitutionError Empty}
    (h : (n.substitute table).2 = some e) :
    StopsAmong table e n.nodes (n.substitute table).1.nodes ∧
      (n.substitute table).1.SameShape n :=
  ⟨stopsAmong_nodes h, sameShape_substitute table n⟩

/-- The value of `.y` is no truth value, and it stays in the place of `.y`. The word `.x` is
replaced in front of this predicate only. -/
theorem substitute_stops_at_first_of_nested :
    let n (x c y : Text) : Node Empty := .sequence [.literal x,
      .conditional [c] (.sequence [.conditional [y] (.literal ".x".toList)
        (some (.literal ".x".toList))]) none, .literal ".x".toList]
    let table : Lookup := [(".c".toList, .bool true), (".x".toList, .int 1),
      (".y".toList, .text "maybe".toList)]
    let old := n ".x".toList ".c".toList ".y".toList
    let new := n "1".toList "true".toList "maybe".toList
    old.substitute table = (new, some (.predicate (.notTruth "maybe".toList))) ∧
      StopsAmong table (.predicate (.notTruth "maybe".toList)) old.nodes new.nodes ∧
      new.SameShape old := by
  intro n table old new
  have hfails : (old.substitute table).2 = some (.predicate (.notTruth "maybe".toList)) := rfl
  obtain ⟨hstops, hshape⟩ := substitute_stops_at_first table old hfails
  exact ⟨rfl, hstops, hshape⟩

/-- The value of `.x` has no text. The predicate behind it is no truth value, but the error is not
about this predicate. -/
theorem substitute_stops_before_predicate :
    let n : Node Empty :=
      .sequence [.literal ".x".toList, .conditional ["maybe".toList] (.sequence []) none]
    let table : Lookup := [(".x".toList, .int (10 ^ 5000))]
    Refused table ["maybe".toList] (.notTruth "maybe".toList) ["maybe".toList] ∧
      n.substitute table = (n, some (.noText .tooManyDigits)) := by
  intro n table
  have hfault : table.fault? ".x".toList = some .tooManyDigits :=
    (Lookup.fault?_eq_some_iff ..).mpr (Value.format_pow_eq_error (by decide))
  have hreplace := (Lookup.exists_of_fault? hfault).2
  refine ⟨.word rfl rfl, ?_⟩
  simp only [n, substitute, substituteAll, hfault, hreplace, Option.map_some]

end Node

end SqlTemplate
