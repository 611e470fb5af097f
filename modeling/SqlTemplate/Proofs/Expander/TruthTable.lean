import SqlTemplate.Proofs.Expander.Stages
import SqlTemplate.Proofs.Value.Truth

set_option autoImplicit false

/-! # Choosing between two clauses

The template `Expander.choice q a b` is one conditional with the predicate `q` and with the words
`a` and `b` in its clauses. Expanded with a value for `q` that can be written, it gives the text of
the one clause when the value stands for true, that of the other one when it stands for false, and
an error for every other value (`Expander.apply_choice_iff`). The clauses may have the predicate in
them as well, and one of them or both may be empty.
-/

namespace SqlTemplate

/-- Whether a text can be a word of a clause that is text there. -/
structure IsClauseText (w : Text) : Prop where
  isWord : Text.IsWord w
  notDelimiter : ¬ IsDelimiter w
  startsNoClause : w ∉ Node.clauseWords

instance (w : Text) : Decidable (IsClauseText w) :=
  decidable_of_iff (Text.IsWord w ∧ ¬ IsDelimiter w ∧ w ∉ Node.clauseWords)
    ⟨fun ⟨hw, hd, hc⟩ => ⟨hw, hd, hc⟩, fun h => ⟨h.isWord, h.notDelimiter, h.startsNoClause⟩⟩

/-! ## Words as nodes -/

namespace Node

variable {Foreign : Type}

theorem piecesAll_map_literal (ws : List Text) :
    piecesAll (ws.map literal : List (Node Foreign)) = ws.map .word := by
  induction ws with
  | nil => simp
  | cons w ws ih => simp [ih]

theorem nestingAll_map_literal (ws : List Text) :
    nestingAll (ws.map literal : List (Node Foreign)) = 0 := by
  induction ws with
  | nil => simp
  | cons w ws ih => simp [ih]

theorem areItems_map_literal {barred ws : List Text} (h : ∀ w ∈ ws, w ∉ barred) :
    AreItems barred (ws.map literal : List (Node Foreign)) := by
  induction ws with
  | nil => trivial
  | cons w ws ih =>
      rw [List.forall_mem_cons] at h
      exact ⟨h.1, ih h.2⟩

theorem predicatesAll_map_literal (ws : List Text) :
    predicatesAll (ws.map literal : List (Node Foreign)) = [] := by
  induction ws with
  | nil => rfl
  | cons w ws ih => rw [List.map_cons, predicatesAll, ih, predicates, List.append_nil]

theorem reachedAll_map_literal (takes : List Text → Bool) (ws : List Text) :
    reachedAll takes (ws.map literal : List (Node Foreign)) = ws := by
  induction ws with
  | nil => rfl
  | cons w ws ih => rw [List.map_cons, reachedAll, ih, reached, List.singleton_append]

theorem heightAll_map_literal_le (ws : List Text) :
    heightAll (ws.map literal : List (Node Foreign)) ≤ 1 := by
  induction ws with
  | nil => exact Nat.zero_le 1
  | cons w ws ih =>
      rw [List.map_cons, heightAll, height]
      exact Nat.max_le.mpr ⟨Nat.le_refl 1, ih⟩

end Node

namespace Expander

variable {q : Text} {a b : List Text}

/-! ## The template and its tree -/

/-- The words of the template with one conditional. -/
def choiceWords (q : Text) (a b : List Text) : List Text :=
  [Keyword.scopeOpen.text, Keyword.ifWord.text, q, Keyword.thenWord.text] ++ a ++
    [Keyword.elseWord.text] ++ b ++ [Keyword.scopeClose.text]

/-- The template with one conditional: its predicate and the words in its clauses. -/
def choice (q : Text) (a b : List Text) : Text := Text.unwords (choiceWords q a b)

/-- The tree of the template with one conditional. -/
def choiceTree (q : Text) (a b : List Text) : Node Empty :=
  .sequence [.ofClauses [q] (a.map .literal) (some (b.map .literal))]

theorem pieces_choiceTree (q : Text) (a b : List Text) :
    (choiceTree q a b).pieces =
      [.scope (([Keyword.ifWord.text, q, Keyword.thenWord.text] ++ a ++
        [Keyword.elseWord.text] ++ b).map .word)] := by
  have hpieces := Node.pieces_ofClauses [q] (a.map (.literal : Text → Node Empty))
    (some (b.map .literal))
  rw [Node.ofClauses, Node.pieces_sequence] at hpieces
  rw [choiceTree, Node.ofClauses, Node.pieces_sequence, Node.piecesAll_sequence, hpieces]
  simp [Node.elsePieces, Node.piecesAll_map_literal]

theorem words_pieces_choiceTree (q : Text) (a b : List Text) :
    Piece.words (choiceTree q a b).pieces = choiceWords q a b := by
  rw [pieces_choiceTree, Piece.words_scope_cons, Piece.words, Piece.wordsAll_map_word]
  simp [choiceWords]

theorem wellFormed_choiceTree (hq : Keyword.isReserved q = false) (ha : ∀ w ∈ a, IsClauseText w)
    (hb : ∀ w ∈ b, IsClauseText w) : (choiceTree q a b).WellFormed := by
  have hpredicate : Node.IsPredicate [q] := by
    refine ⟨⟨q, [], rfl, hq⟩, ?_⟩
    simp [Node.clauseWords, ne_of_not_isReserved hq]
  exact ⟨⟨rfl, hpredicate, Node.areItems_map_literal fun w hw => (ha w hw).startsNoClause,
    Node.areItems_map_literal fun w hw => (hb w hw).startsNoClause⟩, trivial⟩

theorem nesting_choiceTree (q : Text) (a b : List Text) : (choiceTree q a b).nesting = 1 := by
  simp [choiceTree, Node.ofClauses, Node.nestingAll, Node.nesting, Node.elseNesting,
    Node.nestingAll_map_literal]

theorem height_choiceTree_le (q : Text) (a b : List Text) : (choiceTree q a b).height ≤ 5 := by
  have ha := @Node.heightAll_map_literal_le Empty a
  have hb := @Node.heightAll_map_literal_le Empty b
  simp only [choiceTree, Node.ofClauses, Option.map_some, Node.height, Node.heightAll,
    Node.elseHeight]
  omega

/-- Three calls read the template, one for each scope and one for the conditional. -/
theorem fullCalls_choiceTree_le (q : Text) (a b : List Text) :
    Piece.fullCalls (.scope (choiceTree q a b).pieces) ≤ 3 := by
  have hwords : ∀ ws : List Text, Piece.fullCallsAll (ws.map .word) = 0 := by
    intro ws
    induction ws with
    | nil => rfl
    | cons w ws ih => rw [List.map_cons, Piece.fullCallsAll_word_cons, ih]
  have hroot : ∀ ps : List Piece, isConditional [.scope ps] = .ok false := fun _ => rfl
  simp only [pieces_choiceTree, Piece.fullCalls, Piece.fullCallsAll, hwords, hroot]
  split <;> decide

theorem legible_pieces_choiceTree (hword : Text.IsWord q) (hq : Keyword.isReserved q = false)
    (ha : ∀ w ∈ a, IsClauseText w) (hb : ∀ w ∈ b, IsClauseText w) :
    Piece.Legible (choiceTree q a b).pieces := by
  have hdelimiter : ¬ IsDelimiter q := fun h =>
    h.elim (ne_of_not_isReserved hq .scopeOpen) (ne_of_not_isReserved hq .scopeClose)
  rw [pieces_choiceTree, Piece.legible_scope_cons_iff]
  refine ⟨?_, by simp [Piece.Legible]⟩
  rw [Piece.Legible, Piece.plainWords, Piece.wordsAll_map_word]
  intro w hw
  simp only [List.mem_append, List.mem_cons, List.not_mem_nil, or_false] at hw
  rcases hw with (((rfl | rfl | rfl) | hw) | rfl) | hw
  · exact ⟨Text.isWord_keyword .ifWord, by decide⟩
  · exact ⟨hword, hdelimiter⟩
  · exact ⟨Text.isWord_keyword .thenWord, by decide⟩
  · exact ⟨(ha w hw).isWord, (ha w hw).notDelimiter⟩
  · exact ⟨Text.isWord_keyword .elseWord, by decide⟩
  · exact ⟨(hb w hw).isWord, (hb w hw).notDelimiter⟩

/-- Every expander with room for a nested scope reads the template. -/
theorem build_choice {p : Expander} (hdepth : 1 ≤ p.maxDepth) (hroom : 3 ≤ p.room)
    (hword : Text.IsWord q)
    (hq : Keyword.isReserved q = false) (ha : ∀ w ∈ a, IsClauseText w)
    (hb : ∀ w ∈ b, IsClauseText w) : p.build (choice q a b) = .ok (choiceTree q a b) := by
  have hlegible := legible_pieces_choiceTree hword hq ha hb
  have hwords : (choice q a b).words = Piece.words (choiceTree q a b).pieces := by
    rw [choice, ← words_pieces_choiceTree, Text.words_unwords hlegible.isWord]
  rw [build_of_words p hlegible.undelimited hwords, Node.readsExactly]
  refine ⟨⟨wellFormed_choiceTree hq ha hb, rfl, ?_⟩, ?_⟩
  · rw [nesting_choiceTree]
    omega
  · exact Nat.le_trans (fullCalls_choiceTree_le q a b) hroom

/-! ## The truth table -/

/-- The predicate is the only one in the tree. -/
theorem predicates_choiceTree (q : Text) (a b : List Text) :
    (choiceTree q a b).predicates = [[q]] := by
  simp [choiceTree, Node.ofClauses, Node.predicates, Node.predicatesAll, Node.elsePredicates,
    Node.predicatesAll_map_literal]

theorem reached_choiceTree (takes : List Text → Bool) (q : Text) (a b : List Text) :
    (choiceTree q a b).reached takes = if takes [q] then a else b := by
  simp [choiceTree, Node.ofClauses, Node.reached, Node.reachedAll, Node.reachedElse,
    Node.reachedAll_map_literal]

/-- With a lookup table, what replaces the predicate selects the clause, if every word can be
replaced and there is room for it. -/
theorem applyTable_choice {p : Expander}
    (hbuild : p.build (choice q a b) = .ok (choiceTree q a b)) {table : Lookup}
    (hfaults : ∀ w, table.fault? w = none)
    (hroom : (choiceTree q a b).substitutionCalls table ≤ p.room) :
    p.applyTable (choice q a b) table =
      match (table.replace q).truth? with
      | some flag => .ok (Text.spaced ((if flag then a else b).map table.replace))
      | none => .error (.stage (.predicate (.notTruth (table.replace q)))) := by
  rw [applyTable_of_build hbuild, if_neg (Nat.not_lt.mpr hroom), reached_choiceTree]
  rcases Option.eq_none_or_eq_some (table.replace q).truth? with hflag | ⟨flag, hflag⟩
  · have hpredicate : (substitutePredicate table [q] : Substituted (List Text) Empty).2 =
        some (.predicate (.notTruth (table.replace q))) := by
      simp [substitutePredicate, hfaults, hflag]
    have hstop : (choiceTree q a b).stop? table =
        some (.predicate (.notTruth (table.replace q))) := by
      simp [choiceTree, Node.ofClauses, Node.stop?, Node.nodes, Node.nodesAll,
        List.findSome?_cons, Node.ownStop?, hpredicate]
    simp [hstop, hflag, ExpansionError.ofSubstitution]
  · have hstop : (choiceTree q a b).stop? table = none := by
      rw [Node.stop?_eq_none_iff, predicates_choiceTree]
      exact ⟨by simp [Lookup.truthOf?, hflag], fun w _ => hfaults w⟩
    simp [hstop, Lookup.takes, Lookup.truthOf?, hflag]

section

variable {marker name : Text} {v : Value} {t : Text} {table : Lookup}

/-- A table of one name looks up the value with this name, and no other word. -/
theorem resolve_singleton (htable : table.find? = valueOf? marker [(name, v)]) (w : Text) :
    table.resolve w = if marker ++ name = w then v.write else pure w := by
  rw [Lookup.resolve, htable]
  by_cases hw : marker ++ name = w <;> simp [valueOf?, hw]

theorem calls_resolve_singleton_le (htable : table.find? = valueOf? marker [(name, v)]) (w : Text) :
    (table.resolve w).calls ≤ v.write.calls := by
  rw [resolve_singleton htable]
  split
  · exact Nat.le_refl _
  · exact Nat.zero_le _

theorem fault?_singleton (htable : table.find? = valueOf? marker [(name, v)])
    (hformat : v.format = .ok t) (w : Text) : table.fault? w = none := by
  rw [Lookup.fault?_eq_none_iff, resolve_singleton htable]
  split
  · exact ⟨t, hformat⟩
  · exact ⟨w, rfl⟩

/-- The name is replaced by the text of its value. -/
theorem replace_singleton (htable : table.find? = valueOf? marker [(name, v)])
    (hformat : v.format = .ok t) : table.replace (marker ++ name) = t :=
  Lookup.replace_of_ok (by rw [resolve_singleton htable, if_pos rfl]; exact hformat)

end

/-- **The truth table** of a conditional. Expanded with a value for the predicate that has a text
and room for its calls, the template gives a text when the value stands for a truth value, and then
that of the clause for this truth value: the value is one, or the word for one in any case, or its
type writes such a word for it. It is refused for every other value, and the error shows the text of
the value. -/
theorem apply_choice_iff {marker : Text} {strict : Bool} {maxDepth : Int} {room : Nat}
    {p : Expander} (hp : create marker strict maxDepth room = .ok p) {name : Text}
    (hblank : ∀ c ∈ marker ++ name, Text.isBlank c = false)
    (hreserved : Keyword.isReserved (marker ++ name) = false) (ha : ∀ w ∈ a, IsClauseText w)
    (hb : ∀ w ∈ b, IsClauseText w) {v : Value} {t : Text} (hformat : v.format = .ok t)
    (hroom : v.write.calls + 5 ≤ room) :
    (∀ text, p.apply (choice (marker ++ name) a b) (.map false [(.text name, v)]) = .ok text ↔
      ∃ flag, v.StandsFor flag ∧
        text = Text.spaced ((if flag then a else b).map (formatted marker [(name, v)]))) ∧
    ∀ e, p.apply (choice (marker ++ name) a b) (.map false [(.text name, v)]) = .error e ↔
      (∀ flag, ¬ v.StandsFor flag) ∧ e = .stage (.predicate (.notTruth t)) := by
  obtain ⟨hmarker, hdepth, rfl⟩ := (create_eq_ok_iff ..).mp hp
  have hword : Text.IsWord (marker ++ name) := ⟨by simp [hmarker], hblank⟩
  have hbuild := build_choice (p := { marker, strict, maxDepth, room }) hdepth
    (by change 3 ≤ room; omega) hword hreserved ha hb
  have hnamed : (Value.map false [(.text name, v)]).namedValues = .ok [(name, v)] := rfl
  obtain ⟨table, hfind, hrun⟩ := exists_table_apply_eq hnamed { marker, strict, maxDepth, room }
  have hcalls : (choiceTree (marker ++ name) a b).substitutionCalls table ≤ room :=
    calc (choiceTree (marker ++ name) a b).substitutionCalls table
        ≤ (choiceTree (marker ++ name) a b).height + v.write.calls :=
          Node.substitutionCalls_le fun w _ => calls_resolve_singleton_le hfind w
      _ ≤ 5 + v.write.calls := Nat.add_le_add_right (height_choiceTree_le ..) _
      _ ≤ room := by omega
  rw [hrun, applyTable_choice hbuild (fault?_singleton hfind hformat) hcalls,
    replace_singleton hfind hformat, Value.truth?_of_format hformat,
    Lookup.replace_eq_formatted hfind]
  simp only [← Value.flag?_eq_some_iff]
  cases v.flag? with
  | none => simp [eq_comm]
  | some flag => simp [eq_comm]

/-- A text selects the first clause, in which it shows as it is. A record with the name `true`
selects none. -/
theorem apply_choice_iff_of_record :
    let marker : Text := ".".toList
    let name : Text := "c".toList
    let a : List Text := [".c".toList, "[if]".toList]
    let b : List Text := []
    let template : Text := choice (marker ++ name) a b
    let run (v : Value) := apply {} template (.map false [(.text name, v)])
    let text : Value := .text "TrUe".toList
    let record : Value := .record .plain "true".toList [] [] none
    template = "\x7b\x7b [if] .c [then] .c [if] [else] \x7d\x7d".toList ∧
      create marker true 200 = .ok {} ∧ (∀ c ∈ marker ++ name, Text.isBlank c = false) ∧
      Keyword.isReserved (marker ++ name) = false ∧ (∀ w ∈ a, IsClauseText w) ∧
      (∀ w ∈ b, IsClauseText w) ∧
      text.format = .ok "TrUe".toList ∧ text.write.calls + 5 ≤ Stack.room ∧
      run text = .ok "TrUe [if]".toList ∧
      record.format = .ok "true()".toList ∧ record.write.calls + 5 ≤ Stack.room ∧
      run record = .error (.stage (.predicate (.notTruth "true()".toList))) := by
  intro marker name a b template run text record
  have hp : create marker true 200 = .ok {} := rfl
  have hword : Text.IsWord (marker ++ name) := by decide
  have hreserved : Keyword.isReserved (marker ++ name) = false := by decide
  have ha : ∀ w ∈ a, IsClauseText w := by decide
  have hb : ∀ w ∈ b, IsClauseText w := by decide
  have htext : text.format = .ok "TrUe".toList := rfl
  have hrecord : record.format = .ok "true()".toList := rfl
  have htextRoom : text.write.calls + 5 ≤ Stack.room := by decide
  have hrecordRoom : record.write.calls + 5 ≤ Stack.room := by decide
  refine ⟨by decide, hp, hword.2, hreserved, ha, hb, htext, htextRoom, ?_, hrecord, hrecordRoom, ?_⟩
  · exact ((apply_choice_iff hp hword.2 hreserved ha hb htext htextRoom).1 _).mpr
      ⟨true, Or.inr ⟨_, Or.inl rfl, by decide⟩, by decide⟩
  · have hflag : record.flag? = none := rfl
    refine ((apply_choice_iff hp hword.2 hreserved ha hb hrecord hrecordRoom).2 _).mpr
      ⟨fun flag h => ?_, rfl⟩
    rw [← Value.flag?_eq_some_iff, hflag] at h
    cases h

/-- A record is no truth value and no text, and it selects a clause when its type writes it as
`true`. -/
theorem apply_choice_of_written_true :
    let record : Value := .record .plain "Answer".toList [("id".toList, .int 1)] []
      (some ⟨.leaf "true".toList, .leaf "Answer(id=1)".toList⟩)
    let run (v : Value) :=
      apply {} (choice ".c".toList ["a".toList] ["b".toList]) (.map false [(.text "c".toList, v)])
    (∀ flag, record ≠ .bool flag) ∧ (∀ t, record ≠ .text t) ∧
      run record = .ok "a".toList := by
  intro record run
  exact ⟨nofun, nofun, eq_ok_of_toOption (by decide +kernel)⟩

end Expander

end SqlTemplate
