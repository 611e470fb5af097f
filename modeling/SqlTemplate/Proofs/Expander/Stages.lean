import SqlTemplate.Expander
import SqlTemplate.Proofs.Lookup
import SqlTemplate.Proofs.Node.Calls
import SqlTemplate.Proofs.Node.Grammar
import SqlTemplate.Proofs.Node.Selection
import SqlTemplate.Proofs.Scope.RoundTrip

set_option autoImplicit false

/-! # The stages of an expansion together

A tree that was built is well-formed and is written back as the words of the template
(`Expander.plainWords_of_build`, `Expander.words_of_build`). From a tree on, an expansion has three
outcomes: the calls of the substitution do not fit, or it fails as the substitution stops, or it
gives the reached words, replaced and spaced (`Expander.applyTable_of_build`).
-/

namespace SqlTemplate

namespace Expander

/-- An expander is set up just with a marker and with room for a nested scope. -/
theorem create_eq_ok_iff (marker : Text) (strict : Bool) (maxDepth : Int) (room : Nat)
    (p : Expander) : create marker strict maxDepth room = .ok p ↔
      marker ≠ [] ∧ 1 ≤ maxDepth ∧ p = { marker, strict, maxDepth, room } := by
  unfold create
  split
  · rename_i hempty
    simp [List.isEmpty_iff.mp hempty]
  · rename_i hmarker
    rw [List.isEmpty_iff] at hmarker
    split
    · rename_i hdepth
      simp [Int.not_le.mpr hdepth]
    · rename_i hdepth
      constructor
      · rintro ⟨rfl⟩
        exact ⟨hmarker, Int.not_lt.mp hdepth, rfl⟩
      · rintro ⟨-, -, rfl⟩
        rfl

theorem create_eq_ok {marker : Text} {strict : Bool} {maxDepth : Int} {room : Nat} {p : Expander}
    (h : create marker strict maxDepth room = .ok p) : p = { marker, strict, maxDepth, room } :=
  ((create_eq_ok_iff marker strict maxDepth room p).mp h).2.2

/-! ## From a template to a tree -/

/-- Pieces have the tree that they are read as, if the calls fit that read them to their end. -/
theorem treeOf_eq_ok_iff (p : Expander) (pieces : List Piece) (tree : Node Empty) :
    p.treeOf pieces = .ok tree ↔
      Node.ofScope p.maxDepth 0 pieces = .ok tree ∧
        Piece.fullCalls (.scope pieces) ≤ p.room := by
  unfold treeOf
  cases hread : (Node.ofScope p.maxDepth 0 pieces : Except ShapeError (Node Empty)) with
  | error e =>
      dsimp only
      split <;> simp
  | ok tree' =>
      rw [Node.readingCalls_scope hread]
      dsimp only
      split
      · simp only [reduceCtorEq, false_iff, not_and]
        omega
      · simp only [Except.ok.injEq, iff_self_and]
        omega

/-- A tree of pieces is well-formed and is written back as the pieces. -/
theorem treeOf_eq_ok {p : Expander} {pieces : List Piece} {tree : Node Empty}
    (h : p.treeOf pieces = .ok tree) : tree.WellFormed ∧ tree.pieces = pieces := by
  rw [treeOf_eq_ok_iff, Node.readsExactly] at h
  exact ⟨h.1.1, h.1.2.1⟩

theorem treeOf_eq_error {p : Expander} {pieces : List Piece} {e : StageError}
    (h : p.treeOf pieces = .error e) : e = .exhausted .tree ∨ ∃ reason, e = .shape reason := by
  unfold treeOf at h
  split at h
  · exact Or.inl (Except.error.inj h).symm
  · split at h
    · exact Or.inr ⟨_, (Except.error.inj h).symm⟩
    · cases h

theorem build_eq_ok_iff (p : Expander) (template : Text) (tree : Node Empty) :
    p.build template = .ok tree ↔
      ∃ r, Reading.ofTemplate p.strict template = .ok r ∧
        p.treeOf r.pieces = .ok tree := by
  rw [build]
  cases Reading.ofTemplate p.strict template with
  | error e => simp
  | ok r => simp

theorem build_eq_ok_of_reading {p : Expander} {template : Text} {tree : Node Empty} {r : Reading}
    (hread : Reading.ofTemplate p.strict template = .ok r)
    (htree : Node.ofScope p.maxDepth 0 r.pieces = .ok tree)
    (hroom : Piece.fullCalls (.scope r.pieces) ≤ p.room) : p.build template = .ok tree :=
  (build_eq_ok_iff p template tree).mpr ⟨r, hread, (treeOf_eq_ok_iff ..).mpr ⟨htree, hroom⟩⟩

/-- A template that has the words of pieces is built as the pieces are, whatever its blanks are. -/
theorem build_of_words (p : Expander) {template : Text} {ps : List Piece}
    (h : Piece.Undelimited ps) (hwords : template.words = Piece.words ps) (tree : Node Empty) :
    p.build template = .ok tree ↔
      Node.ofScope p.maxDepth 0 ps = .ok tree ∧ Piece.fullCalls (.scope ps) ≤ p.room := by
  rw [build_eq_ok_iff, Reading.ofTemplate_of_words p.strict h hwords, ← treeOf_eq_ok_iff]
  simp

theorem build_eq_ok {p : Expander} {template : Text} {tree : Node Empty}
    (h : p.build template = .ok tree) :
    ∃ r, Reading.ofWords p.strict template.words = .ok r ∧ tree.WellFormed ∧
      tree.pieces = r.pieces := by
  obtain ⟨r, hr, htree⟩ := (build_eq_ok_iff p template tree).mp h
  exact ⟨r, hr, treeOf_eq_ok htree⟩

theorem wellFormed_of_build {p : Expander} {template : Text} {tree : Node Empty}
    (h : p.build template = .ok tree) : tree.WellFormed := by
  obtain ⟨r, -, hw, -⟩ := build_eq_ok h
  exact hw

/-- No word in a tree that was built is a delimiter. -/
theorem undelimited_of_build {p : Expander} {template : Text} {tree : Node Empty}
    (h : p.build template = .ok tree) : Piece.Undelimited tree.pieces := by
  obtain ⟨r, hr, -, hp⟩ := build_eq_ok h
  rw [hp]
  exact Reading.undelimited_pieces hr

/-- Without delimiters, a tree that was built is written back as the words of the template that
are no delimiters. -/
theorem plainWords_of_build {p : Expander} {template : Text} {tree : Node Empty}
    (h : p.build template = .ok tree) :
    Piece.plainWords tree.pieces = template.words.filter fun w => ¬ IsDelimiter w := by
  obtain ⟨r, hr, -, hp⟩ := build_eq_ok h
  rw [hp, Reading.plainWords_eq hr]

/-- A tree that was built from a strict reading is written back as the words of the template. -/
theorem words_of_build {p : Expander} (hs : p.strict = true) {template : Text} {tree : Node Empty}
    (h : p.build template = .ok tree) : Piece.words tree.pieces = template.words := by
  obtain ⟨r, hr, -, hp⟩ := build_eq_ok h
  rw [hp, Reading.words_of_strict (hs ▸ hr)]

/-! ## From a tree to a text -/

theorem applyTable_of_build_error {p : Expander} {template : Text} {e : StageError}
    (h : p.build template = .error e) (table : Lookup) :
    p.applyTable template table = .error (.stage e) := by
  simp only [applyTable, h]

/-- A substitution whose calls fit fails as it stops, and otherwise replaces the words. -/
theorem substituted_eq (p : Expander) (table : Lookup) (tree : Node Empty) :
    p.substituted table tree =
      if p.room < tree.substitutionCalls table then .error (.stage (.exhausted .arguments))
      else
        match tree.stop? table with
        | some e => .error (.ofSubstitution e)
        | none => .ok (tree.mapWords table.replace) := by
  have hsnd := tree.substitute_snd table
  unfold substituted
  by_cases hroom : p.room < tree.substitutionCalls table
  · rw [if_pos hroom, if_pos hroom]
  rw [if_neg hroom, if_neg hroom]
  cases hstop : tree.stop? table with
  | some e =>
      rw [hstop] at hsnd
      generalize tree.substitute table = outcome at hsnd
      obtain ⟨tree', _⟩ := outcome
      subst hsnd
      rfl
  | none =>
      rw [hstop] at hsnd
      have hfst := Node.substitute_fst table hsnd
      generalize tree.substitute table = outcome at hsnd hfst
      obtain ⟨tree', _⟩ := outcome
      subst hsnd hfst
      rfl

/-- **The outcome of an expansion** from its tree on. -/
theorem applyTable_of_build {p : Expander} {template : Text} {tree : Node Empty}
    (h : p.build template = .ok tree) (table : Lookup) :
    p.applyTable template table =
      if p.room < tree.substitutionCalls table then .error (.stage (.exhausted .arguments))
      else
        match tree.stop? table with
        | some e => .error (.ofSubstitution e)
        | none => .ok (Text.spaced ((tree.reached table.takes).map table.replace)) := by
  simp only [applyTable, h, substituted_eq]
  by_cases hroom : p.room < tree.substitutionCalls table
  · rw [if_pos hroom, if_pos hroom]
  rw [if_neg hroom, if_neg hroom]
  cases hstop : tree.stop? table with
  | some e => rfl
  | none =>
      have hread := ((Node.stop?_eq_none_iff table tree).mp hstop).1
      simp only [Node.evaluate_mapWords table hread, Node.interpret_eq_spaced]

/-- An expansion with a lookup table fails in a stage, or at a word whose value has no text. -/
theorem applyTable_eq_error {p : Expander} {template : Text} {table : Lookup} {e : ExpansionError}
    (h : p.applyTable template table = .error e) :
    (∃ reason, e = .stage reason) ∨ ∃ fault w, e = .noText fault ∧ table.fault? w = some fault := by
  cases hbuild : p.build template with
  | error reason =>
      rw [applyTable_of_build_error hbuild] at h
      exact Or.inl ⟨reason, (Except.error.inj h).symm⟩
  | ok tree =>
      rw [applyTable_of_build hbuild] at h
      split at h
      · exact Or.inl ⟨_, (Except.error.inj h).symm⟩
      · split at h
        · rename_i stop hstop
          obtain rfl := Except.error.inj h
          cases stop with
          | predicate reason => exact Or.inl ⟨_, rfl⟩
          | noText fault =>
              obtain ⟨w, -, hfault⟩ := Node.exists_word_of_stop? hstop
              exact Or.inr ⟨fault, w, rfl, hfault⟩
          | foreign x => exact x.elim
        · cases h

/-- An expansion with a lookup table gives a text when the template has a tree, the calls of the
substitution fit, and the substitution in the tree goes through. -/
theorem applyTable_eq_ok_iff (p : Expander) (template : Text) (table : Lookup) (text : Text) :
    p.applyTable template table = .ok text ↔
      ∃ tree, p.build template = .ok tree ∧ tree.substitutionCalls table ≤ p.room ∧
        tree.stop? table = none ∧
        text = Text.spaced ((tree.reached table.takes).map table.replace) := by
  cases hbuild : p.build template with
  | error e => simp [applyTable_of_build_error hbuild]
  | ok tree =>
      rw [applyTable_of_build hbuild]
      simp only [Except.ok.injEq]
      rw [exists_eq_left']
      by_cases hroom : p.room < tree.substitutionCalls table
      · simp [hroom, Nat.not_le.mpr hroom]
      · rw [if_neg hroom]
        cases hstop : tree.stop? table with
        | some e => simp
        | none => simp [Nat.not_lt.mp hroom, eq_comm]

/-- The text of a template by the stages of an expansion, whatever the arguments are. -/
def applyStages (p : Expander) (template : Text) (args : Value) : Except ExpansionError Text :=
  match Lookup.ofArgs p.marker args with
  | .error e => .error (.args e)
  | .ok table => p.applyTable template table

theorem apply_eq_applyStages (p : Expander) (template : Text) {args : Value}
    (h : args ≠ .none) : p.apply template args = p.applyStages template args := by
  cases args with
  | none => exact absurd rfl h
  | _ => rfl

theorem applyStages_of_error {args : Value} {e : UnsupportedArgs}
    (h : args.namedValues = .error e) (p : Expander) (template : Text) :
    p.applyStages template args = .error (.args e) := by
  rw [applyStages, Lookup.ofArgs, h]
  rfl

/-- Arguments with names for keys are used as a table in which each word has the value that it
stands for, the same table for every template. -/
theorem exists_table_apply_eq {args : Value} {named : List (Text × Value)}
    (h : args.namedValues = .ok named) (p : Expander) :
    ∃ table : Lookup, table.find? = valueOf? p.marker named ∧
      ∀ template, p.apply template args = p.applyTable template table := by
  obtain ⟨table, ht, hfind⟩ := Lookup.exists_ofArgs_eq h p.marker
  have hne : args ≠ .none := by
    rintro rfl
    cases h
  refine ⟨table, hfind, fun template => ?_⟩
  rw [apply_eq_applyStages p template hne, applyStages, ht]

/-- The same for one template. -/
theorem apply_eq_applyTable {args : Value} {named : List (Text × Value)}
    (h : args.namedValues = .ok named) (p : Expander) (template : Text) :
    ∃ table : Lookup, table.find? = valueOf? p.marker named ∧
      p.apply template args = p.applyTable template table := by
  obtain ⟨table, hfind, hrun⟩ := exists_table_apply_eq h p
  exact ⟨table, hfind, hrun template⟩

end Expander

end SqlTemplate
