import SqlTemplate.Proofs.Expander.Failures
import SqlTemplate.Proofs.Expander.Lenient

set_option autoImplicit false

/-! # Templates one after another

Two templates with blanks between them are one template. When each of them has words, does not
start with `[if]` and has paired delimiters (`Text.IsFragment`), no scope reaches from the one into
the other, and the whole is read as a sequence: the nodes of the first template and then those of
the second (`Expander.build_append_iff`). So the whole expands just when both do, and to their two
texts (`Expander.apply_append_iff`).
-/

namespace SqlTemplate

/-! ## Scopes one after another -/

theorem isConditional_append {ps : List Piece} (h : isConditional ps = .ok false)
    (qs : List Piece) : isConditional (ps ++ qs) = .ok false := by
  obtain ⟨p, rest, rfl, hp⟩ := (isConditional_eq_false_iff ps).mp h
  exact isConditional_of_ne hp (rest ++ qs)

namespace Node

variable {Foreign : Type}

theorem sequenceOf_append_iff (limit depth : Int) (ps qs : List Piece) (ns : List (Node Foreign)) :
    sequenceOf limit depth (ps ++ qs) = .ok ns ↔
      ∃ xs ys, sequenceOf limit depth ps = .ok xs ∧ sequenceOf limit depth qs = .ok ys ∧
        ns = xs ++ ys := by
  induction ps generalizing ns with
  | nil => simp [sequenceOf]
  | cons p ps ih =>
      rw [List.cons_append, sequenceOf_cons_iff]
      constructor
      · rintro ⟨n, rest, hn, hrest, rfl⟩
        obtain ⟨xs, ys, hxs, hys, rfl⟩ := (ih rest).mp hrest
        exact ⟨n :: xs, ys, (sequenceOf_cons_iff ..).mpr ⟨n, xs, hn, hxs, rfl⟩, hys, rfl⟩
      · rintro ⟨xs, ys, hxs, hys, rfl⟩
        obtain ⟨n, rest, hn, hrest, rfl⟩ := (sequenceOf_cons_iff ..).mp hxs
        exact ⟨n, rest ++ ys, hn, (ih _).mpr ⟨rest, ys, hrest, hys, rfl⟩, rfl⟩

/-- A scope that is no conditional is read as the sequence of its pieces. -/
theorem ofScope_plain_iff {ps : List Piece} (h : isConditional ps = .ok false) (limit depth : Int)
    (n : Node Foreign) :
    ofScope limit depth ps = .ok n ↔
      depth ≤ limit ∧ ∃ ns, sequenceOf limit depth ps = .ok ns ∧ n = .sequence ns := by
  rw [ofScope_eq_ok_cases, h]
  simp

/-- **Scopes that are no conditionals**, one after another, are read one after another. -/
theorem ofScope_append_iff {ps qs : List Piece} (hps : isConditional ps = .ok false)
    (hqs : isConditional qs = .ok false) (limit depth : Int) (n : Node Foreign) :
    ofScope limit depth (ps ++ qs) = .ok n ↔
      ∃ xs ys, ofScope limit depth ps = .ok (.sequence xs) ∧
        ofScope limit depth qs = .ok (.sequence ys) ∧ n = .sequence (xs ++ ys) := by
  simp only [ofScope_plain_iff (isConditional_append hps qs), ofScope_plain_iff hps,
    ofScope_plain_iff hqs, sequenceOf_append_iff, Node.sequence.injEq, exists_eq_right']
  constructor
  · rintro ⟨hd, _, ⟨xs, ys, hxs, hys, rfl⟩, rfl⟩
    exact ⟨xs, ys, ⟨hd, hxs⟩, ⟨hd, hys⟩, rfl⟩
  · rintro ⟨xs, ys, ⟨hd, hxs⟩, ⟨-, hys⟩, rfl⟩
    exact ⟨hd, _, ⟨xs, ys, hxs, hys, rfl⟩, rfl⟩

end Node

/-! ## Templates that stay apart -/

/-- Whether a template keeps to itself when another one stands next to it. -/
structure Text.IsFragment (template : Text) : Prop where
  hasWord : template.words ≠ []
  notConditional : template.words.head? ≠ some Keyword.ifWord.text
  paired : Words.Paired template.words

/-- The pieces of such a template are no conditional. -/
theorem Text.IsFragment.exists_pieces {template : Text} (h : template.IsFragment) :
    ∃ ps, Piece.Undelimited ps ∧ template.words = Piece.words ps ∧
      isConditional ps = .ok false := by
  obtain ⟨ps, hps, hwords⟩ := Reading.exists_pieces_of_paired h.paired
  refine ⟨ps, hps, hwords, ?_⟩
  have hword := h.hasWord
  have hhead := h.notConditional
  rw [hwords] at hword hhead
  cases ps with
  | nil => exact absurd rfl hword
  | cons p rest =>
      refine isConditional_of_ne (fun hp => hhead ?_) rest
      rw [hp, Piece.words_word_cons, List.head?_cons]

namespace Expander

variable {a s b : Text}

/-- The tree of two templates with blanks between them has the nodes of the first tree and then
those of the second. -/
theorem build_append_iff (p : Expander) (ha : a.IsFragment) (hb : b.IsFragment) (hs : s ≠ [])
    (hblank : ∀ c ∈ s, Text.isBlank c = true) (tree : Node Empty) :
    p.build (a ++ s ++ b) = .ok tree ↔
      ∃ xs ys, p.build a = .ok (.sequence xs) ∧ p.build b = .ok (.sequence ys) ∧
        tree = .sequence (xs ++ ys) := by
  obtain ⟨ps, hps, hwordsA, hplainA⟩ := ha.exists_pieces
  obtain ⟨qs, hqs, hwordsB, hplainB⟩ := hb.exists_pieces
  have hwords : (a ++ s ++ b).words = Piece.words (ps ++ qs) := by
    rw [Text.words_append_blanks hs hblank, hwordsA, hwordsB, Piece.words_append]
  have hundelimited := (Piece.undelimited_append_iff ps qs).mpr ⟨hps, hqs⟩
  have hcalls : Piece.fullCalls (.scope (ps ++ qs)) =
      max (Piece.fullCalls (.scope ps)) (Piece.fullCalls (.scope qs)) := by
    simp only [Piece.fullCalls, isConditional_append hplainA, hplainA, hplainB,
      Piece.fullCallsAll_append]
    omega
  rw [build_of_words p hundelimited hwords, Node.ofScope_append_iff hplainA hplainB, hcalls,
    Nat.max_le]
  simp only [build_of_words p hps hwordsA, build_of_words p hqs hwordsB]
  constructor
  · rintro ⟨⟨xs, ys, hxs, hys, rfl⟩, hroomA, hroomB⟩
    exact ⟨xs, ys, ⟨hxs, hroomA⟩, ⟨hys, hroomB⟩, rfl⟩
  · rintro ⟨xs, ys, ⟨hxs, hroomA⟩, ⟨hys, hroomB⟩, rfl⟩
    exact ⟨⟨xs, ys, hxs, hys, rfl⟩, hroomA, hroomB⟩

/-- A tree that was built is a sequence. -/
theorem exists_sequence_of_build {p : Expander} {template : Text} {tree : Node Empty}
    (h : p.build template = .ok tree) : ∃ ns, tree = .sequence ns := by
  have hw := wellFormed_of_build h
  cases tree with
  | sequence ns => exact ⟨ns, rfl⟩
  | _ => exact hw.elim

/-- A substitution in two sequences one after another goes through when it does in both. -/
theorem stop?_sequence_append_eq_none_iff (table : Lookup) (xs ys : List (Node Empty)) :
    (Node.sequence (xs ++ ys)).stop? table = none ↔
      (Node.sequence xs).stop? table = none ∧ (Node.sequence ys).stop? table = none := by
  have hstop : ∀ ns : List (Node Empty), (Node.sequence ns).stop? table =
      (Node.nodesAll ns).findSome? (Node.ownStop? table) := fun ns => rfl
  rw [hstop, hstop, hstop, Node.nodesAll_append, List.findSome?_append, Option.or_eq_none_iff]

/-- And then its calls nest as deeply as those of the one that needs more. -/
theorem substitutionCalls_sequence_append {table : Lookup} {xs : List (Node Empty)}
    (h : (Node.sequence xs).stop? table = none) (ys : List (Node Empty)) :
    (Node.sequence (xs ++ ys)).substitutionCalls table =
      max ((Node.sequence xs).substitutionCalls table)
        ((Node.sequence ys).substitutionCalls table) := by
  rw [← Node.substitute_snd] at h
  rw [Node.substitutionCalls, Node.substitutionCalls, Node.substitutionCalls,
    Node.substitutionCallsAll_append h]
  omega

/-- With one lookup table for all of them, two templates with blanks between them expand just when
both do. -/
theorem applyTable_append_iff (p : Expander) (ha : a.IsFragment) (hb : b.IsFragment) (hs : s ≠ [])
    (hblank : ∀ c ∈ s, Text.isBlank c = true) (table : Lookup) (text : Text) :
    p.applyTable (a ++ s ++ b) table = .ok text ↔
      ∃ ta tb, p.applyTable a table = .ok ta ∧ p.applyTable b table = .ok tb ∧
        text = Text.spaced [ta, tb] := by
  simp only [applyTable_eq_ok_iff, build_append_iff p ha hb hs hblank]
  constructor
  · rintro ⟨_, ⟨xs, ys, hxs, hys, rfl⟩, hcalls, hstop, rfl⟩
    rw [stop?_sequence_append_eq_none_iff] at hstop
    rw [substitutionCalls_sequence_append hstop.1, Nat.max_le] at hcalls
    refine ⟨_, _, ⟨_, hxs, hcalls.1, hstop.1, rfl⟩, ⟨_, hys, hcalls.2, hstop.2, rfl⟩, ?_⟩
    simp only [Node.reached, Node.reachedAll_append, List.map_append, Text.spaced_append]
  · rintro ⟨_, _, ⟨m, hm, hmcalls, hmstop, rfl⟩, ⟨n, hn, hncalls, hnstop, rfl⟩, rfl⟩
    obtain ⟨xs, rfl⟩ := exists_sequence_of_build hm
    obtain ⟨ys, rfl⟩ := exists_sequence_of_build hn
    refine ⟨_, ⟨xs, ys, hm, hn, rfl⟩, ?_, ?_, ?_⟩
    · rw [substitutionCalls_sequence_append hmstop, Nat.max_le]
      exact ⟨hmcalls, hncalls⟩
    · exact (stop?_sequence_append_eq_none_iff table xs ys).mpr ⟨hmstop, hnstop⟩
    · simp only [Node.reached, Node.reachedAll_append, List.map_append, Text.spaced_append]

/-- **Templates one after another.** Two templates that have words, do not start with `[if]` and
have paired delimiters, with blanks between them, expand with the same arguments just when each of
them does, and then to the two texts with a space between them, or to one of them where the other
is empty. -/
theorem apply_append_iff (p : Expander) {args : Value} (hargs : args ≠ .none) (ha : a.IsFragment)
    (hb : b.IsFragment) (hs : s ≠ []) (hblank : ∀ c ∈ s, Text.isBlank c = true) (text : Text) :
    p.apply (a ++ s ++ b) args = .ok text ↔
      ∃ ta tb, p.apply a args = .ok ta ∧ p.apply b args = .ok tb ∧
        text = Text.spaced [ta, tb] := by
  cases hnamed : args.namedValues with
  | error e =>
      -- the arguments are refused before any template is read
      simp [apply_of_namedValues_error hargs hnamed]
  | ok named =>
      obtain ⟨table, -, hrun⟩ := exists_table_apply_eq hnamed p
      simp only [hrun]
      exact applyTable_append_iff p ha hb hs hblank table text

/-- The first template selects nothing, and the text of the second one is all that is left. -/
theorem apply_append_iff_of_empty_half :
    let a : Text := "\x7b\x7b [if] .c [then] .x \x7d\x7d".toList
    let s : Text := "\n\t".toList
    let b : Text := ".x \x7b\x7b [then] \x7d\x7d".toList
    let args : Value := .map false [(.text "c".toList, .bool false), (.text "x".toList, .int 1)]
    args ≠ .none ∧ a.IsFragment ∧ b.IsFragment ∧ s ≠ [] ∧ (∀ c ∈ s, Text.isBlank c = true) ∧
      apply {} a args = .ok [] ∧ apply {} b args = .ok "1 [then]".toList ∧
      apply {} (a ++ s ++ b) args = .ok "1 [then]".toList := by
  intro a s b args
  have hargs : args ≠ .none := nofun
  have ha : a.IsFragment := ⟨by decide, by decide, by decide, by decide⟩
  have hb : b.IsFragment := ⟨by decide, by decide, by decide, by decide⟩
  have hs : s ≠ [] := by decide
  have hblank : ∀ c ∈ s, Text.isBlank c = true := List.all_eq_true.mp (by decide)
  have hfirst : apply {} a args = .ok [] := eq_ok_of_toOption (by decide +kernel)
  have hsecond : apply {} b args = .ok "1 [then]".toList := eq_ok_of_toOption (by decide +kernel)
  exact ⟨hargs, ha, hb, hs, hblank, hfirst, hsecond,
    (apply_append_iff {} hargs ha hb hs hblank _).mpr ⟨_, _, hfirst, hsecond, by decide⟩⟩

end Expander

end SqlTemplate
