import SqlTemplate.Expander
import SqlTemplate.Proofs.Scope.Repair

set_option autoImplicit false

/-! # Lenient reading

A lenient reading always succeeds, and what it gives is what a strict reading of the repaired
template gives. On a template whose delimiters are paired there is nothing to repair, so that strict
and lenient expanders do the same (`Expander.lenient_reads_repaired`).
-/

namespace SqlTemplate

namespace Reading

/-- A strict reading of paired words succeeds. -/
theorem exists_ofWords_of_paired {ws : List Text} (h : Words.Paired ws) :
    ∃ r, ofWords true ws = .ok r := by
  obtain ⟨r, -, hstrict, -⟩ := exists_ofWords_repaired ws
  rw [h.repaired_eq] at hstrict
  exact ⟨_, hstrict⟩

/-- Paired words are those of pieces. -/
theorem exists_pieces_of_paired {ws : List Text} (h : Words.Paired ws) :
    ∃ ps, Piece.Undelimited ps ∧ ws = Piece.words ps := by
  obtain ⟨r, hr⟩ := exists_ofWords_of_paired h
  exact ⟨r.pieces, undelimited_pieces hr, (words_of_strict hr).symm⟩

/-- A strict reading of what is written for repaired words reads these words. -/
theorem ofTemplate_unwords_repaired (strict : Bool) (template : Text) :
    ofTemplate strict (Text.unwords (Words.repaired template.words)) =
      ofWords strict (Words.repaired template.words) := by
  have hwords : ∀ w ∈ Words.repaired template.words, Text.IsWord w :=
    Words.isWord_of_mem_repaired fun _ => Text.isWord_of_mem_words
  rw [ofTemplate, Text.words_unwords hwords]

end Reading

namespace Expander

/-- Whether an expander is strict matters to nothing but the reading of a template. -/
theorem apply_strict_eq_lenient {template : Text}
    (h : Reading.ofTemplate true template = Reading.ofTemplate false template) (p : Expander)
    (args : Value) :
    { p with strict := true }.apply template args =
      { p with strict := false }.apply template args := by
  have hbuild : { p with strict := true }.build template =
      { p with strict := false }.build template := by
    simp only [build, h]
    rfl
  have hsubstituted : { p with strict := true }.substituted =
      { p with strict := false }.substituted := rfl
  cases args <;> simp only [apply, applyTable, hbuild, hsubstituted]

/-- **A lenient reading is a strict reading of the repaired template**, and it skips as many closing
delimiters as there are too many in the prefix that has most of these. Where a strict reading
succeeds, a lenient one gives the same, and where the delimiters are paired, strict and lenient
expanders agree. -/
theorem lenient_reads_repaired (template : Text) :
    (∃ r, Reading.ofTemplate false template = .ok r ∧
      Reading.ofTemplate true (Text.unwords (Words.repaired template.words)) =
        .ok ⟨r.pieces, []⟩ ∧
      (Words.kept template.words).length + r.skipped.length = template.words.length ∧
      IsGreatest (Set.range fun k =>
        Words.closed (template.words.take k) - Words.opened (template.words.take k))
        r.skipped.length) ∧
    (∀ r, Reading.ofTemplate true template = .ok r → Reading.ofTemplate false template = .ok r) ∧
    (Words.Paired template.words → ∀ (p : Expander) (args : Value),
      { p with strict := true }.apply template args =
        { p with strict := false }.apply template args) := by
  refine ⟨?_, fun r => Reading.ofWords_false_of_true, fun hpaired p args => ?_⟩
  · obtain ⟨r, hlenient, hstrict, hlength⟩ := Reading.exists_ofWords_repaired template.words
    obtain ⟨n, hn, hgreatest⟩ := Words.exists_isGreatest_excessFrom 0 template.words
    have hskipped : n = r.skipped.length := by
      rw [Words.kept] at hlength
      omega
    have hexcess : Words.excessFrom 0 template.words = fun k =>
        Words.closed (template.words.take k) - Words.opened (template.words.take k) := by
      funext k
      rw [Words.excessFrom, Nat.zero_add]
    refine ⟨r, hlenient, ?_, hlength, ?_⟩
    · rw [Reading.ofTemplate_unwords_repaired, hstrict]
    · rwa [hskipped, hexcess] at hgreatest
  · obtain ⟨r, hr⟩ := Reading.exists_ofWords_of_paired hpaired
    have hread : Reading.ofTemplate true template = Reading.ofTemplate false template :=
      hr.trans (Reading.ofWords_false_of_true hr).symm
    exact apply_strict_eq_lenient hread p args

/-- The delimiters of this template are paired, and it is no conditional that can be read. -/
theorem lenient_reads_repaired_of_paired :
    let template : Text := "a \x7b\x7b [if] \x7b\x7b \x7d\x7d \x7d\x7d".toList
    let reading : Reading :=
      ⟨[.word "a".toList, .scope [.word "[if]".toList, .scope []]], []⟩
    let args : Value := .map false [(.text "x".toList, .int 1)]
    Words.Paired (Text.words template) ∧
      Reading.ofTemplate true template = .ok reading ∧
      Reading.ofTemplate false template = .ok reading ∧
      apply { strict := true } template args = apply { strict := false } template args := by
  intro template reading args
  have hpaired : Words.Paired (Text.words template) := ⟨by decide, by decide⟩
  have hread : Reading.ofTemplate true template = .ok reading := rfl
  exact ⟨hpaired, hread, (lenient_reads_repaired template).2.1 reading hread,
    (lenient_reads_repaired template).2.2 hpaired {} args⟩

end Expander

end SqlTemplate
