import SqlTemplate.Proofs.Expander.TwoRuns
import SqlTemplate.Proofs.Text.Tidy

set_option autoImplicit false

/-! # Blanks in templates and in their texts

Of a template only the words are read, so a template can be tidied without any change to its tree,
to its text or to the error that is reported for it (`Expander.apply_tidied`).

The text of an expansion is tidied by tidying what is put in the places of the words
(`Expander.exists_words_of_apply`, `Text.tidy_spaced`). Values that are tidy themselves therefore
give tidy texts, whatever is empty or left out on the way (`Expander.apply_tidies`).
-/

namespace SqlTemplate

namespace Expander

/-! ## The blanks of a template -/

/-- Templates with the same words have the same tree, or the same error. -/
theorem build_congr_words (p : Expander) {s t : Text} (h : s.words = t.words) :
    p.build s = p.build t := by
  simp only [build, Reading.ofTemplate, h]

theorem apply_congr_words (p : Expander) {s t : Text} (h : s.words = t.words) {args : Value}
    (hargs : args ≠ .none) : p.apply s args = p.apply t args := by
  have hbuild := p.build_congr_words h
  cases args with
  | none => exact absurd rfl hargs
  | _ => simp only [apply, applyTable, hbuild]

/-- **Tidying a template changes nothing.** With single spaces between its words a template has the
same tree, and with arguments it has the same text; where it has none, it has the same error. -/
theorem apply_tidied (p : Expander) (template : Text) :
    p.build template.tidy = p.build template ∧
      ∀ args, args ≠ .none → p.apply template.tidy args = p.apply template args :=
  ⟨p.build_congr_words (Text.words_tidy template),
    fun _ hargs => p.apply_congr_words (Text.words_tidy template) hargs⟩

/-- The delimiter that closes nothing is the third word of the template, whatever the blanks in
front of it are. -/
theorem apply_tidied_of_strayClose :
    let template : Text := "\t[if]  .c\u2003\n\x7d\x7d [then] ".toList
    let args : Value := .map false []
    let stray : Except ExpansionError Text := .error (.stage (.imbalance (.strayClose 2)))
    args ≠ .none ∧ apply {} template args = stray ∧
      apply {} "[if] .c \x7d\x7d [then]".toList args = stray := by
  intro template args stray
  have hargs : args ≠ .none := nofun
  have hstray : apply {} template args = stray := rfl
  have htidy : Text.tidy template = "[if] .c \x7d\x7d [then]".toList := by decide +kernel
  have hsame := (apply_tidied {} template).2 args hargs
  rw [htidy, hstray] at hsame
  exact ⟨hargs, hstray, hsame⟩

/-! ## The blanks of a text -/

/-- The text of an expansion with arguments is made of the forms of some words of the template. -/
theorem exists_words_of_apply {p : Expander} {template : Text} {args : Value}
    {named : List (Text × Value)} (hnamed : args.namedValues = .ok named) {text : Text}
    (h : p.apply template args = .ok text) :
    ∃ ws : List Text, ws.Sublist template.words ∧
      text = Text.spaced (ws.map (formatted p.marker named)) := by
  obtain ⟨table, hfind, hrun⟩ := apply_eq_applyTable hnamed p template
  rw [hrun, applyTable_eq_ok_iff] at h
  obtain ⟨tree, hbuild, -, -, rfl⟩ := h
  exact ⟨tree.reached table.takes, reached_sublist_of_build hbuild _,
    by rw [Lookup.replace_eq_formatted hfind]⟩

/-- The form of a word is tidy when the texts of the values are. -/
theorem tidy_formatted (marker : Text) {named : List (Text × Value)}
    (h : ∀ entry ∈ named, ∀ t, entry.2.format = .ok t → Text.tidy t = t) {w : Text}
    (hw : Text.IsWord w) : Text.tidy (formatted marker named w) = formatted marker named w := by
  cases htext : valueText? marker named w with
  | none =>
      rw [formatted, htext]
      exact Text.tidy_of_isWord hw
  | some t =>
      obtain ⟨v, hvalue, hformat⟩ := Option.bind_eq_some_iff.mp htext
      obtain ⟨name, hmem⟩ := exists_mem_of_valueOf? hvalue
      rw [formatted, htext]
      exact h _ hmem t (eq_ok_of_toOption hformat)

/-- **Tidy values give tidy texts.** When the text of every value is tidy, which an empty one is, so
is the text of an expansion: it does not start or end with a blank, no blank follows another one,
and all blanks are spaces. -/
theorem apply_tidies (p : Expander) (template : Text) {args : Value}
    {named : List (Text × Value)} (hnamed : args.namedValues = .ok named)
    (hvalues : ∀ entry ∈ named, ∀ t, entry.2.format = .ok t → Text.tidy t = t) {text : Text}
    (h : p.apply template args = .ok text) : Text.tidy text = text ∧ Text.SinglySpaced text := by
  obtain ⟨ws, hsub, rfl⟩ := exists_words_of_apply hnamed h
  have hforms : (ws.map (formatted p.marker named)).map Text.tidy =
      ws.map (formatted p.marker named) := by
    rw [List.map_map]
    refine List.map_congr_left fun w hw => ?_
    exact tidy_formatted p.marker hvalues (Text.isWord_of_mem_words (hsub.subset hw))
  have htidy : Text.tidy (Text.spaced (ws.map (formatted p.marker named))) =
      Text.spaced (ws.map (formatted p.marker named)) := by
    rw [Text.tidy_spaced, hforms]
  exact ⟨htidy, (Text.tidy_eq_self_iff _).mp htidy⟩

/-- An empty value at both ends, a scope that comes out empty, and a value of two words. -/
theorem apply_tidies_of_empty_values :
    let template : Text :=
      " .e a\t\x7b\x7b [if] .c [then] b \x7d\x7d \x7b\x7b .e .e \x7d\x7d\u00a0.v\n.e".toList
    let named : List (Text × Value) :=
      [("e".toList, .text []), ("c".toList, .bool false), ("v".toList, .text "x y".toList)]
    let args : Value := .map false (named.map fun (name, v) => (.text name, v))
    let text : Text := "a x y".toList
    (∀ entry ∈ named, ∀ t, entry.2.format = .ok t → Text.tidy t = t) ∧
      (apply {} template args).toOption = some text ∧
      Text.tidy text = text ∧ Text.SinglySpaced text := by
  intro template named args text
  have htidy : ∀ entry ∈ named, (entry.2.format.map Text.tidy).toOption = entry.2.format.toOption :=
    by decide +kernel
  have hvalues : ∀ entry ∈ named, ∀ t, entry.2.format = .ok t → Text.tidy t = t := by
    intro entry hentry t ht
    have hsame := htidy entry hentry
    rw [ht] at hsame
    exact Option.some.inj hsame
  have hrun : (apply {} template args).toOption = some text := by decide +kernel
  exact ⟨hvalues, hrun, apply_tidies {} template rfl hvalues (eq_ok_of_toOption hrun)⟩

end Expander

end SqlTemplate
