import SqlTemplate.Proofs.Expander.Stages
import SqlTemplate.Proofs.Node.Live

set_option autoImplicit false

/-! # What a template means

The text of a template, read strictly, is made of its live words: `Expander.apply_eq_liveWords`
says so without any mention of scopes as pieces or of trees. The words are found by what stands in
front of them (`Words.Live`), each is given its form, and the forms are spaced.
-/

namespace SqlTemplate

namespace Expander

/-- The text of an expansion with a lookup table is that of the live words of the template. -/
theorem applyTable_eq_liveWords {p : Expander} (hs : p.strict = true) {template : Text}
    {table : Lookup} {text : Text} (h : p.applyTable template table = .ok text) :
    text = Text.spaced ((Words.liveWords table.replace template.words).map table.replace) := by
  obtain ⟨tree, hbuild, -, hstop, rfl⟩ := (applyTable_eq_ok_iff p template table text).mp h
  have hlive := Node.liveWords_pieces table (wellFormed_of_build hbuild)
    (undelimited_of_build hbuild) ((Node.stop?_eq_none_iff table tree).mp hstop).1
  rw [words_of_build hs hbuild] at hlive
  rw [hlive]

/-- **What a template means.** The text that a strict expander gives is made of the live words of
the template, in their order, each in its form and with single spaces between those forms that are
not empty. -/
theorem apply_eq_liveWords {marker : Text} {maxDepth : Int} {room : Nat} {p : Expander}
    (hp : create marker true maxDepth room = .ok p) {template : Text} {args : Value}
    {named : List (Text × Value)} (hnamed : args.namedValues = .ok named) {text : Text}
    (h : p.apply template args = .ok text) :
    text = Text.spaced ((Words.liveWords (formatted marker named) template.words).map
      (formatted marker named)) := by
  obtain rfl := create_eq_ok hp
  obtain ⟨table, hfind, hrun⟩ := apply_eq_applyTable hnamed _ template
  rw [hrun] at h
  have hlive := applyTable_eq_liveWords rfl h
  rwa [Lookup.replace_eq_formatted hfind] at hlive

/-- A conditional in the then clause of another one: its own else clause is live, the word `[if]`
and the value `[else]` in it are text, and the else clause around it is not live. -/
theorem apply_eq_liveWords_of_nested :
    let template : Text :=
      "[if] .c [then] a \x7b\x7b [if] .d [then] b [else] .x [if] \x7d\x7d [else] e".toList
    let named : List (Text × Value) :=
      [("c".toList, .bool true), ("d".toList, .bool false), ("x".toList, .text "[else]".toList)]
    let text : Text := "a [else] [if]".toList
    create ".".toList true 200 = .ok {} ∧
      (apply {} template (.map false (named.map fun (name, v) => (.text name, v)))).toOption =
        some text ∧
      text = Text.spaced ((Words.liveWords (formatted ".".toList named) (Text.words template)).map
        (formatted ".".toList named)) := by
  refine ⟨?setup, ?run, apply_eq_liveWords ?setup rfl (eq_ok_of_toOption ?run)⟩
  case setup => rfl
  case run => decide +kernel

end Expander

end SqlTemplate
