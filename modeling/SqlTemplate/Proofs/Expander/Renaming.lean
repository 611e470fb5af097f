import Mathlib.Data.List.Find
import SqlTemplate.Proofs.Expander.TwoRuns
import SqlTemplate.Proofs.Node.Renaming
import SqlTemplate.Proofs.Text.Words

set_option autoImplicit false

/-! # Other names for arguments

The names of arguments mean nothing in themselves. When words that are not reserved are changed
throughout a template, and the lookup table is changed so that the new words stand in it for what
the old words stood for, the expansion is the same (`Expander.applyTable_mapWords`). Renaming an
argument is such a change, provided that the new name is not in use: `Expander.apply_rename`.
-/

namespace SqlTemplate

/-- The error of a stage with other words in the predicate that it quotes, if it quotes one. -/
def StageError.mapWords (f : Text → Text) : StageError → StageError
  | .predicate e => .predicate (e.mapWords f)
  | e => e

/-- The error of an expansion with other words in the predicate that it quotes, if it quotes one.
Its stage and its cause are the same but for these words. -/
def ExpansionError.mapWords (f : Text → Text) : ExpansionError → ExpansionError
  | .stage e => .stage (e.mapWords f)
  | e => e

namespace Expander

/-! ## Any change of words -/

theorem treeOf_map {f : Text → Text} (hf : Keyword.KeptBy f) (p : Expander)
    (pieces : List Piece) :
    p.treeOf (pieces.map (Piece.mapWords f)) = (p.treeOf pieces).map (Node.mapWords f) := by
  rw [treeOf, treeOf, Node.readingCalls_map hf, Node.ofScope_map hf p.maxDepth pieces 0]
  split
  · rfl
  · cases (Node.ofScope p.maxDepth 0 pieces : Except ShapeError (Node Empty)) <;> rfl

/-- The tree of a template follows a change of its words. -/
theorem build_mapWords {f : Text → Text} (hf : Keyword.KeptBy f) (p : Expander)
    {template template' : Text} (hwords : template'.words = template.words.map f) :
    p.build template' = (p.build template).map (Node.mapWords f) := by
  rw [build, build, Reading.ofTemplate, Reading.ofTemplate, hwords, Reading.ofWords_map hf]
  cases Reading.ofWords p.strict template.words with
  | error e => rfl
  | ok r =>
      simp only [Except.map, Reading.mapWords, treeOf_map hf]

/-- Before there is a tree, no predicate is at fault. -/
theorem build_ne_predicate (p : Expander) (template : Text) (e : PredicateError) :
    p.build template ≠ .error (.predicate e) := by
  rw [build]
  cases Reading.ofTemplate p.strict template with
  | error reason => simp
  | ok r =>
      intro h
      rcases treeOf_eq_error h with h | ⟨reason, h⟩ <;> cases h

/-- **Changing words together with the lookup table** changes at most the words that an error
quotes. -/
theorem applyTable_mapWords {f : Text → Text} (hf : Keyword.KeptBy f) (p : Expander)
    {template template' : Text} (hwords : template'.words = template.words.map f)
    {table table' : Lookup} (h : ∀ w ∈ template.words, table'.resolve (f w) = table.resolve w) :
    p.applyTable template' table' =
      (p.applyTable template table).mapError (ExpansionError.mapWords f) := by
  have hbuild := build_mapWords hf p hwords
  cases hb : p.build template with
  | error e =>
      rw [hb] at hbuild
      rw [applyTable_of_build_error hbuild, applyTable_of_build_error hb]
      -- only the errors of predicates quote words
      have hquoted : e.mapWords f = e := by
        cases e with
        | predicate reason => exact absurd hb (build_ne_predicate p template reason)
        | _ => rfl
      exact congrArg (fun e => Except.error (ExpansionError.stage e)) hquoted.symm
  | ok tree =>
      rw [hb] at hbuild
      have htree : ∀ w ∈ tree.words, table'.resolve (f w) = table.resolve w :=
        fun w hw => h w ((sublist_words_of_build hb).subset hw)
      rw [applyTable_of_build hbuild, applyTable_of_build hb, Node.stop?_mapWords htree,
        Node.substitutionCalls_mapWords htree]
      split
      · rfl
      · cases hstop : tree.stop? table with
        | some e =>
            cases e with
            | foreign x => exact x.elim
            | _ => rfl
        | none =>
            have hfaults := ((Node.stop?_eq_none_iff table tree).mp hstop).2
            have hreplace : ∀ w ∈ tree.words, table'.replace (f w) = table.replace w :=
              fun w hw => Lookup.replace_map (htree w hw) (hfaults w hw)
            have htakes :
                tree.reached (fun q => table'.takes (q.map f)) = tree.reached table.takes :=
              Node.reached_congr fun q hq => Lookup.takes_map fun w hw =>
                hreplace w (Node.mem_words_of_mem_predicates hq hw)
            have hreached : ((tree.mapWords f).reached table'.takes).map table'.replace =
                (tree.reached table.takes).map table.replace := by
              rw [Node.reached_mapWords, htakes, List.map_map]
              exact List.map_congr_left fun w hw =>
                hreplace w ((tree.reached_sublist_words _).subset hw)
            simp only [Option.map_none, hreached]
            rfl

end Expander

/-! ## One other name -/

/-- Puts a text in the place of another one. -/
def rename (old new w : Text) : Text := if w = old then new else w

/-- Names and values with another name in the place of a name. -/
def renamed (old new : Text) (named : List (Text × Value)) : List (Text × Value) :=
  named.map fun (name, v) => (rename old new name, v)

theorem Keyword.keptBy_rename {old new : Text} (hold : Keyword.isReserved old = false)
    (hnew : Keyword.isReserved new = false) : Keyword.KeptBy (rename old new) := by
  intro w k
  rw [rename]
  split
  · rename_i hw
    -- neither word is reserved
    have hne : new ≠ k.text := ne_of_not_isReserved hnew k
    have hne' : w ≠ k.text := hw ▸ ne_of_not_isReserved hold k
    exact iff_of_false hne hne'
  · exact Iff.rfl

theorem Text.isWord_rename {old new : Text} (hnew : Text.IsWord new) {w : Text}
    (hw : Text.IsWord w) : Text.IsWord (rename old new w) := by
  rw [rename]
  split
  · exact hnew
  · exact hw

section

variable {marker old new : Text} {named : List (Text × Value)}

/-- A name behind the marker is renamed as the word that it is. -/
theorem rename_append_eq_iff {name w : Text} (hname : name ≠ new) (hw : w ≠ marker ++ new) :
    marker ++ rename old new name = rename (marker ++ old) (marker ++ new) w ↔
      marker ++ name = w := by
  by_cases hold : name = old
  · by_cases hkey : w = marker ++ old
    · simp [rename, hold, hkey]
    · simp [rename, hold, hkey, Ne.symm hw, Ne.symm hkey]
  · by_cases hkey : w = marker ++ old
    · simp [rename, hold, hkey, hname]
    · simp [rename, hold, hkey]

/-- The renamed word stands for the same value. -/
theorem valueOf?_renamed (hnew : new ∉ named.map Prod.fst) {w : Text} (hw : w ≠ marker ++ new) :
    valueOf? marker (renamed old new named) (rename (marker ++ old) (marker ++ new) w) =
      valueOf? marker named w := by
  have hfind : named.reverse.find? (fun entry =>
        marker ++ rename old new entry.1 == rename (marker ++ old) (marker ++ new) w) =
      named.reverse.find? fun entry => marker ++ entry.1 == w := by
    refine List.find?_congr fun entry hentry => ?_
    have hname : entry.1 ≠ new := by
      rintro rfl
      exact hnew (List.mem_map_of_mem (List.mem_reverse.mp hentry))
    rw [Bool.eq_iff_iff, beq_iff_eq, beq_iff_eq]
    exact rename_append_eq_iff hname hw
  rw [valueOf?, valueOf?, renamed, ← List.map_reverse, List.find?_map, Option.map_map, ← hfind]
  rfl

/-- The renamed word is looked up as the word was. -/
theorem Lookup.resolve_renamed {table table' : Lookup}
    (htable : table.find? = valueOf? marker named)
    (htable' : table'.find? = valueOf? marker (renamed old new named))
    (hold : old ∈ named.map Prod.fst) (hnew : new ∉ named.map Prod.fst) {w : Text}
    (hw : w ≠ marker ++ new) :
    table'.resolve (rename (marker ++ old) (marker ++ new) w) = table.resolve w := by
  have hfind : table'.find? (rename (marker ++ old) (marker ++ new) w) = table.find? w := by
    rw [htable, htable', valueOf?_renamed hnew hw]
  cases hvalue : table.find? w with
  | some v => rw [resolve_of_find? hvalue, resolve_of_find? (hfind.trans hvalue)]
  | none =>
      -- a word that stands for no value is not the old name
      have hkey : w ≠ marker ++ old := by
        rintro rfl
        rw [htable] at hvalue
        exact (valueOf?_eq_none_iff marker named _).mp hvalue old hold rfl
      have hrename : rename (marker ++ old) (marker ++ new) w = w := if_neg hkey
      rw [hrename] at hfind ⊢
      exact resolve_congr hfind

end

namespace Expander

/-- **Renaming an argument changes nothing.** When a name of the arguments is changed to one that is
not in use, and the words that ask for it are changed throughout the template, the expansion gives
the same text or fails with the same error, up to the words that the error quotes. -/
theorem apply_rename {marker : Text} {strict : Bool} {maxDepth : Int} {room : Nat} {p : Expander}
    (hp : create marker strict maxDepth room = .ok p) (template : Text) {args args' : Value}
    {named : List (Text × Value)} {old new : Text} (hargs : args.namedValues = .ok named)
    (hargs' : args'.namedValues = .ok (renamed old new named))
    (hold : old ∈ named.map Prod.fst) (hnew : new ∉ named.map Prod.fst)
    (hblank : ∀ c ∈ marker ++ new, Text.isBlank c = false)
    (hfresh : marker ++ new ∉ template.words)
    (holdPlain : Keyword.isReserved (marker ++ old) = false)
    (hnewPlain : Keyword.isReserved (marker ++ new) = false) :
    p.apply (template.mapWords (rename (marker ++ old) (marker ++ new))) args' =
      (p.apply template args).mapError
        (ExpansionError.mapWords (rename (marker ++ old) (marker ++ new))) := by
  have hmarker : marker ≠ [] := by
    rintro rfl
    cases hp
  obtain rfl := create_eq_ok hp
  have hword : Text.IsWord (marker ++ new) :=
    ⟨fun h => hmarker (List.append_eq_nil_iff.mp h).1, hblank⟩
  obtain ⟨table, htable, hrun⟩ := apply_eq_applyTable hargs _ template
  obtain ⟨table', htable', hrun'⟩ := apply_eq_applyTable hargs' _
    (template.mapWords (rename (marker ++ old) (marker ++ new)))
  rw [hrun, hrun']
  refine applyTable_mapWords (Keyword.keptBy_rename holdPlain hnewPlain) _
    (Text.words_mapWords (fun w hw => Text.isWord_rename hword hw) template) fun w hw => ?_
  have hne : w ≠ marker ++ new := fun h => hfresh (h ▸ hw)
  exact Lookup.resolve_renamed htable htable' hold hnew hne

/-- Under the marker `t` the name `rue` is asked for by the word `true`, in a predicate and in a
text. Its new name is `x`. -/
theorem apply_rename_of_truth_word :
    let template : Text := "[if] true [then]\t\x7b\x7b a true \x7d\x7d [else] b".toList
    let template' : Text := "[if] tx [then]\t\x7b\x7b a tx \x7d\x7d [else] b".toList
    let args (name : Text) : Value := .map false [(.text name, .text "TRUE".toList)]
    ∃ p, create "t".toList true 200 = .ok p ∧
      (p.apply template (args "rue".toList)).toOption = some "a TRUE".toList ∧
      template.mapWords (rename "true".toList "tx".toList) = template' ∧
      p.apply template' (args "x".toList) =
        (p.apply template (args "rue".toList)).mapError
          (ExpansionError.mapWords (rename "true".toList "tx".toList)) := by
  intro template template' args
  have hwords : template.mapWords (rename "true".toList "tx".toList) = template' := by decide
  refine ⟨{ marker := "t".toList }, rfl, by decide +kernel, hwords, ?_⟩
  rw [← hwords]
  let named : List (Text × Value) := [("rue".toList, .text "TRUE".toList)]
  have hp : create "t".toList true 200 = .ok { marker := "t".toList } := rfl
  have hargs : (args "rue".toList).namedValues = .ok named := rfl
  have hargs' : (args "x".toList).namedValues = .ok (renamed "rue".toList "x".toList named) := rfl
  have hblank : ∀ c ∈ "t".toList ++ "x".toList, Text.isBlank c = false :=
    List.forall_mem_cons.mpr ⟨by decide, List.forall_mem_singleton.mpr (by decide)⟩
  exact apply_rename hp template hargs hargs' (by decide) (by decide) hblank (by decide)
    (by decide) (by decide)

end Expander

end SqlTemplate
