import SqlTemplate.Proofs.Expander.Stages
import SqlTemplate.Proofs.Node.Renaming
import SqlTemplate.Proofs.Value.Texts

set_option autoImplicit false

/-! # Two expansions of one template

Values decide the text of an expansion and nothing else about it, as long as they have texts
themselves. Two expansions of a template whose arguments agree on the words of the predicates fail
alike, or they put together the same words of the template in the same order, each in the form that
its own arguments give it (`Expander.apply_two_runs`). A value may contain reserved words,
delimiters, keys or blanks: none of them is read again. What can set the two expansions apart is a
value that cannot be written, because it has no text or because it holds values inside values too
deeply (`Expander.FailsForValue`).

Every predicate is checked, whether its branch is taken or not. So arguments that hold flags
wherever a predicate asks for one of them can be exchanged for others under the same names, and the
expansion fails alike or succeeds alike (`Expander.apply_fails_alike`).
-/

namespace SqlTemplate

namespace Expander

/-- The words of a tree that was built are words of the template, in the same order. -/
theorem sublist_words_of_build {p : Expander} {template : Text} {tree : Node Empty}
    (h : p.build template = .ok tree) : tree.words.Sublist template.words := by
  have hsub := tree.words_sublist_plainWords
  rw [plainWords_of_build h] at hsub
  exact hsub.trans List.filter_sublist

/-- And so are the words among them that are reached. -/
theorem reached_sublist_of_build {p : Expander} {template : Text} {tree : Node Empty}
    (h : p.build template = .ok tree) (takes : List Text → Bool) :
    (tree.reached takes).Sublist template.words :=
  (tree.reached_sublist_words takes).trans (sublist_words_of_build h)

/-- Tables in which the same values stand for the words of a tree are the same for its template. -/
theorem applyTable_congr {p : Expander} {template : Text} {tree : Node Empty}
    (hbuild : p.build template = .ok tree) {tableA tableB : Lookup}
    (h : ∀ w ∈ tree.words, tableA.find? w = tableB.find? w) :
    p.applyTable template tableA = p.applyTable template tableB := by
  have hresolve : ∀ w ∈ tree.words, tableA.resolve w = tableB.resolve w :=
    fun w hw => Lookup.resolve_congr (h w hw)
  have hreplace : ∀ w ∈ tree.words, tableA.replace w = tableB.replace w := by
    intro w hw
    rw [Lookup.replace, Lookup.replace, hresolve w hw]
  have hagree : tree.AgreeOnPredicates tableA tableB :=
    fun q hq w hw => hreplace w (Node.mem_words_of_mem_predicates hq hw)
  rw [applyTable_of_build hbuild, applyTable_of_build hbuild, Node.substitutionCalls_congr hresolve,
    Node.stop?_congr hresolve, hagree.reached_eq,
    List.map_congr_left fun w hw => hreplace w ((tree.reached_sublist_words _).subset hw)]

/-- Whether an expansion fails for the values that it is given: a word of the template stands for
one that has no text, or the calls that put the values in their places nest more deeply than there
is room for. -/
inductive FailsForValue (p : Expander) (template : Text) (named : List (Text × Value)) :
    Except ExpansionError Text → Prop where
  | noText {w : Text} {v : Value} {fault : FormatFault} (hword : w ∈ template.words)
      (hvalue : valueOf? p.marker named w = some v) (hfault : v.format = .error fault) :
      FailsForValue p template named (.error (.noText fault))
  | tooDeep {tree : Node Empty} {table : Lookup} (hbuild : p.build template = .ok tree)
      (htable : table.find? = valueOf? p.marker named)
      (hroom : p.room < tree.substitutionCalls table) :
      FailsForValue p template named (.error (.stage (.exhausted .arguments)))

section

variable {p : Expander} {template : Text} {tree : Node Empty} {named : List (Text × Value)}
  {table : Lookup}

/-- The outcome of an expansion is that of its values, or the reason why the substitution stops, or
the reached words. -/
theorem failsForValue_or_eq (hbuild : p.build template = .ok tree)
    (htable : table.find? = valueOf? p.marker named) :
    FailsForValue p template named (p.applyTable template table) ∨
      p.applyTable template table =
        match tree.stop? table with
        | some e => .error (.ofSubstitution e)
        | none => .ok (Text.spaced ((tree.reached table.takes).map table.replace)) := by
  rw [applyTable_of_build hbuild]
  split
  · rename_i hroom
    exact Or.inl (.tooDeep hbuild htable hroom)
  · exact Or.inr rfl

/-- A substitution that stops for a value without a text fails for this value. -/
theorem failsForValue_of_stop (hbuild : p.build template = .ok tree)
    (htable : table.find? = valueOf? p.marker named) {fault : FormatFault}
    (hstop : tree.stop? table = some (.noText fault)) :
    FailsForValue p template named (p.applyTable template table) := by
  rcases failsForValue_or_eq hbuild htable with hfails | heq
  · exact hfails
  · obtain ⟨w, hword, hfault⟩ := Node.exists_word_of_stop? hstop
    obtain ⟨⟨v, hvalue, hformat⟩, -⟩ := Lookup.exists_of_fault? hfault
    rw [heq, hstop]
    exact .noText ((sublist_words_of_build hbuild).subset hword) (htable ▸ hvalue) hformat

end

/-- Two expansions of a template whose substitutions stop alike. -/
theorem applyTable_two_tables {p : Expander} {template : Text} {tree : Node Empty}
    (hbuild : p.build template = .ok tree) {namedA namedB : List (Text × Value)}
    {tableA tableB : Lookup} (hA : tableA.find? = valueOf? p.marker namedA)
    (hB : tableB.find? = valueOf? p.marker namedB)
    (halike : Node.StopsAlike (tree.stop? tableA) (tree.stop? tableB)) :
    FailsForValue p template namedA (p.applyTable template tableA) ∨
      FailsForValue p template namedB (p.applyTable template tableB) ∨
      (∃ e, p.applyTable template tableA = .error e ∧ p.applyTable template tableB = .error e) ∨
      (p.applyTable template tableA =
          .ok (Text.spaced ((tree.reached tableA.takes).map tableA.replace)) ∧
        p.applyTable template tableB =
          .ok (Text.spaced ((tree.reached tableB.takes).map tableB.replace))) := by
  rcases halike with ⟨fault, hstop⟩ | ⟨fault, hstop⟩ | hstop
  · exact Or.inl (failsForValue_of_stop hbuild hA hstop)
  · exact Or.inr (Or.inl (failsForValue_of_stop hbuild hB hstop))
  · rcases failsForValue_or_eq hbuild hA with hfails | heqA
    · exact Or.inl hfails
    rcases failsForValue_or_eq hbuild hB with hfails | heqB
    · exact Or.inr (Or.inl hfails)
    refine Or.inr (Or.inr ?_)
    rw [heqA, heqB, hstop]
    cases tree.stop? tableB with
    | some e => exact Or.inl ⟨_, rfl, rfl⟩
    | none => exact Or.inr ⟨rfl, rfl⟩

/-- **Two runs of one template.** When the arguments of both agree on the words of the predicates,
one of the runs fails for its values, or both fail with the same error, or both spell out the same
words of the template. When the same values stand for every word of the template, the two runs are
the same. -/
theorem apply_two_runs (p : Expander) (template : Text) {argsA argsB : Value}
    {namedA namedB : List (Text × Value)} (hA : argsA.namedValues = .ok namedA)
    (hB : argsB.namedValues = .ok namedB) :
    ((∀ tree, p.build template = .ok tree → ∀ q ∈ tree.predicates, ∀ w ∈ q,
        valueText? p.marker namedA w = valueText? p.marker namedB w) →
      FailsForValue p template namedA (p.apply template argsA) ∨
      FailsForValue p template namedB (p.apply template argsB) ∨
      (∃ e, p.apply template argsA = .error e ∧ p.apply template argsB = .error e) ∨
      ∃ ws : List Text, ws.Sublist template.words ∧
        p.apply template argsA = .ok (Text.spaced (ws.map (formatted p.marker namedA))) ∧
        p.apply template argsB = .ok (Text.spaced (ws.map (formatted p.marker namedB)))) ∧
    ((∀ w ∈ template.words, valueOf? p.marker namedA w = valueOf? p.marker namedB w) →
      p.apply template argsA = p.apply template argsB) := by
  obtain ⟨tableA, hfindA, hrunA⟩ := apply_eq_applyTable hA p template
  obtain ⟨tableB, hfindB, hrunB⟩ := apply_eq_applyTable hB p template
  have hreplaceA := Lookup.replace_eq_formatted hfindA
  have hreplaceB := Lookup.replace_eq_formatted hfindB
  -- what remains is about the two tables
  rw [hrunA, hrunB]
  cases hbuild : p.build template with
  | error e =>
      rw [applyTable_of_build_error hbuild, applyTable_of_build_error hbuild]
      exact ⟨fun _ => Or.inr (Or.inr (Or.inl ⟨_, rfl, rfl⟩)), fun _ => rfl⟩
  | ok tree =>
      constructor
      · intro hagree
        have hpredicates : tree.AgreeOnPredicates tableA tableB := by
          intro q hq w hw
          rw [hreplaceA, hreplaceB, formatted, formatted, hagree tree rfl q hq w hw]
        rcases applyTable_two_tables hbuild hfindA hfindB hpredicates.stopsAlike with
          hfails | hfails | hsame | ⟨htextA, htextB⟩
        · exact Or.inl hfails
        · exact Or.inr (Or.inl hfails)
        · exact Or.inr (Or.inr (Or.inl hsame))
        · refine Or.inr (Or.inr (Or.inr ⟨_, reached_sublist_of_build hbuild tableA.takes, ?_, ?_⟩))
          · rw [htextA, hreplaceA]
          · rw [htextB, hpredicates.reached_eq, hreplaceB]
      · intro hagree
        refine applyTable_congr hbuild fun w hw => ?_
        rw [hfindA, hfindB, hagree w ((sublist_words_of_build hbuild).subset hw)]

/-- The values of `.x` look like the end of a scope and like an else clause, and neither is read
as one. -/
theorem apply_two_runs_of_reserved_values :
    let template : Text := "[if] .c [then] a .x [else] b".toList
    let namedA : List (Text × Value) :=
      [("c".toList, .bool true), ("x".toList, .text "\x7d\x7d".toList)]
    let namedB : List (Text × Value) :=
      [("x".toList, .text "[else] .c".toList), ("c".toList, .text "true".toList)]
    let args (named : List (Text × Value)) : Value :=
      .map false (named.map fun (name, v) => (.text name, v))
    let apply (named : List (Text × Value)) := ({} : Expander).apply template (args named)
    (apply namedA).toOption = some "a \x7d\x7d".toList ∧
      (apply namedB).toOption = some "a [else] .c".toList ∧
      (FailsForValue {} template namedA (apply namedA) ∨
        FailsForValue {} template namedB (apply namedB) ∨
        (∃ e, apply namedA = .error e ∧ apply namedB = .error e) ∨
        ∃ ws : List Text, ws.Sublist (Text.words template) ∧
          apply namedA = .ok (Text.spaced (ws.map (formatted ".".toList namedA))) ∧
          apply namedB = .ok (Text.spaced (ws.map (formatted ".".toList namedB)))) := by
  refine ⟨by decide +kernel, by decide +kernel, ?_⟩
  refine (apply_two_runs {} _ rfl rfl).1 fun tree ht q hq w hw => ?_
  have hpredicates : (build {} "[if] .c [then] a .x [else] b".toList).toOption.map
      Node.predicates = some [[".c".toList]] := by decide +kernel
  rw [ht] at hpredicates
  obtain rfl : q = [".c".toList] := by
    rw [Option.some.inj hpredicates, List.mem_singleton] at hq
    exact hq
  obtain rfl := List.mem_singleton.mp hw
  rfl

/-- A word of a template without conditionals fails the expansion when its value has no text. -/
theorem apply_eq_noText {p : Expander} {template : Text} {args : Value}
    {named : List (Text × Value)} (hnamed : args.namedValues = .ok named) {w : Text}
    (hbuild : p.build template = .ok (.sequence [.literal w])) {v : Value} {fault : FormatFault}
    (hvalue : valueOf? p.marker named w = some v) (hfault : v.format = .error fault)
    (hroom : v.write.calls + 2 ≤ p.room) : p.apply template args = .error (.noText fault) := by
  obtain ⟨table, hfind, hrun⟩ := apply_eq_applyTable hnamed p template
  have hresolve : table.resolve w = v.write := Lookup.resolve_of_find? (by rw [hfind, hvalue])
  have hstop : Node.stop? table (.sequence [.literal w] : Node Empty) = some (.noText fault) := by
    have hword := (Lookup.fault?_eq_some_iff table w fault).mpr (by rw [hresolve]; exact hfault)
    simp [Node.stop?, Node.nodes, Node.nodesAll, List.findSome?_cons, Node.ownStop?, hword]
  have hcalls : Node.substitutionCalls table (.sequence [.literal w] : Node Empty) =
      v.write.calls + 2 := by
    have hliteral : Node.stop? table (.literal w : Node Empty) = some (.noText fault) := hstop
    rw [Node.substitutionCalls, Node.substitutionCallsAll_cons, hliteral, Node.substitutionCalls,
      hresolve]
    rfl
  rw [hrun, applyTable_of_build hbuild, hcalls, if_neg (Nat.not_lt.mpr hroom), hstop]
  rfl

theorem apply_int_eq_noText {p : Expander} {template : Text} {args : Value}
    {named : List (Text × Value)} (hnamed : args.namedValues = .ok named) {w : Text}
    (hbuild : p.build template = .ok (.sequence [.literal w])) {k : Nat}
    (hvalue : valueOf? p.marker named w = some (.int (10 ^ k))) (hdigits : Decimal.maxDigits ≤ k)
    (hroom : 5 ≤ p.room) : p.apply template args = .error (.noText .tooManyDigits) := by
  refine apply_eq_noText hnamed hbuild hvalue (Value.format_pow_eq_error hdigits) ?_
  rw [Value.write_calls_int]
  exact hroom

/-- The template has no predicate, so the arguments agree on all of them. The value in the first run
has too many digits. -/
theorem apply_two_runs_apart_for_digits :
    let template : Text := ".x".toList
    let args (v : Value) : Value := .map false [(.text "x".toList, v)]
    let apply (v : Value) := ({} : Expander).apply template (args v)
    (∀ tree, build {} template = .ok tree → tree.predicates = []) ∧
      apply (.int (10 ^ 5000)) = .error (.noText .tooManyDigits) ∧
      apply (.int 1) = .ok "1".toList := by
  intro template args apply
  have hbuild : build {} template = .ok (.sequence [.literal ".x".toList]) := rfl
  refine ⟨fun tree htree => ?_, ?_, eq_ok_of_toOption (by decide +kernel)⟩
  · obtain rfl := Except.ok.inj (hbuild.symm.trans htree)
    rfl
  · exact apply_int_eq_noText rfl hbuild rfl (by decide) (by decide)

/-! ## Other flags

Values that are read in a predicate select branches. Which of them are taken changes the text, but
not whether there is one: the predicates in branches that are not taken are read all the same. -/

/-- Whether each value that a word in a predicate of a tree stands for has a word for true or false
as its text. -/
def HoldsFlags (marker : Text) (named : List (Text × Value)) (tree : Node Empty) : Prop :=
  ∀ q ∈ tree.predicates, ∀ w ∈ q, ∀ v, valueOf? marker named w = some v →
    ∃ t, v.format = .ok t ∧ (Text.lower t = "true".toList ∨ Text.lower t = "false".toList)

/-- A predicate of one word that holds a flag is accepted. -/
theorem HoldsFlags.substitutePredicate_snd {marker : Text} {named : List (Text × Value)}
    {tree : Node Empty} (h : HoldsFlags marker named tree) {table : Lookup}
    (htable : table.find? = valueOf? marker named) {w : Text} {v : Value}
    (hq : [w] ∈ tree.predicates) (hw : valueOf? marker named w = some v) :
    (substitutePredicate table [w] : Substituted (List Text) Empty).2 = none := by
  obtain ⟨t, hformat, htruth⟩ := h [w] hq w (List.mem_cons_self ..) v hw
  have hresult : (table.resolve w).result = .ok t := by
    rwa [Lookup.resolve_of_find? (by rw [htable, hw])]
  rw [substitutePredicate_snd_eq_none_iff, isSome_truthOf?_iff]
  refine ⟨⟨w, rfl, ?_⟩, List.forall_mem_singleton.mpr ?_⟩
  · rwa [Lookup.replace_of_ok hresult]
  · exact (Lookup.fault?_eq_none_iff table w).mpr ⟨t, hresult⟩

/-- With flags under the same names, substitutions stop alike. -/
theorem HoldsFlags.stopsAlike {marker : Text} {namedA namedB : List (Text × Value)}
    {tree : Node Empty} (hA : HoldsFlags marker namedA tree) (hB : HoldsFlags marker namedB tree)
    (hnames : ∀ name, name ∈ namedA.map Prod.fst ↔ name ∈ namedB.map Prod.fst)
    {tableA tableB : Lookup} (hfindA : tableA.find? = valueOf? marker namedA)
    (hfindB : tableB.find? = valueOf? marker namedB) :
    Node.StopsAlike (tree.stop? tableA) (tree.stop? tableB) := by
  refine Node.stopsAlike_of_predicates fun q hq => ?_
  match q, hq with
  | [], _ => exact Or.inr (Or.inr rfl)
  | v :: w :: ws, _ => exact Or.inr (Or.inr rfl)
  | [w], hq =>
      -- a word is a key of both tables or of none
      have hkey : valueOf? marker namedA w = none ↔ valueOf? marker namedB w = none := by
        simp only [valueOf?_eq_none_iff, hnames]
      cases hwA : valueOf? marker namedA w with
      | none =>
          have hwB := hkey.mp hwA
          refine Node.stopsAlike_singleton ?_
          rw [Lookup.replace_eq_getD, Lookup.replace_eq_getD, hfindA, hfindB, hwA, hwB]
      | some vA =>
          cases hwB : valueOf? marker namedB w with
          | none =>
              rw [hkey.mpr hwB] at hwA
              cases hwA
          | some vB =>
              refine Or.inr (Or.inr ?_)
              rw [hA.substitutePredicate_snd hfindA hq hwA,
                hB.substitutePredicate_snd hfindB hq hwB]

/-- **Flags do not decide whether a template expands.** When two runs are given the same names, and
each of them holds a word for true or false wherever a predicate asks for it, one of the runs fails
for its values, or both runs give a text, or both fail with the same error. -/
theorem apply_fails_alike (p : Expander) (template : Text) {argsA argsB : Value}
    {namedA namedB : List (Text × Value)} (hA : argsA.namedValues = .ok namedA)
    (hB : argsB.namedValues = .ok namedB)
    (hnames : ∀ name, name ∈ namedA.map Prod.fst ↔ name ∈ namedB.map Prod.fst)
    (hflags : ∀ tree, p.build template = .ok tree →
      HoldsFlags p.marker namedA tree ∧ HoldsFlags p.marker namedB tree) :
    FailsForValue p template namedA (p.apply template argsA) ∨
      FailsForValue p template namedB (p.apply template argsB) ∨
      (∃ e, p.apply template argsA = .error e ∧ p.apply template argsB = .error e) ∨
      ∃ textA textB, p.apply template argsA = .ok textA ∧ p.apply template argsB = .ok textB := by
  obtain ⟨tableA, hfindA, hrunA⟩ := apply_eq_applyTable hA p template
  obtain ⟨tableB, hfindB, hrunB⟩ := apply_eq_applyTable hB p template
  rw [hrunA, hrunB]
  cases hbuild : p.build template with
  | error e =>
      rw [applyTable_of_build_error hbuild, applyTable_of_build_error hbuild]
      exact Or.inr (Or.inr (Or.inl ⟨_, rfl, rfl⟩))
  | ok tree =>
      obtain ⟨hflagsA, hflagsB⟩ := hflags tree hbuild
      have halike := hflagsA.stopsAlike hflagsB hnames hfindA hfindB
      rcases applyTable_two_tables hbuild hfindA hfindB halike with
        hfails | hfails | hsame | ⟨htextA, htextB⟩
      · exact Or.inl hfails
      · exact Or.inr (Or.inl hfails)
      · exact Or.inr (Or.inr (Or.inl hsame))
      · exact Or.inr (Or.inr (Or.inr ⟨_, _, htextA, htextB⟩))

/-- The two runs take different branches, and the predicate `maybe` stands in a branch that only the
second run takes. Neither run fails for a value, and both fail because of this predicate. -/
theorem apply_fails_alike_of_untaken_predicate :
    let template : Text :=
      "[if] .c [then] a [else] \x7b\x7b [if] maybe [then] b \x7d\x7d".toList
    let namedA : List (Text × Value) := [("c".toList, .bool true), ("x".toList, .int 1)]
    let namedB : List (Text × Value) := [("x".toList, .none), ("c".toList, .text "FALSE".toList)]
    let args (named : List (Text × Value)) : Value :=
      .map false (named.map fun (name, v) => (.text name, v))
    let refused : Except ExpansionError Text :=
      .error (.stage (.predicate (.notTruth "maybe".toList)))
    apply {} template (args namedA) = refused ∧ apply {} template (args namedB) = refused ∧
      (FailsForValue {} template namedA (apply {} template (args namedA)) ∨
        FailsForValue {} template namedB (apply {} template (args namedB)) ∨
        (∃ e, apply {} template (args namedA) = .error e ∧
          apply {} template (args namedB) = .error e) ∨
        ∃ textA textB, apply {} template (args namedA) = .ok textA ∧
          apply {} template (args namedB) = .ok textB) := by
  intro template namedA namedB args refused
  have hpredicates : (build {} template).toOption.map Node.predicates =
      some [[".c".toList], ["maybe".toList]] := by decide +kernel
  have hA : (args namedA).namedValues = .ok namedA := rfl
  have hB : (args namedB).namedValues = .ok namedB := rfl
  have hrefusedA : apply {} template (args namedA) = refused :=
    eq_error_of_errorOf? (by decide +kernel)
  have hrefusedB : apply {} template (args namedB) = refused :=
    eq_error_of_errorOf? (by decide +kernel)
  refine ⟨hrefusedA, hrefusedB,
    apply_fails_alike {} template hA hB (by simp [namedA, namedB, or_comm]) fun tree ht => ?_⟩
  rw [ht] at hpredicates
  have hvalueA : valueOf? ".".toList namedA ".c".toList = some (.bool true) := rfl
  have hvalueB : valueOf? ".".toList namedB ".c".toList = some (.text "FALSE".toList) := rfl
  have hmaybeA : valueOf? ".".toList namedA "maybe".toList = Option.none := rfl
  have hmaybeB : valueOf? ".".toList namedB "maybe".toList = Option.none := rfl
  rw [HoldsFlags, HoldsFlags, Option.some.inj hpredicates]
  simp only [List.forall_mem_cons, List.not_mem_nil, false_implies, implies_true, and_true, hvalueA,
    hvalueB, hmaybeA, hmaybeB, Option.some.injEq, reduceCtorEq, forall_eq']
  exact ⟨⟨_, rfl, by decide⟩, ⟨_, rfl, by decide⟩⟩

/-- The names are the same, and no predicate asks for one of them. The value in the first run has
too many digits. -/
theorem apply_fails_apart_for_digits :
    let template : Text := ".x".toList
    let args (v : Value) : Value := .map false [(.text "x".toList, v)]
    let apply (v : Value) := ({} : Expander).apply template (args v)
    (∀ tree, build {} template = .ok tree → tree.predicates = []) ∧
      apply (.int (10 ^ 5000)) = .error (.noText .tooManyDigits) ∧
      apply (.text []) = .ok [] := by
  intro template args apply
  have hbuild : build {} template = .ok (.sequence [.literal ".x".toList]) := rfl
  refine ⟨fun tree htree => ?_, ?_, eq_ok_of_toOption (by decide +kernel)⟩
  · obtain rfl := Except.ok.inj (hbuild.symm.trans htree)
    rfl
  · exact apply_int_eq_noText rfl hbuild rfl (by decide) (by decide)

end Expander

end SqlTemplate
