import SqlTemplate.Proofs.Expander.Stages
import SqlTemplate.Proofs.Node.Acceptance

set_option autoImplicit false

/-! # How an expansion can fail

An expansion with arguments gives a text, refuses the arguments, or fails in one of its stages, as
long as its values have texts and there is room for its calls. `Expander.apply_failures` says for
each of these when it happens, in terms of what goes into the stage: the arguments themselves
(`Value.AreArguments`), the reading of the template, the rules for scopes (`Piece.Accepted`), and
the predicates under the arguments (`ReadsTruth`).

`Expander.Runs` lists the ways in which such an expansion can go, each with the conditions under
which it goes this way, and `Expander.runs_apply` shows that there are no others.
That a predicate is never empty is a property of every tree that is read from a template
(`Node.WellFormed.predicates_ne_nil`).
-/

namespace SqlTemplate

/-! ## Arguments -/

/-- Whether a value can be used as arguments: a mapping with texts for keys, or a record. -/
def Value.AreArguments : Value → Prop
  | .map _ entries => ∀ entry ∈ entries, ∃ name, entry.1 = .text name
  | .record _ _ _ _ _ => True
  | _ => False

theorem Value.exists_namedEntries_iff (entries : List (Value × Value)) :
    (∃ named, namedEntries entries = .ok named) ↔
      ∀ entry ∈ entries, ∃ name, entry.1 = .text name := by
  induction entries with
  | nil => simp [namedEntries]
  | cons entry rest ih =>
      obtain ⟨k, v⟩ := entry
      rw [List.forall_mem_cons, ← ih]
      cases k with
      | text name =>
          simp only [namedEntries, bind_eq_ok_iff, pure_eq_ok_iff]
          constructor
          · rintro ⟨_, named, hrest, -⟩
            exact ⟨⟨name, rfl⟩, named, hrest⟩
          · rintro ⟨-, named, hrest⟩
            exact ⟨_, named, hrest, rfl⟩
      | _ => simp [namedEntries]

/-- A value can be used as arguments when it gives names with values. -/
theorem Value.exists_namedValues_iff (args : Value) :
    (∃ named, args.namedValues = .ok named) ↔ args.AreArguments := by
  cases args with
  | map readOnly entries => exact exists_namedEntries_iff entries
  | record kind name fields others own =>
      cases kind <;> simp [namedValues, Value.fields, AreArguments]
  | _ => simp [namedValues, fields, AreArguments]

theorem Value.areArguments_of_ok {args : Value} {named : List (Text × Value)}
    (h : args.namedValues = .ok named) : args.AreArguments :=
  (exists_namedValues_iff args).mp ⟨named, h⟩

theorem Value.not_areArguments_of_error {args : Value} {e : UnsupportedArgs}
    (h : args.namedValues = .error e) : ¬ args.AreArguments := by
  rw [← exists_namedValues_iff, h]
  simp

/-! ## Predicates -/

/-- Whether a predicate is one word whose form is a word for true or false, in any case. -/
def ReadsTruth (form : Text → Text) (predicate : List Text) : Prop :=
  ∃ w, predicate = [w] ∧
    (Text.lower (form w) = "true".toList ∨ Text.lower (form w) = "false".toList)

theorem isSome_truthOf?_iff_readsTruth (table : Lookup) (predicate : List Text) :
    (table.truthOf? predicate).isSome ↔ ReadsTruth table.replace predicate :=
  isSome_truthOf?_iff table predicate

namespace Node

variable {Foreign : Type}

/-- Whether a tree is one of those that stand in a tree read from a template. -/
def IsPart : Node Foreign → Prop
  | .literal _ => True
  | .conditional predicate a b => IsPredicate predicate ∧ a.IsClause ∧ IsElse b
  | .sequence children => AreScope children ∨ AreItems clauseWords children
  | .foreign _ => False

theorem WellFormed.isPart {n : Node Foreign} (h : n.WellFormed) : n.IsPart := by
  cases n with
  | sequence children => exact Or.inl h
  | _ => exact h.elim

theorem IsClause.isPart {n : Node Foreign} (h : n.IsClause) : n.IsPart := by
  obtain ⟨ns, rfl, hns⟩ := h.exists_sequence
  exact Or.inr hns

theorem AreItems.isPart {barred : List Text} {ns : List (Node Foreign)} (h : AreItems barred ns) :
    ∀ n ∈ ns, n.IsPart := by
  induction ns with
  | nil => simp
  | cons n ns ih =>
      obtain ⟨hn, hns⟩ := (areItems_cons_iff barred n ns).mp h
      refine List.forall_mem_cons.mpr ⟨?_, ih hns⟩
      cases n with
      | literal t => trivial
      | sequence children => exact Or.inl hn.1
      | conditional predicate a b => exact hn.elim
      | foreign x => exact hn.elim

theorem AreScope.isPart {ns : List (Node Foreign)} (h : AreScope ns) : ∀ n ∈ ns, n.IsPart := by
  match ns with
  | [] => simp
  | .literal t :: ns => exact List.forall_mem_cons.mpr ⟨trivial, AreItems.isPart h.2⟩
  | .sequence children :: ns =>
      exact List.forall_mem_cons.mpr ⟨Or.inl h.1, AreItems.isPart h.2⟩
  | .conditional predicate a b :: ns =>
      obtain ⟨rfl, hpart⟩ := h
      exact List.forall_mem_cons.mpr ⟨hpart, by simp⟩
  | .foreign x :: ns => exact h.elim

theorem mem_predicatesAll_iff (q : List Text) (ns : List (Node Foreign)) :
    q ∈ predicatesAll ns ↔ ∃ n ∈ ns, q ∈ n.predicates := by
  induction ns with
  | nil => simp [predicatesAll]
  | cons n ns ih => simp [predicatesAll, ih]

/-- No predicate in a part of a tree that is read is empty. -/
theorem IsPart.predicates_ne_nil {n : Node Foreign} (h : n.IsPart) :
    ∀ q ∈ n.predicates, q ≠ [] := by
  induction n with
  | literal t => simp [predicates]
  | foreign x => exact h.elim
  | conditional predicate a b iha ihb =>
      obtain ⟨⟨⟨w, ws, rfl, -⟩, -⟩, ha, hb⟩ := h
      have helse : ∀ q ∈ elsePredicates b, q ≠ [] := by
        cases b with
        | none => simp [elsePredicates]
        | some n => exact ihb n rfl (IsClause.isPart hb)
      intro q hq
      simp only [predicates, List.mem_cons, List.mem_append] at hq
      rcases hq with rfl | hq | hq
      · simp
      · exact iha ha.isPart q hq
      · exact helse q hq
  | sequence children ih =>
      intro q hq
      obtain ⟨n, hn, hq⟩ := (mem_predicatesAll_iff q children).mp (by simpa [predicates] using hq)
      exact ih n hn (h.elim (fun h => h.isPart n hn) fun h => h.isPart n hn) q hq

/-- A predicate that is refused is one of the tree that is no truth value, and the reason is that
it has several words or that its word is no truth value. -/
theorem WellFormed.refused {n : Node Foreign} (h : n.WellFormed) {table : Lookup}
    {e : PredicateError} (he : n.stop? table = some (.predicate e)) :
    (∃ q ∈ n.predicates, ¬ ReadsTruth table.replace q) ∧
      ((∃ ws, e = .several ws) ∨ ∃ w, e = .notTruth w) := by
  obtain ⟨m, hm, hown⟩ := List.exists_of_findSome?_eq_some he
  cases m with
  | literal t => simp [ownStop?] at hown
  | sequence children => cases hown
  | foreign x => cases hown
  | conditional q a b =>
      have hq : q ∈ n.predicates := (mem_predicates_iff q n).mpr ⟨a, b, hm⟩
      rw [ownStop?] at hown
      have hne := h.isPart.predicates_ne_nil q hq
      rcases q with _ | ⟨w, _ | ⟨v, ws⟩⟩
      · exact absurd rfl hne
      · simp only [substitutePredicate] at hown
        split at hown
        · simp at hown
        · split at hown
          · cases hown
          · rename_i hfalse
            obtain rfl : PredicateError.notTruth (table.replace w) = e := by simpa using hown
            refine ⟨⟨_, hq, ?_⟩, Or.inr ⟨_, rfl⟩⟩
            rw [← isSome_truthOf?_iff_readsTruth, Lookup.truthOf?]
            exact hfalse
      · obtain rfl : PredicateError.several (w :: v :: ws) = e := by
          simpa [substitutePredicate] using hown
        exact ⟨⟨_, hq, by rintro ⟨w', hw, -⟩; cases hw⟩, Or.inl ⟨_, rfl⟩⟩

end Node

namespace Expander

/-- Where there is room, pieces give a tree when every scope in them keeps to the rules. -/
theorem exists_treeOf_eq_ok_iff {p : Expander} {pieces : List Piece}
    (hstack : p.treeOf pieces ≠ .error (.exhausted .tree)) :
    (∃ tree, p.treeOf pieces = .ok tree) ↔ Piece.Accepted p.maxDepth pieces := by
  rw [← Node.exists_ofScope_eq_ok_iff Empty p.maxDepth pieces]
  unfold treeOf at hstack ⊢
  split at hstack
  · exact absurd rfl hstack
  · rename_i hroom
    rw [if_neg hroom]
    cases (Node.ofScope p.maxDepth 0 pieces : Except ShapeError (Node Empty)) <;> simp

/-! ## The ways in which an expansion can go -/

/-- The outcomes of an expansion with arguments whose values have texts and that has room for its
calls. -/
inductive Runs (p : Expander) (template : Text) (args : Value) :
    Except ExpansionError Text → Prop where
  | args {e : UnsupportedArgs} (hargs : args.namedValues = .error e) :
      Runs p template args (.error (.args e))
  | imbalance {named : List (Text × Value)} {e : Imbalance} (hargs : args.namedValues = .ok named)
      (hread : Reading.ofTemplate p.strict template = .error e) :
      Runs p template args (.error (.stage (.imbalance e)))
  | shape {named : List (Text × Value)} {r : Reading} {e : ShapeError}
      (hargs : args.namedValues = .ok named)
      (hread : Reading.ofTemplate p.strict template = .ok r)
      (htree : p.treeOf r.pieces = .error (.shape e)) :
      Runs p template args (.error (.stage (.shape e)))
  | predicate {named : List (Text × Value)} {tree : Node Empty} {e : PredicateError}
      (hargs : args.namedValues = .ok named) (hbuild : p.build template = .ok tree)
      (hfalse : ∃ q ∈ tree.predicates, ¬ ReadsTruth (formatted p.marker named) q)
      (hreason : (∃ ws, e = .several ws) ∨ ∃ w, e = .notTruth w) :
      Runs p template args (.error (.stage (.predicate e)))
  | text {named : List (Text × Value)} {tree : Node Empty} {text : Text}
      (hargs : args.namedValues = .ok named) (hbuild : p.build template = .ok tree)
      (htrue : ∀ q ∈ tree.predicates, ReadsTruth (formatted p.marker named) q) :
      Runs p template args (.ok text)

/-- Arguments that cannot be used are refused, whatever the template. -/
theorem apply_of_namedValues_error {args : Value} (hne : args ≠ .none) {e : UnsupportedArgs}
    (h : args.namedValues = .error e) (p : Expander) (template : Text) :
    p.apply template args = .error (.args e) :=
  (apply_eq_applyStages p template hne).trans (applyStages_of_error h p template)

/-- **An expansion with arguments** goes one of these ways. -/
theorem runs_apply (p : Expander) (template : Text) {args : Value} (hne : args ≠ .none)
    (hstack : ∀ stage, p.apply template args ≠ .error (.stage (.exhausted stage)))
    (htexts : ∀ fault, p.apply template args ≠ .error (.noText fault)) :
    Runs p template args (p.apply template args) := by
  cases hargs : args.namedValues with
  | error e =>
      rw [apply_of_namedValues_error hne hargs]
      exact .args hargs
  | ok named =>
      obtain ⟨table, hfind, hrun⟩ := apply_eq_applyTable hargs p template
      have hreplace := Lookup.replace_eq_formatted hfind
      simp only [hrun] at hstack htexts ⊢
      cases hread : Reading.ofTemplate p.strict template with
      | error e =>
          have hbuild : p.build template = .error (.imbalance e) := by rw [build, hread]
          rw [applyTable_of_build_error hbuild]
          exact .imbalance hargs hread
      | ok r =>
          cases htree : p.treeOf r.pieces with
          | error e =>
              have hbuild : p.build template = .error e := by simp only [build, hread, htree]
              rw [applyTable_of_build_error hbuild] at hstack ⊢
              rcases treeOf_eq_error htree with rfl | ⟨reason, rfl⟩
              · exact absurd rfl (hstack .tree)
              · exact .shape hargs hread htree
          | ok tree =>
              have hbuild : p.build template = .ok tree :=
                (build_eq_ok_iff p template tree).mpr ⟨r, hread, htree⟩
              rw [applyTable_of_build hbuild] at hstack htexts ⊢
              by_cases hroom : p.room < tree.substitutionCalls table
              · rw [if_pos hroom] at hstack
                exact absurd rfl (hstack .arguments)
              rw [if_neg hroom] at hstack htexts ⊢
              cases hstop : tree.stop? table with
              | none =>
                  refine .text hargs hbuild fun q hq => ?_
                  rw [← hreplace, ← isSome_truthOf?_iff_readsTruth]
                  exact ((Node.stop?_eq_none_iff table tree).mp hstop).1 q hq
              | some e =>
                  rw [hstop] at htexts
                  cases e with
                  | predicate reason =>
                      obtain ⟨hfalse, hreason⟩ := (wellFormed_of_build hbuild).refused hstop
                      rw [hreplace] at hfalse
                      exact .predicate hargs hbuild hfalse hreason
                  | noText fault => exact absurd rfl (htexts fault)
                  | foreign x => exact x.elim

namespace Runs

variable {p : Expander} {template : Text} {args : Value} {outcome : Except ExpansionError Text}

/-- Evaluation never fails. -/
theorem text_or_args_or_stage (h : Runs p template args outcome) :
    (∃ text, outcome = .ok text) ∨ (∃ e, outcome = .error (.args e)) ∨
      ∃ e, outcome = .error (.stage e) := by
  cases h with
  | args => exact Or.inr (Or.inl ⟨_, rfl⟩)
  | imbalance => exact Or.inr (Or.inr ⟨_, rfl⟩)
  | shape => exact Or.inr (Or.inr ⟨_, rfl⟩)
  | predicate => exact Or.inr (Or.inr ⟨_, rfl⟩)
  | text => exact Or.inl ⟨_, rfl⟩

theorem args_iff (h : Runs p template args outcome) :
    (∃ e, outcome = .error (.args e)) ↔ ¬ args.AreArguments := by
  cases h with
  | args hargs => simp [Value.not_areArguments_of_error hargs]
  | imbalance hargs => simp [Value.areArguments_of_ok hargs]
  | shape hargs => simp [Value.areArguments_of_ok hargs]
  | predicate hargs => simp [Value.areArguments_of_ok hargs]
  | text hargs => simp [Value.areArguments_of_ok hargs]

theorem imbalance_iff (h : Runs p template args outcome) (e : Imbalance) :
    outcome = .error (.stage (.imbalance e)) ↔
      args.AreArguments ∧ Reading.ofTemplate p.strict template = .error e := by
  cases h with
  | args hargs => simp [Value.not_areArguments_of_error hargs]
  | imbalance hargs hread => simp [Value.areArguments_of_ok hargs, hread]
  | shape hargs hread => simp [hread]
  | predicate hargs hbuild =>
      obtain ⟨r, hread, -⟩ := (build_eq_ok_iff _ _ _).mp hbuild
      simp [hread]
  | text hargs hbuild =>
      obtain ⟨r, hread, -⟩ := (build_eq_ok_iff _ _ _).mp hbuild
      simp [hread]

/-- What was built keeps to the rules. -/
theorem accepted_of_build {tree : Node Empty} (h : p.build template = .ok tree) {r : Reading}
    (hread : Reading.ofTemplate p.strict template = .ok r) :
    Piece.Accepted p.maxDepth r.pieces := by
  obtain ⟨r', hread', htree⟩ := (build_eq_ok_iff _ _ _).mp h
  obtain rfl : r' = r := Except.ok.inj (hread'.symm.trans hread)
  exact (exists_treeOf_eq_ok_iff (by simp [htree])).mp ⟨tree, htree⟩

theorem shape_iff (h : Runs p template args outcome) :
    (∃ e, outcome = .error (.stage (.shape e))) ↔
      args.AreArguments ∧ ∃ r, Reading.ofTemplate p.strict template = .ok r ∧
        ¬ Piece.Accepted p.maxDepth r.pieces := by
  cases h with
  | args hargs => simp [Value.not_areArguments_of_error hargs]
  | imbalance hargs hread => simp [hread]
  | @shape named r e hargs hread htree =>
      have hrejected : ¬ Piece.Accepted p.maxDepth r.pieces := by
        rw [← exists_treeOf_eq_ok_iff (by simp [htree]), htree]
        simp
      simp [Value.areArguments_of_ok hargs, hread, hrejected]
  | predicate hargs hbuild =>
      have haccepted := fun r => accepted_of_build hbuild (r := r)
      simpa using fun _ => haccepted
  | text hargs hbuild =>
      have haccepted := fun r => accepted_of_build hbuild (r := r)
      simpa using fun _ => haccepted

theorem predicate_iff (h : Runs p template args outcome) :
    (∃ e, outcome = .error (.stage (.predicate e))) ↔
      ∃ named tree, args.namedValues = .ok named ∧ p.build template = .ok tree ∧
        ∃ q ∈ tree.predicates, ¬ ReadsTruth (formatted p.marker named) q := by
  cases h with
  | args hargs => simp [hargs]
  | imbalance hargs hread => simp [build_eq_ok_iff, hread]
  | shape hargs hread htree => simp [build_eq_ok_iff, hread, htree]
  | predicate hargs hbuild hfalse =>
      exact ⟨fun _ => ⟨_, _, hargs, hbuild, hfalse⟩, fun _ => ⟨_, rfl⟩⟩
  | text hargs hbuild htrue => simpa [hargs, hbuild] using htrue

end Runs

/-- **How an expansion can fail** whose values have texts and that has room for its calls. It gives
a text, refuses its arguments or fails in a stage. It refuses arguments that are neither a mapping
with texts for keys nor a record. With other arguments it fails in the first stage when the template
cannot be read, in the second one when it can be read and a scope in it breaks a rule, and in the
third one when there is a tree with a predicate that is no truth value; such a predicate is then
reported for having several words or for its word. -/
theorem apply_failures (p : Expander) (template : Text) {args : Value} (hargs : args ≠ .none)
    (hstack : ∀ stage, p.apply template args ≠ .error (.stage (.exhausted stage)))
    (htexts : ∀ fault, p.apply template args ≠ .error (.noText fault)) :
    ((∃ text, p.apply template args = .ok text) ∨
      (∃ e, p.apply template args = .error (.args e)) ∨
      ∃ e, p.apply template args = .error (.stage e)) ∧
    ((∃ e, p.apply template args = .error (.args e)) ↔ ¬ args.AreArguments) ∧
    (∀ e, p.apply template args = .error (.stage (.imbalance e)) ↔
      args.AreArguments ∧ Reading.ofTemplate p.strict template = .error e) ∧
    ((∃ e, p.apply template args = .error (.stage (.shape e))) ↔
      args.AreArguments ∧ ∃ r, Reading.ofTemplate p.strict template = .ok r ∧
        ¬ Piece.Accepted p.maxDepth r.pieces) ∧
    ((∃ e, p.apply template args = .error (.stage (.predicate e))) ↔
      ∃ named tree, args.namedValues = .ok named ∧ p.build template = .ok tree ∧
        ∃ q ∈ tree.predicates, ¬ ReadsTruth (formatted p.marker named) q) ∧
    ∀ e, p.apply template args = .error (.stage (.predicate e)) →
      (∃ ws, e = .several ws) ∨ ∃ w, e = .notTruth w := by
  have hruns := runs_apply p template hargs hstack htexts
  refine ⟨hruns.text_or_args_or_stage, hruns.args_iff, hruns.imbalance_iff,
    hruns.shape_iff, hruns.predicate_iff, fun e he => ?_⟩
  rw [he] at hruns
  cases hruns with
  | predicate hargs hbuild hfalse hreason => exact hreason

/-- The predicate `.x .y` has two words. It stands in a clause that is not taken and fails the
expansion all the same. -/
theorem apply_failures_of_untaken_predicate :
    let template : Text :=
      "a \x7b\x7b [if] .c [then] \x7b\x7b [if] .x .y [then] b \x7d\x7d \x7d\x7d".toList
    let args : Value := .map false [(.text "c".toList, .bool false)]
    let refused : Except ExpansionError Text :=
      .error (.stage (.predicate (.several [".x".toList, ".y".toList])))
    args ≠ .none ∧ apply {} template args = refused ∧
      (∀ stage, apply {} template args ≠ .error (.stage (.exhausted stage))) ∧
      (∀ fault, apply {} template args ≠ .error (.noText fault)) ∧
      ∃ named tree, args.namedValues = .ok named ∧ build {} template = .ok tree ∧
        ∃ q ∈ tree.predicates, ¬ ReadsTruth (formatted ".".toList named) q := by
  intro template args refused
  have hargs : args ≠ .none := nofun
  have hrun : apply {} template args = refused := eq_error_of_errorOf? (by decide +kernel)
  have hstack : ∀ stage, apply {} template args ≠ .error (.stage (.exhausted stage)) := by
    intro stage hexhausted
    cases Except.error.inj (hrun.symm.trans hexhausted)
  have htexts : ∀ fault, apply {} template args ≠ .error (.noText fault) := by
    intro fault hfault
    cases Except.error.inj (hrun.symm.trans hfault)
  exact ⟨hargs, hrun, hstack, htexts,
    (apply_failures {} template hargs hstack htexts).2.2.2.2.1.mp ⟨_, hrun⟩⟩

end Expander

end SqlTemplate
