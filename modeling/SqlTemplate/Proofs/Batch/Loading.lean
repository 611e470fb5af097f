import SqlTemplate.Options.Arguments
import SqlTemplate.Proofs.Expander.Stages
import SqlTemplate.Proofs.Json.Kinds
import SqlTemplate.Proofs.Value.Names

set_option autoImplicit false

/-! # The arguments that a run loads

The options of a run ask for arguments when they name a file with arguments or hold some themselves.
Arguments that were asked for are the value of a document (`Options.AsksForArgs.exists_read`), and
since every value of a document has a text, no template needs a value that has none: with arguments
that were loaded an expansion is always an outcome that can be reported (`Options.exists_expand`).

A document with half a character in a string is none that can be loaded here: a text cannot hold it.
-/

namespace SqlTemplate

/-! ## What the options ask for -/

/-- Whether the options ask for arguments, on the command line or in a file. -/
def Options.AsksForArgs (o : Options) : Prop :=
  o.args.getD [] ≠ [] ∨ o.argsFile.getD [] ≠ []

/-- The document of the arguments: what the file holds if one is named, and else what stands on the
command line. -/
def Options.argsText (o : Options) (s : Snapshot) : Except LoadError Text :=
  match o.argsFile.getD [] with
  | [] => .ok (o.args.getD [])
  | path => readTextFile s (Path.ofText path)

theorem Options.AsksForArgs.loadArgs_eq {o : Options} (h : o.AsksForArgs) (s : Snapshot) :
    o.loadArgs s = o.argsText s >>= readJson := by
  rw [loadArgs, argsText]
  rw [AsksForArgs] at h
  cases hfile : o.argsFile.getD [] with
  | nil =>
      cases hargs : o.args.getD [] with
      | nil => simp [hfile, hargs] at h
      | cons c args => rfl
  | cons c path => rfl

/-- Arguments that were asked for are the value of their document. -/
theorem Options.AsksForArgs.exists_read {o : Options} (h : o.AsksForArgs) {s : Snapshot}
    {args : Value} (hargs : o.loadArgs s = .ok args) :
    ∃ text, o.argsText s = .ok text ∧ Json.read text = .ok args := by
  rw [h.loadArgs_eq, bind_eq_ok_iff] at hargs
  obtain ⟨text, htext, hread⟩ := hargs
  refine ⟨text, htext, ?_⟩
  rw [readJson] at hread
  cases hvalue : Json.read text with
  | error e =>
      rw [hvalue] at hread
      cases hread
  | ok v =>
      rw [hvalue] at hread
      exact congrArg _ (Except.ok.inj hread)

/-- Arguments that are loaded are a value of a document, or absent. -/
theorem Options.isValue_of_loadArgs {o : Options} {s : Snapshot} {args : Value}
    (h : o.loadArgs s = .ok args) : Json.IsValue args := by
  by_cases hasked : o.AsksForArgs
  · obtain ⟨text, -, hread⟩ := hasked.exists_read h
    exact Json.isValue_of_read hread
  · rw [AsksForArgs, not_or, not_not, not_not] at hasked
    rw [loadArgs, hasked.1, hasked.2] at h
    exact Except.ok.inj h ▸ .none

/-! ## Expansions with them -/

/-- The names and values of an object are members of it. -/
theorem Json.IsValue.isValue_of_mem {args : Value} (h : IsValue args)
    {named : List (Text × Value)} (hnamed : args.namedValues = .ok named) {name : Text} {v : Value}
    (hmem : (name, v) ∈ named) : IsValue v := by
  cases h with
  | object hnames hvalues =>
      obtain rfl := (Value.namedEntries_eq_ok_iff ..).mp hnamed
      exact hvalues _ (List.mem_map.mpr ⟨_, hmem, rfl⟩)
  | _ => cases hnamed

/-- **With a value of a document** an expansion is an outcome that can be reported. -/
theorem Json.IsValue.exists_expand {args : Value} (h : IsValue args) (p : Expander)
    (template : Text) : ∃ expansion, p.expand template args = .ok expansion := by
  have hfault : ∀ fault, p.apply template args ≠ .error (.noText fault) := by
    intro fault herror
    rcases eq_or_ne args .none with rfl | hne
    · cases herror
    cases hnamed : args.namedValues with
    | error e =>
        rw [Expander.apply_eq_applyStages p template hne,
          Expander.applyStages_of_error hnamed] at herror
        cases herror
    | ok named =>
        obtain ⟨table, hfind, hrun⟩ := Expander.apply_eq_applyTable hnamed p template
        rw [hrun] at herror
        rcases Expander.applyTable_eq_error herror with ⟨reason, he⟩ | ⟨_, w, -, hfault⟩
        · cases he
        · obtain ⟨⟨v, hv, hformat⟩, -⟩ := Lookup.exists_of_fault? hfault
          rw [hfind] at hv
          obtain ⟨name, hmem⟩ := exists_mem_of_valueOf? hv
          obtain ⟨text, htext⟩ := (h.isValue_of_mem hnamed hmem).exists_format
          cases hformat.symm.trans htext
  rw [Expander.expand]
  split
  · exact ⟨_, rfl⟩
  · exact absurd ‹_› (hfault _)
  · exact ⟨_, rfl⟩

end SqlTemplate
