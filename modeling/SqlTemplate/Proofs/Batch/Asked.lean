import SqlTemplate.Proofs.Batch.Returns
import SqlTemplate.Proofs.Expander.Failures

set_option autoImplicit false

/-! # Runs that are asked to expand

The options of a run ask for arguments when they name a file with arguments or hold some themselves.
The main statement is `processFiles_asked`: if such a run can load the arguments, it takes every
template through the stages of an expansion, unless the document of the arguments is `null`. Then it
is a run without arguments, and the templates are copied; a closed run that copies one is
`processFiles_copies_at_null`.

An expansion by stages (`Expander.applyStages`) is one that no arguments get around. A run is
described by what these stages give at the turn of each template (`Batch.PutsThrough`). What the
console does not print ends a run, so the description names the places where this can happen.
-/

namespace SqlTemplate

/-- The first stage refuses what cannot be used as arguments, whatever the template is. -/
theorem Expander.exists_applyStages_eq_args_iff (p : Expander) (template : Text) (args : Value) :
    (∃ e, p.applyStages template args = .error (.args e)) ↔ ¬ args.AreArguments := by
  cases hnamed : args.namedValues with
  | error e =>
      exact iff_of_true ⟨e, applyStages_of_error hnamed p template⟩
        (Value.not_areArguments_of_error hnamed)
  | ok named =>
      refine iff_of_false ?_ (not_not.mpr (Value.areArguments_of_ok hnamed))
      rintro ⟨e, he⟩
      obtain ⟨table, htable, -⟩ := Lookup.exists_ofArgs_eq hnamed p.marker
      rw [applyStages, htable] at he
      rcases applyTable_eq_error he with ⟨reason, hreason⟩ | ⟨fault, w, hfault, -⟩
      · cases hreason
      · cases hfault

/-- A value of a document can be used as arguments when it is an object. -/
theorem Json.IsValue.areArguments_iff {v : Value} (h : IsValue v) :
    v.AreArguments ↔ ∃ entries, v = .map false entries := by
  cases h with
  | object hnames => exact ⟨fun _ => ⟨_, rfl⟩, fun _ => hnames⟩
  | _ => simp [Value.AreArguments]

/-! ## The turns by stages -/

namespace Batch

variable {b : Batch} {paths : List (List Text)} {files : Snapshot} {names : List Text}
variable {s s' : Progress}

/-- What a run does that takes every selected file through the stages of an expansion. -/
structure PutsThrough (b : Batch) (paths : List (List Text)) (files : Snapshot) (r : RunResult) :
    Prop where
  -- a template that the stages give a text for has this text and a newline as its output, unless
  -- the output cannot be written or the structure cannot be shown, which ends the run
  expanded : ∀ names s template text, b.ComesUp paths files names s →
    b.template? s.files names = some (.ok template) →
    b.expander.applyStages template b.args = .ok text →
      let stored := s.files.store (b.output ++ names) (Utf8.encode (text ++ ['\n']))
      (∃ s', b.processPath names s = (s', none) ∧ stored = .ok s'.files) ∨
        ∃ s' e, b.processPath names s = (s', some e) ∧ s'.files = s.files ∧
          ((∃ reason, stored = .error reason ∧ e = .file reason) ∨
            b.StopsShowing s.files names e)
  -- any other template is reported, unless the console does not print the report or the structure
  -- cannot be shown, which ends the run, and the files are as they were
  refused : ∀ names s template e, b.ComesUp paths files names s →
    b.template? s.files names = some (.ok template) →
    b.expander.applyStages template b.args = .error e →
      ∃ s' ending, b.processPath names s = (s', ending) ∧ s'.files = s.files ∧
        ((ending = none ∧ b.report names e.message ∈ r.console) ∨
          (∃ message, b.console.fault? (b.report names e.message) = some message ∧
            ending = some (.console message)) ∨
          ∃ e', b.StopsShowing s.files names e' ∧ ending = some e')
  -- a run that returns gets to every selected path, and its code says whether one was reported
  returns : ∀ code, r.ending = .ok code →
    (∀ names ∈ paths, ∃ s, b.ComesUp paths files names s ∧
      ∀ fault, b.template? s.files names ≠ some (.error fault)) ∧
    code ≤ 1 ∧
    (code = 1 ↔ ∃ names s template e, b.ComesUp paths files names s ∧
      b.template? s.files names = some (.ok template) ∧
      b.expander.applyStages template b.args = .error e)
  -- a run that ends on the spot leaves the files as they were at the turn of a path, or gets to its
  -- end, where the console does not print that there was no template
  ends : ∀ e, r.ending = .error e →
    (∃ names s s', b.ComesUp paths files names s ∧ b.processPath names s = (s', some e) ∧
      r.files = s.files) ∨
    ∃ s message, b.processPaths paths { files } = (s, none) ∧ s.count = 0 ∧ r.files = s.files ∧
      e = .console message

theorem expands_of_applyStages {template text : Text} (hargs : b.args ≠ .none)
    (hfile : b.template? files names = some (.ok template))
    (htext : b.expander.applyStages template b.args = .ok text) : b.Expands files names text := by
  refine ⟨template, hfile, ?_⟩
  rw [Expander.expand, Expander.apply_eq_applyStages _ _ hargs, htext]

/-- With a value of a document, a template does not expand when a stage fails. -/
theorem fails_iff_applyStages (hargs : b.args ≠ .none) (hvalue : Json.IsValue b.args)
    (reason : Text) :
    b.Fails files names reason ↔ ∃ template e, b.template? files names = some (.ok template) ∧
      b.expander.applyStages template b.args = .error e ∧ e.message = reason := by
  have herror : ∀ template, (∃ expansion, b.expander.expand template b.args = .ok expansion ∧
        expansion.error = some reason) ↔
      ∃ e, b.expander.applyStages template b.args = .error e ∧ e.message = reason := by
    intro template
    obtain ⟨expansion, hexpansion⟩ := hvalue.exists_expand b.expander template
    rw [Expander.expand, Expander.apply_eq_applyStages _ _ hargs] at hexpansion ⊢
    cases happly : b.expander.applyStages template b.args with
    | ok text => simp
    | error e =>
        cases e with
        | noText fault =>
            rw [happly] at hexpansion
            cases hexpansion
        | _ => simp
  simp only [Fails, exists_and_left, herror]

theorem written_of_args (hargs : b.args ≠ .none) (text : Text) :
    b.written text = Utf8.encode (text ++ ['\n']) := by
  rw [written]
  split
  · exact absurd ‹_› hargs
  · rfl

/-- What is printed at the turn of a path stays printed. -/
theorem ComesUp.prefix_console (h : b.ComesUp paths files names s) {ending : Option RunError}
    (hpath : b.processPath names s = (s', ending)) :
    s'.console <+: (b.processPaths paths { files }).1.console := by
  obtain ⟨done, rest, rfl, hdone⟩ := h
  rw [processPaths_append, hdone]
  simp only [processPaths, hpath]
  cases ending with
  | none => exact b.prefix_console_processPaths rest s'
  | some e => exact List.prefix_rfl

/-- A run that returns gets to every selected path, and its code says whether a template was
reported. -/
theorem returns_of_processPattern {text : Text} {pattern : Glob.Pattern} {code : Nat}
    (hargs : b.args ≠ .none) (hvalue : Json.IsValue b.args)
    (hpattern : Glob.Pattern.ofText text = .ok pattern)
    (hpaths : Glob.selectIn files b.input pattern = .ok paths)
    (hcode : (b.processPattern text files).ending = .ok code) :
    (∀ names ∈ paths, ∃ s, b.ComesUp paths files names s ∧
      ∀ fault, b.template? s.files names ≠ some (.error fault)) ∧
    code ≤ 1 ∧
    (code = 1 ↔ ∃ names s template e, b.ComesUp paths files names s ∧
      b.template? s.files names = some (.ok template) ∧
      b.expander.applyStages template b.args = .error e) := by
  obtain ⟨s, hrun, rfl⟩ := exists_end_of_returns hpattern hpaths hcode
  have hgoes := goesThrough_of_processPaths hrun (processPattern_of_end hpattern hpaths hrun).2.1
  refine ⟨fun names hnames => ?_, hgoes.code_le_one, ?_⟩
  · obtain ⟨t, hcomes⟩ := hgoes.turns names hnames
    obtain ⟨t', -, hturn⟩ := hcomes.turn hrun
    exact ⟨t, hcomes, hturn.isText⟩
  · rw [hgoes.code_eq_one_iff]
    simp only [fails_iff_applyStages hargs hvalue]
    constructor
    · rintro ⟨names, t, reason, hcomes, template, e, hfile, he, -⟩
      exact ⟨names, t, template, e, hcomes, hfile, he⟩
    · rintro ⟨names, t, template, e, hcomes, hfile, he⟩
      exact ⟨names, t, e.message, hcomes, template, e, hfile, he, rfl⟩

/-- A run that ends on the spot does so at the turn of a path, or behind the last one, where it says
that there was no template. -/
theorem ends_of_processPattern {text : Text} {pattern : Glob.Pattern} {e : RunError}
    (hpattern : Glob.Pattern.ofText text = .ok pattern)
    (hpaths : Glob.selectIn files b.input pattern = .ok paths)
    (he : (b.processPattern text files).ending = .error e) :
    (∃ names s s', b.ComesUp paths files names s ∧ b.processPath names s = (s', some e) ∧
      (b.processPattern text files).files = s.files) ∨
    ∃ s message, b.processPaths paths { files } = (s, none) ∧ s.count = 0 ∧
      (b.processPattern text files).files = s.files ∧ e = .console message := by
  rcases hrun : b.processPaths paths { files } with ⟨s, _ | e'⟩
  · obtain ⟨hfiles, -, hending⟩ := processPattern_of_end hpattern hpaths hrun
    rcases hending with hok | ⟨hcount, message, -, herror⟩
    · cases hok.symm.trans he
    · exact Or.inr ⟨s, message, rfl, hcount, hfiles, Except.error.inj (he.symm.trans herror)⟩
  · have hending := processPattern_of_error hpattern hpaths hrun
    rw [hending] at he
    obtain rfl := Except.error.inj he
    obtain ⟨names, t, hcomes, hpath, hfiles⟩ := exists_comesUp_of_error hrun
    refine Or.inl ⟨names, t, s, hcomes, hpath, ?_⟩
    rw [hending]
    exact hfiles

/-- **A run with arguments** takes every selected path that it gets to through the stages. -/
theorem putsThrough_of_processPattern {text : Text} {pattern : Glob.Pattern}
    (hargs : b.args ≠ .none) (hvalue : Json.IsValue b.args)
    (hpattern : Glob.Pattern.ofText text = .ok pattern)
    (hpaths : Glob.selectIn files b.input pattern = .ok paths) :
    b.PutsThrough paths files (b.processPattern text files) := by
  have hconsole : (b.processPaths paths { files }).1.console <+:
      (b.processPattern text files).console := by
    rcases hrun : b.processPaths paths { files } with ⟨s, _ | e⟩
    · exact (processPattern_of_end hpattern hpaths hrun).2.1
    · rw [processPattern_of_error hpattern hpaths hrun]
  refine ⟨?_, ?_, ?_, ?_⟩
  · intro names s template text hcomes hfile htext stored
    have hexpands := expands_of_applyStages hargs hfile htext
    have hturn := b.processPath_turn names s
    rcases hpath : b.processPath names s with ⟨s', ending⟩
    rw [hpath] at hturn
    have hoptions := hturn.of_expands hexpands
    rw [written_of_args hargs] at hoptions
    rcases hoptions with ⟨rfl, hstore, -⟩ | ⟨reason, rfl, hstore⟩ | ⟨e, rfl, hstops⟩
    · exact Or.inl ⟨s', rfl, hstore⟩
    · exact Or.inr ⟨s', _, rfl, files_eq_of_error hpath, Or.inl ⟨reason, hstore, rfl⟩⟩
    · exact Or.inr ⟨s', e, rfl, files_eq_of_error hpath, Or.inr hstops⟩
  · intro names s template e hcomes hfile he
    have hfails : b.Fails s.files names e.message :=
      (fails_iff_applyStages hargs hvalue _).mpr ⟨template, e, hfile, he, rfl⟩
    have hturn := b.processPath_turn names s
    rcases hpath : b.processPath names s with ⟨s', ending⟩
    rw [hpath] at hturn
    obtain ⟨hfiles, houtcome⟩ := hturn.of_fails hfails
    refine ⟨s', ending, rfl, hfiles, ?_⟩
    rcases houtcome with ⟨hending, -, hline⟩ | ⟨message, hending, hrefused⟩ | ⟨e', hending, hstops⟩
    · exact Or.inl ⟨hending, hconsole.subset ((hcomes.prefix_console hpath).subset hline)⟩
    · exact Or.inr (Or.inl ⟨message, hrefused, hending⟩)
    · exact Or.inr (Or.inr ⟨e', hstops, hending⟩)
  · exact fun code hcode => returns_of_processPattern hargs hvalue hpattern hpaths hcode
  · exact fun e he => ends_of_processPattern hpattern hpaths he

end Batch

/-! ## The whole program -/

section

variable {console : Console} {settings : Settings} {o : Options} {input output : List Text}
variable {files : Snapshot}

/-- Arguments that are absent are as good as none that were asked for. -/
theorem processFiles_of_none (console : Console) (settings : Settings) (input output : List Text)
    (hargs : o.loadArgs files = .ok .none) :
    processFiles console settings o input output files =
      processFiles console settings { o with args := none, argsFile := none } input output
        files := by
  have hnone : ({ o with args := none, argsFile := none } : Options).loadArgs files =
      .ok .none := rfl
  simp only [processFiles, hargs, hnone]

/-- A run with arguments ends before it gets to a template, or takes the selected paths through the
stages. -/
theorem ends_or_putsThrough (console : Console) (settings : Settings) (input output : List Text)
    {args : Value} (hargs : o.loadArgs files = .ok args) (hne : args ≠ .none) :
    let r := processFiles console settings o input output files
    ((∃ e, r.ending = .error e) ∧ r.files = files) ∨
      ∃ expander paths, settings.expander = .ok expander ∧ o.Selects files input paths ∧
        (o.batch console expander args input output).PutsThrough paths files r := by
  intro r
  refine (ends_or_selects console settings input output hargs).imp
    (fun h => ⟨h.1, h.2.1⟩) ?_
  rintro ⟨expander, text, pattern, paths, hexpander, htext, hpattern, hpaths, hr⟩
  refine ⟨expander, paths, hexpander, ⟨text, pattern, htext, hpattern, hpaths⟩, ?_⟩
  simp only [r, hr]
  exact Batch.putsThrough_of_processPattern hne (Options.isValue_of_loadArgs hargs) hpattern hpaths

/-- **A run that is asked to expand.** Arguments that cannot be loaded leave the files as they were,
and the exit code is one unless reading them ends the run, or the console does not print the report.
A document with half a character in a string is left out here, since no text can hold it. If the
arguments can be loaded, they are the value of a document, and the templates are copied exactly if
this document is `null`: the run is then one without arguments. Otherwise the run ends before it
gets to a template, or it takes every selected file through the stages of an expansion, whose first
stage refuses every value but an object. -/
theorem processFiles_asked (hasked : o.AsksForArgs) :
    let r := processFiles console settings o input output files
    (∀ e, o.loadArgs files = .error e → e ≠ .json .loneHalf → r.files = files ∧
      r.ending = if e.endsRun then .error (.args e)
        else
          match console.fault? (.line (loadFailureLine e)) with
          | none => .ok 1
          | some message => .error (.console message)) ∧
    ∀ args, o.loadArgs files = .ok args → ∃ text, o.argsText files = .ok text ∧
      Json.read text = .ok args ∧
      (Json.IsNull text → r = processFiles console settings
        { o with args := none, argsFile := none } input output files) ∧
      (¬ Json.IsNull text →
        (((∃ e, r.ending = .error e) ∧ r.files = files) ∨
          ∃ expander paths, settings.expander = .ok expander ∧ o.Selects files input paths ∧
            (o.batch console expander args input output).PutsThrough paths files r) ∧
        ∀ (p : Expander) (template : Text),
          (∃ e, p.applyStages template args = .error (.args e)) ↔
            ∀ entries, args ≠ .map false entries) := by
  intro r
  constructor
  · intro e he _
    simp only [r, processFiles, he, Progress.print]
    split
    · exact ⟨rfl, rfl⟩
    · cases console.fault? (.line (loadFailureLine e)) <;> exact ⟨rfl, rfl⟩
  · intro args hargs
    obtain ⟨text, htext, hread⟩ := hasked.exists_read hargs
    have hnone : args = .none ↔ Json.IsNull text := by
      rw [← Json.read_eq_none_iff, hread, Except.ok.injEq]
    refine ⟨text, htext, hread, fun hnull => ?_, fun hnull => ?_⟩
    · exact processFiles_of_none console settings input output (hnone.mpr hnull ▸ hargs)
    · have hne : args ≠ .none := fun he => hnull (hnone.mp he)
      refine ⟨ends_or_putsThrough console settings input output hargs hne, fun p template => ?_⟩
      rw [Expander.exists_applyStages_eq_args_iff, (Json.isValue_of_read hread).areArguments_iff,
        not_exists]

/-- The document of the arguments is a list. The template is reported and has no output. -/
theorem processFiles_asked_of_list :
    let a := ["a.sql".toList]
    let input := ["in".toList]
    let output := ["out".toList]
    let files : Snapshot :=
      { entries := [(input, .directory), (input ++ a, .file [120]), (output, .directory)] }
    let console : Console := { escape := Markup.escape }
    let o : Options := { args := some "[]".toList }
    let r := processFiles console {} o input output files
    r.ending = .ok 1 ∧ r.files.entry? (.inside (output ++ a)) = none ∧
      .line "[bold red]in/a.sql:[/bold red] unsupported args type: list".toList ∈ r.console := by
  intro a input output files console o r
  let b := o.batch console {} (.list []) input output
  have hasked : o.AsksForArgs := Or.inl (by decide)
  have hargs : o.loadArgs files = .ok b.args := rfl
  have hexpander : Settings.expander {} = .ok b.expander := rfl
  have hselects : o.Selects files input [a] := by
    refine ⟨_, _, rfl, rfl, Glob.selectIn_of_sorted rfl rfl ?_ rfl (by decide)⟩
    exact eq_ok_of_toOption (by decide +kernel)
  have hrun : ∃ s, b.processPaths [a] { files } = (s, none) ∧ s.failed = true ∧ s.files = files :=
    ⟨_, rfl, rfl, rfl⟩
  obtain ⟨s, hend, hfailed, hsame⟩ := hrun
  obtain ⟨hfiles, -, hending⟩ :=
    processFiles_of_end hargs hexpander hselects (fun _ => rfl) hend
  rw [hfailed] at hending
  obtain ⟨text, htext, hread, -, hstages⟩ :=
    (@processFiles_asked console {} o input output files hasked).2 b.args hargs
  have hnull : ¬ Json.IsNull text := by
    rw [← Json.read_eq_none_iff, hread]
    exact nofun
  obtain ⟨⟨⟨e, he⟩, -⟩ | ⟨expander, paths, hexpander', hpaths, hthrough⟩, -⟩ := hstages hnull
  · cases hending.symm.trans he
  · obtain rfl := Except.ok.inj hexpander'
    obtain rfl := hpaths.unique hselects
    obtain ⟨s', ending, hpath, -, hreported⟩ := hthrough.refused a { files } "x".toList
      (.args (.type "list".toList)) ⟨[], [], rfl, rfl⟩ rfl rfl
    refine ⟨hending, by rw [hfiles, hsame]; rfl, ?_⟩
    obtain ⟨-, rfl⟩ := Prod.mk.inj hpath
    rcases hreported with ⟨-, hline⟩ | ⟨message, -, hnone⟩ | ⟨e', -, hnone⟩
    · exact hline
    · cases hnone
    · cases hnone

end

/-- The document of the arguments is `null`, which no template can be expanded with. A template with
a scope that is never closed is copied, and the run succeeds. -/
theorem processFiles_copies_at_null :
    let a := ["a.sql".toList]
    let input := ["in".toList]
    let output := ["out".toList]
    let files : Snapshot :=
      { entries := [(input, .directory), (input ++ a, .file [123, 123]), (output, .directory)] }
    let console : Console := { escape := Markup.escape }
    let o : Options := { args := some "null".toList }
    let r := processFiles console {} o input output files
    o.AsksForArgs ∧ o.loadArgs files = .ok .none ∧ o.Selects files input [a] ∧
      (∀ template, ∃ e, Expander.applyStages {} template .none = .error (.args e)) ∧
      r.ending = .ok 0 ∧ r.files.entry? (.inside (output ++ a)) = some (.file [123, 123]) := by
  intro a input output files console o r
  let b := o.batch console {} .none input output
  have hexpander : Settings.expander {} = .ok b.expander := rfl
  have hselects : o.Selects files input [a] := by
    refine ⟨_, _, rfl, rfl, Glob.selectIn_of_sorted rfl rfl ?_ rfl (by decide)⟩
    exact eq_ok_of_toOption (by decide +kernel)
  have hrun : ∃ s, b.processPaths [a] { files } = (s, none) ∧ s.failed = false ∧
      s.files.entry? (.inside (output ++ a)) = some (.file [123, 123]) := ⟨_, rfl, rfl, rfl⟩
  obtain ⟨s, hend, hfailed, hcopy⟩ := hrun
  obtain ⟨hfiles, -, hending⟩ := processFiles_of_end rfl hexpander hselects (fun _ => rfl) hend
  rw [hfailed] at hending
  exact ⟨Or.inl (by decide), rfl, hselects, fun _ => ⟨_, rfl⟩, hending, by rw [hfiles, hcopy]⟩

end SqlTemplate
