import SqlTemplate.Proofs.Batch.Loading
import SqlTemplate.Proofs.Batch.Turns
import SqlTemplate.Proofs.Files.Selection

set_option autoImplicit false

/-! # When a run returns

The main statement is `processFiles_returns_iff`: when the outputs can be written and everything can
be printed, a run returns exactly if every selected file is text when its turn comes, and has no
structure that is to be shown and nested too deeply. A template that does not expand never keeps the
others from their turns. A file that is no text does (`processFiles_ends_at_undecodable`).
-/

namespace SqlTemplate

namespace Batch

variable {b : Batch} {s : Progress}
variable {text : Text} {pattern : Glob.Pattern} {paths : List (List Text)} {files : Snapshot}

/-! ## The end of a run -/

/-- A run that is ended on the spot leaves everything as it was then. -/
theorem processPattern_of_error (hpattern : Glob.Pattern.ofText text = .ok pattern)
    (hpaths : Glob.selectIn files b.input pattern = .ok paths) {e : RunError}
    (h : b.processPaths paths { files } = (s, some e)) :
    b.processPattern text files =
      { console := s.console, files := s.files, ending := .error e } := by
  simp only [processPattern, hpattern, hpaths, h, RunResult.ofProgress]

/-- A run that gets to the end can only report that there was no template, which ends it if the
console does not print it. -/
theorem processPattern_of_end (hpattern : Glob.Pattern.ofText text = .ok pattern)
    (hpaths : Glob.selectIn files b.input pattern = .ok paths)
    (h : b.processPaths paths { files } = (s, none)) :
    let r := b.processPattern text files
    r.files = s.files ∧ s.console <+: r.console ∧
      (r.ending = .ok (if s.failed then 1 else 0) ∨
        s.count = 0 ∧ ∃ message,
          b.console.fault? (.line (noTemplatesLine text { names := b.input })) = some message ∧
            r.ending = .error (.console message)) := by
  simp only [processPattern, hpattern, hpaths, h, finish, Progress.print]
  split
  · rename_i hcount
    cases hprint : b.console.fault? (.line (noTemplatesLine text { names := b.input })) with
    | none => exact ⟨rfl, List.prefix_append .., Or.inl rfl⟩
    | some message => exact ⟨rfl, List.prefix_rfl, Or.inr ⟨hcount, message, rfl, rfl⟩⟩
  · exact ⟨rfl, List.prefix_rfl, Or.inl rfl⟩

/-- A run that returns has got to the end. -/
theorem exists_end_of_returns (hpattern : Glob.Pattern.ofText text = .ok pattern)
    (hpaths : Glob.selectIn files b.input pattern = .ok paths) {code : Nat}
    (h : (b.processPattern text files).ending = .ok code) :
    ∃ s, b.processPaths paths { files } = (s, none) ∧ code = (if s.failed then 1 else 0) := by
  rcases hrun : b.processPaths paths { files } with ⟨s, _ | e⟩
  · refine ⟨s, rfl, ?_⟩
    rcases (processPattern_of_end hpattern hpaths hrun).2.2 with hok | ⟨-, message, -, herror⟩
    · exact Except.ok.inj (h.symm.trans hok)
    · cases h.symm.trans herror
  · rw [processPattern_of_error hpattern hpaths hrun] at h
    cases h

/-- What a run over paths has done that has got to the end. -/
structure GoesThrough (b : Batch) (paths : List (List Text)) (files : Snapshot) (r : RunResult)
    (code : Nat) : Prop where
  -- every path has its turn
  turns : ∀ names ∈ paths, ∃ s, b.ComesUp paths files names s
  -- the output of a template that expands is written
  written : ∀ names s text, b.ComesUp paths files names s → b.Expands s.files names text →
    ∃ s', b.processPath names s = (s', none) ∧
      s.files.store (b.output ++ names) (b.written text) = .ok s'.files
  -- a template that does not expand is reported
  reported : ∀ names s reason, b.ComesUp paths files names s → b.Fails s.files names reason →
    b.report names reason ∈ r.console
  code_le_one : code ≤ 1
  code_eq_one_iff : code = 1 ↔
    ∃ names s reason, b.ComesUp paths files names s ∧ b.Fails s.files names reason

theorem goesThrough_of_processPaths {r : RunResult}
    (hend : b.processPaths paths { files } = (s, none)) (hconsole : s.console <+: r.console) :
    b.GoesThrough paths files r (if s.failed then 1 else 0) := by
  refine ⟨fun names hnames => exists_comesUp hend hnames, ?_, ?_, ?_, ?_⟩
  · intro names t text hcomes hexpands
    obtain ⟨t', hpath, hturn⟩ := hcomes.turn hend
    rcases hturn.of_expands hexpands with ⟨-, hstore, -⟩ | ⟨reason, hending, -⟩ | ⟨e, hending, -⟩
    · exact ⟨t', hpath, hstore⟩
    · cases hending
    · cases hending
  · intro names t reason hcomes hfails
    obtain ⟨t', rest, hpath, hrest⟩ := hcomes.goes_on hend
    have hturn := b.processPath_turn names t
    have hlater := b.prefix_console_processPaths rest t'
    rw [hpath] at hturn
    rw [hrest] at hlater
    rcases (hturn.of_fails hfails).2 with ⟨-, -, hline⟩ | ⟨message, hending, -⟩ | ⟨e, hending, -⟩
    · exact hconsole.subset (hlater.subset hline)
    · cases hending
    · cases hending
  · split <;> omega
  · rw [← processPaths_failed_iff hend]
    split
    · simp [*]
    · simp [*]

/-- With arguments that were loaded, no template needs a value without a text. -/
theorem not_lacksText (h : Json.IsValue b.args) {names : List Text} {fault : FormatFault} :
    ¬ b.LacksText files names fault := by
  rintro ⟨template, -, hfault⟩
  obtain ⟨expansion, hexpansion⟩ := h.exists_expand b.expander template
  cases hfault.symm.trans hexpansion

/-- A run that ends on the spot although the outputs can be written and everything can be printed
has got to a file that is no text, or to a structure that is nested too deeply to be shown. -/
theorem exists_undecodable_or_tooDeep (hargs : Json.IsValue b.args) {e : RunError}
    (h : b.processPaths paths { files } = (s, some e))
    (hwritable : ∀ names s text, b.ComesUp paths files names s → b.Expands s.files names text →
      ∃ files', s.files.store (b.output ++ names) (b.written text) = .ok files')
    (hprints : ∀ item, b.console.fault? item = none) :
    ∃ names t, b.ComesUp paths files names t ∧ s.files = t.files ∧
      ((∃ fault, b.template? t.files names = some (.error fault) ∧ e = .encoding fault) ∨
        (b.IsTooDeep t.files names ∧ e = .exhausted)) := by
  obtain ⟨names, t, hcomes, hpath, hfiles⟩ := exists_comesUp_of_error h
  have hturn := b.processPath_turn names t
  rw [hpath] at hturn
  refine ⟨names, t, hcomes, hfiles, ?_⟩
  cases hturn with
  | undecodable hfile hfiles => exact Or.inl ⟨_, hfile, rfl⟩
  | unshown hstops hfiles => exact Or.inr (hstops.isTooDeep fun o => hprints _)
  | textless hshown hlacks hfiles => exact absurd hlacks (not_lacksText hargs)
  | unprinted hshown hfails hfiles hrefused =>
      rw [hprints] at hrefused
      cases hrefused
  | unwritable hshown hexpands hfiles hstore =>
      obtain ⟨files', hstore'⟩ := hwritable names t _ hcomes hexpands
      cases hstore.symm.trans hstore'

end Batch

/-! ## The whole program -/

/-- Whether the pattern of the options selects these paths in the input directory. -/
def Options.Selects (o : Options) (files : Snapshot) (input : List Text)
    (paths : List (List Text)) : Prop :=
  ∃ text pattern, o.pattern = some text ∧ Glob.Pattern.ofText text = .ok pattern ∧
    Glob.selectIn files input pattern = .ok paths

theorem Options.Selects.unique {o : Options} {files : Snapshot} {input : List Text}
    {paths paths' : List (List Text)} (h : o.Selects files input paths)
    (h' : o.Selects files input paths') : paths = paths' := by
  obtain ⟨text, pattern, htext, hpattern, hpaths⟩ := h
  obtain ⟨text', pattern', htext', hpattern', hpaths'⟩ := h'
  obtain rfl := Option.some.inj (htext.symm.trans htext')
  obtain rfl := Except.ok.inj (hpattern.symm.trans hpattern')
  exact Except.ok.inj (hpaths.symm.trans hpaths')

theorem Options.Selects.nodup {o : Options} {files : Snapshot} {input : List Text}
    {paths : List (List Text)} (h : o.Selects files input paths) : paths.Nodup := by
  obtain ⟨text, pattern, -, -, hpaths⟩ := h
  exact Glob.selectIn_nodup hpaths

/-- The selected paths have plain names where the files and the pattern have. -/
theorem Options.Selects.plain {o : Options} {files : Snapshot} {input : List Text}
    {paths : List (List Text)} (h : o.Selects files input paths) (hplain : files.Plain)
    (hpattern : ∀ text, o.pattern = some text → Path.Plain (Path.namesIn text)) :
    ∀ names ∈ paths, Path.Plain names := by
  obtain ⟨text, pattern, htext, hofText, hpaths⟩ := h
  intro names hnames
  exact Glob.selectIn_plain hplain (Glob.Pattern.ofText_plain (hpattern text htext) hofText) hpaths
    hnames

/-- What a run with these options does with every template. -/
def Options.batch (o : Options) (console : Console) (expander : Expander) (args : Value)
    (input output : List Text) : Batch :=
  { console, expander, args, showTree := o.showTree, input, output }

section

variable {console : Console} {settings : Settings} {o : Options} {input output : List Text}
variable {files : Snapshot} {args : Value}

theorem processFiles_eq_processPattern {expander : Expander} {text : Text}
    (hargs : o.loadArgs files = .ok args) (hexpander : settings.expander = .ok expander)
    (htext : o.pattern = some text) :
    processFiles console settings o input output files =
      (o.batch console expander args input output).processPattern text files := by
  simp only [processFiles, hargs, hexpander, htext]
  rfl

/-- A run with arguments ends before it gets to a template, or goes over the selected paths. -/
theorem ends_or_selects (console : Console) (settings : Settings) (input output : List Text)
    (hargs : o.loadArgs files = .ok args) :
    let r := processFiles console settings o input output files
    ((∃ e, r.ending = .error e) ∧ r.files = files ∧ r.console = []) ∨
      ∃ expander text pattern paths, settings.expander = .ok expander ∧ o.pattern = some text ∧
        Glob.Pattern.ofText text = .ok pattern ∧ Glob.selectIn files input pattern = .ok paths ∧
        r = (o.batch console expander args input output).processPattern text files := by
  intro r
  cases hexpander : settings.expander with
  | error e => simp [r, processFiles, hargs, hexpander]
  | ok expander =>
      cases htext : o.pattern with
      | none => simp [r, processFiles, hargs, hexpander, htext]
      | some text =>
          have hr : r = (o.batch console expander args input output).processPattern text files :=
            processFiles_eq_processPattern hargs hexpander htext
          have hinput : (o.batch console expander args input output).input = input := rfl
          cases hpattern : Glob.Pattern.ofText text with
          | error e => simp [hr, Batch.processPattern, hpattern]
          | ok pattern =>
              cases hpaths : Glob.selectIn files input pattern with
              | error e => simp [hr, Batch.processPattern, hpattern, hinput, hpaths]
              | ok paths =>
                  exact Or.inr ⟨expander, text, pattern, paths, rfl, rfl, hpattern, hpaths, hr⟩

/-- A run with arguments that returns has gone over the selected paths up to the end. -/
theorem exists_processPaths_of_returns (hargs : o.loadArgs files = .ok args) {code : Nat}
    (h : (processFiles console settings o input output files).ending = .ok code) :
    ∃ expander paths s, settings.expander = .ok expander ∧ o.Selects files input paths ∧
      (o.batch console expander args input output).processPaths paths { files } = (s, none) ∧
      (processFiles console settings o input output files).files = s.files ∧
      code = (if s.failed then 1 else 0) := by
  rcases ends_or_selects console settings input output hargs with ⟨⟨e, he⟩, -⟩ | hselects
  · cases he.symm.trans h
  · obtain ⟨expander, text, pattern, paths, hexpander, htext, hpattern, hpaths, hr⟩ := hselects
    rw [hr] at h ⊢
    obtain ⟨s, hrun, hcode⟩ := Batch.exists_end_of_returns hpattern hpaths h
    exact ⟨expander, paths, s, hexpander, ⟨text, pattern, htext, hpattern, hpaths⟩, hrun,
      (Batch.processPattern_of_end hpattern hpaths hrun).1, hcode⟩

/-- A run that goes over the selected paths up to the end returns, if everything can be printed. -/
theorem processFiles_of_end {expander : Expander} {paths : List (List Text)} {s : Progress}
    (hargs : o.loadArgs files = .ok args) (hexpander : settings.expander = .ok expander)
    (hselects : o.Selects files input paths) (hprints : ∀ item, console.fault? item = none)
    (hend : (o.batch console expander args input output).processPaths paths { files } =
      (s, none)) :
    let r := processFiles console settings o input output files
    r.files = s.files ∧ s.console <+: r.console ∧ r.ending = .ok (if s.failed then 1 else 0) := by
  obtain ⟨text, pattern, htext, hofText, hpaths⟩ := hselects
  rw [processFiles_eq_processPattern hargs hexpander htext]
  obtain ⟨hfiles, hconsole, hending⟩ := Batch.processPattern_of_end hofText hpaths hend
  refine ⟨hfiles, hconsole, hending.resolve_right ?_⟩
  rintro ⟨-, message, hrefused, -⟩
  cases (hprints _).symm.trans hrefused

/-- **When a run gets to the end.** Let the arguments be loaded, so that no string in them holds
half a character, let the pattern be one, and let it be possible to write the outputs and to print
everything; the files have no links among them and can all be read. Then the run returns exactly if
every selected file is text when its turn comes, and its structure, if it is to be shown, is not
nested too deeply for that. In this case every selected path has its turn: the output of a template
that expands is written, one that does not expand is reported, and the exit code is one if there was
such a template and zero if there was none. Otherwise the run ends at the turn of a file that is no
text, with the fault of this file, or at that of a structure that cannot be shown, and leaves the
files as they were then. -/
theorem processFiles_returns_iff {expander : Expander} {paths : List (List Text)}
    (hargs : o.loadArgs files = .ok args) (hexpander : settings.expander = .ok expander)
    (hselects : o.Selects files input paths)
    (hwritable : ∀ names s text,
      (o.batch console expander args input output).ComesUp paths files names s →
      (o.batch console expander args input output).Expands s.files names text →
      ∃ files', s.files.store (output ++ names)
        ((o.batch console expander args input output).written text) = .ok files')
    (hprints : ∀ item, console.fault? item = none) :
    let b := o.batch console expander args input output
    let r := processFiles console settings o input output files
    ((∃ code, r.ending = .ok code) ↔
      ∀ names s, b.ComesUp paths files names s →
        (∀ fault, b.template? s.files names ≠ some (.error fault)) ∧
          ¬ b.IsTooDeep s.files names) ∧
    (∀ code, r.ending = .ok code → b.GoesThrough paths files r code) ∧
    ∀ e, r.ending = .error e →
      ∃ names s, b.ComesUp paths files names s ∧ r.files = s.files ∧
        ((∃ fault, b.template? s.files names = some (.error fault) ∧ e = .encoding fault) ∨
          (b.IsTooDeep s.files names ∧ e = .exhausted)) := by
  intro b r
  rcases hrun : b.processPaths paths { files } with ⟨s, _ | e⟩
  · obtain ⟨-, hconsole, hending⟩ := processFiles_of_end hargs hexpander hselects hprints hrun
    have hgood : ∀ names t, b.ComesUp paths files names t →
        (∀ fault, b.template? t.files names ≠ some (.error fault)) ∧
          ¬ b.IsTooDeep t.files names := by
      intro names t hcomes
      obtain ⟨t', -, hturn⟩ := hcomes.turn hrun
      refine ⟨hturn.isText, fun hdeep => ?_⟩
      cases hturn.of_stopsShowing hdeep.stopsShowing
    refine ⟨⟨fun _ => hgood, fun _ => ⟨_, hending⟩⟩, fun code hcode => ?_, fun e he => ?_⟩
    · obtain rfl := Except.ok.inj (hending.symm.trans hcode)
      exact Batch.goesThrough_of_processPaths hrun hconsole
    · cases hending.symm.trans he
  · obtain ⟨text, pattern, htext, hpattern, hpaths⟩ := hselects
    have hr : r = b.processPattern text files :=
      processFiles_eq_processPattern hargs hexpander htext
    have hending := Batch.processPattern_of_error hpattern hpaths hrun
    rw [← hr] at hending
    have hvalue : Json.IsValue b.args := Options.isValue_of_loadArgs hargs
    obtain ⟨names, t, hcomes, hfiles, hcause⟩ :=
      Batch.exists_undecodable_or_tooDeep hvalue hrun hwritable hprints
    rw [hending]
    refine ⟨⟨?_, fun hall => ?_⟩, nofun, fun e' he => ?_⟩
    · rintro ⟨code, hcode⟩
      cases hcode
    · obtain ⟨hisText, hnotDeep⟩ := hall names t hcomes
      rcases hcause with ⟨fault, hfile, -⟩ | ⟨hdeep, -⟩
      · exact absurd hfile (hisText fault)
      · exact absurd hdeep hnotDeep
    · obtain rfl := Except.error.inj he
      exact ⟨names, t, hcomes, hfiles, hcause⟩

/-- The first template has a scope that is never closed. It is reported, and the run goes on with
the second one. -/
theorem processFiles_returns_iff_of_failure :
    let a := ["a.sql".toList]
    let c := ["c.sql".toList]
    let input := ["in".toList]
    let output := ["out".toList]
    let files : Snapshot :=
      { entries := [(input, .directory), (input ++ a, .file [123, 123]),
          (input ++ c, .file [120]), (output, .directory)] }
    let console : Console := { escape := Markup.escape }
    let o : Options := { args := some "\x7b\x7d".toList }
    let b := o.batch console {} (.map false []) input output
    let r := processFiles console {} o input output files
    r.ending = .ok 1 ∧ b.GoesThrough [a, c] files r 1 := by
  intro a c input output files console o b r
  have hselects : o.Selects files input [a, c] := by
    refine ⟨_, _, rfl, rfl, Glob.selectIn_of_sorted rfl rfl ?_ rfl (by decide)⟩
    exact eq_ok_of_toOption (by decide +kernel)
  have hfails : ∃ reason, b.Fails files a reason := ⟨_, _, _, rfl, rfl, rfl⟩
  -- at every turn the files are as they were in the beginning
  have hturns : ∀ names s, b.ComesUp [a, c] files names s →
      s.files = files ∧ (names = a ∨ names = c) := by
    rintro names s ⟨done, rest, hsplit, hdone⟩
    rcases done with _ | ⟨first, _ | ⟨second, done⟩⟩
    · obtain ⟨rfl, -⟩ := List.cons.inj hsplit
      cases hdone
      exact ⟨rfl, Or.inl rfl⟩
    · obtain ⟨rfl, hlast⟩ := List.cons.inj hsplit
      have hnames : names = c := (List.cons.inj hlast).1.symm
      have hfiles : (b.processPaths [a] { files }).1.files = s.files := by rw [hdone]
      exact ⟨hfiles.symm, Or.inr hnames⟩
    · simp at hsplit
  have hwritable : ∀ names s text, b.ComesUp [a, c] files names s →
      b.Expands s.files names text →
      ∃ files', s.files.store (output ++ names) (b.written text) = .ok files' := by
    intro names s text hcomes hexpands
    obtain ⟨hs, rfl | rfl⟩ := hturns names s hcomes
    · rw [hs] at hexpands
      exact absurd hfails.choose_spec hexpands.not_fails
    · rw [hs]
      exact ⟨_, rfl⟩
  have hargs : o.loadArgs files = .ok b.args := rfl
  have hexpander : Settings.expander {} = .ok b.expander := rfl
  obtain ⟨hreturns, hgoes, -⟩ :=
    processFiles_returns_iff hargs hexpander hselects hwritable fun _ => rfl
  have hgood : ∀ names s, b.ComesUp [a, c] files names s →
      (∀ fault, b.template? s.files names ≠ some (.error fault)) ∧
        ¬ b.IsTooDeep s.files names := by
    intro names s hcomes
    -- no structure is to be shown
    refine ⟨fun fault hfile => ?_, fun hdeep => nomatch hdeep.1⟩
    obtain ⟨hs, rfl | rfl⟩ := hturns names s hcomes
    · rw [hs] at hfile
      cases hfile
    · rw [hs] at hfile
      cases hfile
  obtain ⟨code, hcode⟩ := hreturns.mpr hgood
  have hgoes := hgoes code hcode
  obtain ⟨reason, hreason⟩ := hfails
  have hone : code = 1 :=
    hgoes.code_eq_one_iff.mpr ⟨a, { files }, reason, ⟨[], [c], rfl, rfl⟩, hreason⟩
  rw [hone] at hcode hgoes
  exact ⟨hcode, hgoes⟩

end

/-- The first file is no text. The run ends at its turn, and the template behind it, which expands,
has no output. -/
theorem processFiles_ends_at_undecodable :
    let a := ["a.sql".toList]
    let c := ["c.sql".toList]
    let input := ["in".toList]
    let output := ["out".toList]
    let files : Snapshot :=
      { entries := [(input, .directory), (input ++ a, .file [255]), (input ++ c, .file [120]),
          (output, .directory)] }
    let console : Console := { escape := Markup.escape }
    let o : Options := { args := some "\x7b\x7d".toList }
    let b := o.batch console {} (.map false []) input output
    let r := processFiles console {} o input output files
    o.loadArgs files = .ok b.args ∧ o.Selects files input [a, c] ∧
      b.Expands files c "x".toList ∧ (∀ code, r.ending ≠ .ok code) ∧
      r.files.entry? (.inside (output ++ c)) = none := by
  intro a c input output files console o b r
  have hpattern : Glob.Pattern.ofText "**/*.sql".toList =
      .ok ⟨[.anyDepth, .wild (Glob.parts 0 "*.sql".toList)], false⟩ := rfl
  have hpaths : Glob.selectIn files input
      ⟨[.anyDepth, .wild (Glob.parts 0 "*.sql".toList)], false⟩ = .ok [a, c] := by
    refine Glob.selectIn_of_sorted rfl rfl ?_ rfl (by decide)
    exact eq_ok_of_toOption (by decide +kernel)
  have hr : r = b.processPattern "**/*.sql".toList files :=
    processFiles_eq_processPattern rfl rfl rfl
  have hrun : b.processPaths [a, c] { files } =
      ({ files, count := 1 }, some (.encoding ⟨.start, 0, 255, 1⟩)) := rfl
  have hends := Batch.processPattern_of_error hpattern hpaths hrun
  rw [← hr] at hends
  refine ⟨rfl, ⟨_, _, rfl, hpattern, hpaths⟩, ⟨"x".toList, rfl, rfl⟩, fun code hcode => ?_, ?_⟩
  · rw [hends] at hcode
    cases hcode
  · rw [hends]
    rfl

end SqlTemplate
