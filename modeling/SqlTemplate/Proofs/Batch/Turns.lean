import Mathlib.Data.List.Induction
import SqlTemplate.Batch

set_option autoImplicit false

/-! # The turns of a run

A run takes the selected paths one after another. `Batch.Turn` lists what the turn of a path can do,
each with the conditions under which it does this, and `Batch.processPath_turn` shows that there is
nothing else.

A run gets to the turn of a path in a certain state (`Batch.ComesUp`). It ends on the spot at the
first turn that ends it (`Batch.processPaths_eq_error`). When it gets to the end, it has failed
exactly if it has got to a template that does not expand (`Batch.processPaths_failed_iff`).
-/

namespace SqlTemplate

namespace Batch

variable {b : Batch} {names : List Text} {s s' : Progress}

/-! ## Templates -/

/-- What names lead to from the input directory: the text of a file, or why a file is no text.
There is nothing unless they lead to a file. -/
def template? (b : Batch) (files : Snapshot) (names : List Text) :
    Option (Except Utf8.Fault Text) :=
  match files.lookAt (b.input ++ names) with
  | .ok (.file content) => some (Utf8.readFile content)
  | _ => none

/-- Whether names lead to a template. -/
def IsTemplate (b : Batch) (files : Snapshot) (names : List Text) : Prop :=
  ∃ template, b.template? files names = some (.ok template)

/-- Whether names lead to a template that expands to a text. -/
def Expands (b : Batch) (files : Snapshot) (names : List Text) (text : Text) : Prop :=
  ∃ template, b.template? files names = some (.ok template) ∧
    b.expander.expand template b.args = .ok ⟨text, none⟩

/-- Whether names lead to a template that does not expand, for the given reason. -/
def Fails (b : Batch) (files : Snapshot) (names : List Text) (reason : Text) : Prop :=
  ∃ template expansion, b.template? files names = some (.ok template) ∧
    b.expander.expand template b.args = .ok expansion ∧ expansion.error = some reason

/-- Whether names lead to a template that needs a value without a text. -/
def LacksText (b : Batch) (files : Snapshot) (names : List Text) (fault : FormatFault) : Prop :=
  ∃ template, b.template? files names = some (.ok template) ∧
    b.expander.expand template b.args = .error fault

/-- What ends the run when the structure of a template is to be shown, if anything does. -/
def showFault? (b : Batch) (title template : Text) : Option RunError :=
  if b.showTree then
    match b.expander.build template with
    | .error _ => none
    | .ok tree =>
        match tree.outline b.console.escape b.expander.room title with
        | .ok o => (b.console.fault? (.outline o)).map .console
        | .error .exhausted => some .exhausted
        | .error (.foreign x) => x.elim
  else none

/-- Whether names lead to a template whose structure is to be shown, and this ends the run. -/
def StopsShowing (b : Batch) (files : Snapshot) (names : List Text) (e : RunError) : Prop :=
  ∃ template, b.template? files names = some (.ok template) ∧
    b.showFault? (names.getLastD []) template = some e

/-- Whether the turn of a path shows an outline: that of the tree of a template, under the last
name of the path. -/
def Shows (b : Batch) (files : Snapshot) (names : List Text) (o : Outline) : Prop :=
  b.showTree = true ∧ ∃ template tree, b.template? files names = some (.ok template) ∧
    b.expander.build template = .ok tree ∧
    tree.outline b.console.escape b.expander.room (names.getLastD []) = .ok o

/-- Whether the turn of a path is to show a tree that is nested too deeply. -/
def IsTooDeep (b : Batch) (files : Snapshot) (names : List Text) : Prop :=
  b.showTree = true ∧ ∃ template tree, b.template? files names = some (.ok template) ∧
    b.expander.build template = .ok tree ∧
    tree.outline b.console.escape b.expander.room (names.getLastD []) = .error .exhausted

section

variable {files : Snapshot}

theorem showFault?_eq_some_iff (b : Batch) (title template : Text) (e : RunError) :
    b.showFault? title template = some e ↔
      b.showTree = true ∧ ∃ tree, b.expander.build template = .ok tree ∧
        ((tree.outline b.console.escape b.expander.room title = .error .exhausted ∧
            e = .exhausted) ∨
          ∃ o message, tree.outline b.console.escape b.expander.room title = .ok o ∧
            b.console.fault? (.outline o) = some message ∧ e = .console message) := by
  rw [showFault?]
  cases b.showTree with
  | false => simp
  | true =>
      cases b.expander.build template with
      | error reason => simp
      | ok tree =>
          simp only [if_true, Except.ok.injEq, exists_eq_left', true_and]
          cases tree.outline b.console.escape b.expander.room title with
          | ok o =>
              simp only [Option.map_eq_some_iff, Except.ok.injEq, reduceCtorEq, false_and, false_or]
              constructor
              · rintro ⟨message, hfault, rfl⟩
                exact ⟨o, message, rfl, hfault, rfl⟩
              · rintro ⟨_, message, rfl, hfault, rfl⟩
                exact ⟨message, hfault, rfl⟩
          | error reason =>
              cases reason with
              | exhausted => simp [eq_comm]
              | foreign x => exact x.elim

/-- **What ends a run at a structure** that is to be shown: its outline does not fit, or the console
does not print it. -/
theorem stopsShowing_iff (b : Batch) (files : Snapshot) (names : List Text) (e : RunError) :
    b.StopsShowing files names e ↔
      (b.IsTooDeep files names ∧ e = .exhausted) ∨
        ∃ o message, b.Shows files names o ∧ b.console.fault? (.outline o) = some message ∧
          e = .console message := by
  simp only [StopsShowing, IsTooDeep, Shows, showFault?_eq_some_iff]
  constructor
  · rintro ⟨template, hfile, hshow, tree, hbuild, ⟨hdeep, he⟩ | ⟨o, message, ho, hfault, he⟩⟩
    · exact Or.inl ⟨⟨hshow, template, tree, hfile, hbuild, hdeep⟩, he⟩
    · exact Or.inr ⟨o, message, ⟨hshow, template, tree, hfile, hbuild, ho⟩, hfault, he⟩
  · rintro (⟨⟨hshow, template, tree, hfile, hbuild, hdeep⟩, he⟩ |
      ⟨o, message, ⟨hshow, template, tree, hfile, hbuild, ho⟩, hfault, he⟩)
    · exact ⟨template, hfile, hshow, tree, hbuild, Or.inl ⟨hdeep, he⟩⟩
    · exact ⟨template, hfile, hshow, tree, hbuild, Or.inr ⟨o, message, ho, hfault, he⟩⟩

/-- On a console that prints every outline, only those that do not fit end a run. -/
theorem StopsShowing.isTooDeep {e : RunError} (h : b.StopsShowing files names e)
    (hprints : ∀ o, b.console.fault? (.outline o) = none) :
    b.IsTooDeep files names ∧ e = .exhausted := by
  rcases (stopsShowing_iff b files names e).mp h with hdeep | ⟨o, message, -, hfault, -⟩
  · exact hdeep
  · rw [hprints] at hfault
    cases hfault

theorem IsTooDeep.stopsShowing (h : b.IsTooDeep files names) :
    b.StopsShowing files names .exhausted :=
  (stopsShowing_iff b files names .exhausted).mpr (Or.inl ⟨h, rfl⟩)

theorem IsTemplate.ne_none (h : b.IsTemplate files names) : b.template? files names ≠ none := by
  obtain ⟨template, hfile⟩ := h
  rw [hfile]
  exact nofun

theorem IsTemplate.isText (h : b.IsTemplate files names) (fault : Utf8.Fault) :
    b.template? files names ≠ some (.error fault) := by
  obtain ⟨template, hfile⟩ := h
  rw [hfile]
  exact nofun

variable {text text' reason reason' : Text} {fault : FormatFault} {e e' : RunError}

theorem Expands.isTemplate (h : b.Expands files names text) : b.IsTemplate files names := by
  obtain ⟨template, hfile, -⟩ := h
  exact ⟨template, hfile⟩

theorem Fails.isTemplate (h : b.Fails files names reason) : b.IsTemplate files names := by
  obtain ⟨template, expansion, hfile, -⟩ := h
  exact ⟨template, hfile⟩

theorem LacksText.isTemplate (h : b.LacksText files names fault) : b.IsTemplate files names := by
  obtain ⟨template, hfile, -⟩ := h
  exact ⟨template, hfile⟩

theorem StopsShowing.isTemplate (h : b.StopsShowing files names e) : b.IsTemplate files names := by
  obtain ⟨template, hfile, -⟩ := h
  exact ⟨template, hfile⟩

theorem template_unique {template template' : Text}
    (h : b.template? files names = some (.ok template))
    (h' : b.template? files names = some (.ok template')) : template = template' :=
  Except.ok.inj (Option.some.inj (h.symm.trans h'))

theorem Expands.not_fails (h : b.Expands files names text) : ¬ b.Fails files names reason := by
  rintro ⟨template, expansion, hfile, hexpansion, hreason⟩
  obtain ⟨template', hfile', hexpansion'⟩ := h
  obtain rfl := template_unique hfile hfile'
  obtain rfl := Except.ok.inj (hexpansion.symm.trans hexpansion')
  cases hreason

theorem Expands.not_lacksText (h : b.Expands files names text) :
    ¬ b.LacksText files names fault := by
  rintro ⟨template, hfile, hfault⟩
  obtain ⟨template', hfile', hexpansion⟩ := h
  obtain rfl := template_unique hfile hfile'
  cases hfault.symm.trans hexpansion

theorem Fails.not_lacksText (h : b.Fails files names reason) :
    ¬ b.LacksText files names fault := by
  rintro ⟨template, hfile, hfault⟩
  obtain ⟨template', expansion, hfile', hexpansion, -⟩ := h
  obtain rfl := template_unique hfile hfile'
  cases hfault.symm.trans hexpansion

theorem Expands.unique (h : b.Expands files names text) (h' : b.Expands files names text') :
    text = text' := by
  obtain ⟨template, hfile, hexpansion⟩ := h
  obtain ⟨template', hfile', hexpansion'⟩ := h'
  obtain rfl := template_unique hfile hfile'
  cases hexpansion.symm.trans hexpansion'
  rfl

theorem Fails.unique (h : b.Fails files names reason) (h' : b.Fails files names reason') :
    reason = reason' := by
  obtain ⟨template, expansion, hfile, hexpansion, hreason⟩ := h
  obtain ⟨template', expansion', hfile', hexpansion', hreason'⟩ := h'
  obtain rfl := template_unique hfile hfile'
  obtain rfl := Except.ok.inj (hexpansion.symm.trans hexpansion')
  exact Option.some.inj (hreason.symm.trans hreason')

theorem StopsShowing.unique (h : b.StopsShowing files names e)
    (h' : b.StopsShowing files names e') : e = e' := by
  obtain ⟨template, hfile, hfault⟩ := h
  obtain ⟨template', hfile', hfault'⟩ := h'
  obtain rfl := template_unique hfile hfile'
  exact Option.some.inj (hfault.symm.trans hfault')

/-- A template expands, or it does not, or it needs a value without a text. -/
theorem IsTemplate.cases (h : b.IsTemplate files names) :
    (∃ text, b.Expands files names text) ∨ (∃ reason, b.Fails files names reason) ∨
      ∃ fault, b.LacksText files names fault := by
  obtain ⟨template, hfile⟩ := h
  rcases hexpansion : b.expander.expand template b.args with fault | ⟨text, _ | reason⟩
  · exact Or.inr (Or.inr ⟨fault, template, hfile, hexpansion⟩)
  · exact Or.inl ⟨text, template, hfile, hexpansion⟩
  · exact Or.inr (Or.inl ⟨reason, template, _, hfile, hexpansion, rfl⟩)

end

/-- The line that reports the template of names. -/
def report (b : Batch) (names : List Text) (reason : Text) : ConsoleItem :=
  .line (failureLine { names := b.input ++ names } reason)

/-! ## One turn -/

/-- What the turn of a path can do to a run. -/
inductive Turn (b : Batch) (names : List Text) (s s' : Progress) : Option RunError → Prop where
  -- there is no file
  | skipped (hfile : b.template? s.files names = none) (hs : s' = s) : Turn b names s s' none
  -- there is a file that is no text
  | undecodable {fault : Utf8.Fault} (hfile : b.template? s.files names = some (.error fault))
      (hfiles : s'.files = s.files) : Turn b names s s' (some (.encoding fault))
  -- there is a template whose structure is not shown
  | unshown {e : RunError} (hstops : b.StopsShowing s.files names e)
      (hfiles : s'.files = s.files) : Turn b names s s' (some e)
  -- there is a template that needs a value without a text
  | textless {fault : FormatFault} (hshown : ∀ e, ¬ b.StopsShowing s.files names e)
      (hlacks : b.LacksText s.files names fault) (hfiles : s'.files = s.files) :
      Turn b names s s' (some (.noText fault))
  -- there is a template that does not expand
  | failed {reason : Text} (hshown : ∀ e, ¬ b.StopsShowing s.files names e)
      (hfails : b.Fails s.files names reason) (hfiles : s'.files = s.files)
      (hfailed : s'.failed = true) (hline : b.report names reason ∈ s'.console) :
      Turn b names s s' none
  -- it cannot be reported
  | unprinted {reason message : Text} (hshown : ∀ e, ¬ b.StopsShowing s.files names e)
      (hfails : b.Fails s.files names reason) (hfiles : s'.files = s.files)
      (hrefused : b.console.fault? (b.report names reason) = some message) :
      Turn b names s s' (some (.console message))
  -- there is a template that expands
  | written {text : Text} (hshown : ∀ e, ¬ b.StopsShowing s.files names e)
      (hexpands : b.Expands s.files names text)
      (hstore : s.files.store (b.output ++ names) (b.written text) = .ok s'.files)
      (hfailed : s'.failed = s.failed) : Turn b names s s' none
  -- its output cannot be written
  | unwritable {text : Text} {reason : FileError} (hshown : ∀ e, ¬ b.StopsShowing s.files names e)
      (hexpands : b.Expands s.files names text) (hfiles : s'.files = s.files)
      (hstore : s.files.store (b.output ++ names) (b.written text) = .error reason) :
      Turn b names s s' (some (.file reason))

/-- Showing the structure of a template only prints, or ends the run. -/
theorem show?_eq (b : Batch) (title template : Text) (s : Progress) :
    ∃ items, b.show? title template s =
      ({ s with console := s.console ++ items }, b.showFault? title template) := by
  have hnothing : { s with console := s.console ++ [] } = s := by rw [List.append_nil]
  rw [show?, showFault?]
  split
  · cases b.expander.build template with
    | error e => exact ⟨[], by rw [hnothing]⟩
    | ok tree =>
        cases houtline : tree.outline b.console.escape b.expander.room title with
        | ok o =>
            simp only [Progress.print, houtline]
            cases b.console.fault? (.outline o) with
            | none => exact ⟨[.outline o], rfl⟩
            | some message => exact ⟨[], by rw [hnothing]; rfl⟩
        | error e =>
            cases e with
            | exhausted => exact ⟨[], by simp only [houtline, hnothing]⟩
            | foreign x => exact x.elim
  · exact ⟨[], by rw [hnothing]⟩

theorem processPath_eq (b : Batch) (names : List Text) (s : Progress) :
    b.processPath names s =
      match b.template? s.files names with
      | none => (s, none)
      | some (.error fault) => ({ s with count := s.count + 1 }, some (.encoding fault))
      | some (.ok template) => b.expandFile names template { s with count := s.count + 1 } := by
  rw [processPath, template?]
  cases s.files.lookAt (b.input ++ names) with
  | error fault => rfl
  | ok entry =>
      cases entry with
      | directory => rfl
      | file content =>
          simp only
          cases Utf8.readFile content with
          | error fault => rfl
          | ok template => rfl

/-- **What the turn of a path does.** -/
theorem processPath_turn (b : Batch) (names : List Text) (s : Progress) :
    b.Turn names s (b.processPath names s).1 (b.processPath names s).2 := by
  rw [processPath_eq]
  cases hfile : b.template? s.files names with
  | none => exact .skipped hfile rfl
  | some read =>
      cases read with
      | error fault => exact .undecodable hfile rfl
      | ok template =>
          obtain ⟨items, hshow⟩ :=
            b.show?_eq (names.getLastD []) template { s with count := s.count + 1 }
          simp only [expandFile, hshow]
          cases hfault : b.showFault? (names.getLastD []) template with
          | some e => exact .unshown ⟨template, hfile, hfault⟩ rfl
          | none =>
              have hshown : ∀ e, ¬ b.StopsShowing s.files names e := by
                rintro e ⟨template', hfile', hfault'⟩
                obtain rfl := template_unique hfile hfile'
                cases hfault.symm.trans hfault'
              simp only
              rcases hexpansion : b.expander.expand template b.args
                with fault | ⟨text, _ | reason⟩
              · exact .textless hshown ⟨template, hfile, hexpansion⟩ rfl
              · have hexpands : b.Expands s.files names text := ⟨template, hfile, hexpansion⟩
                simp only [deliver]
                cases hstore : s.files.store (b.output ++ names) (b.written text) with
                | ok files => exact .written hshown hexpands hstore rfl
                | error reason => exact .unwritable hshown hexpands rfl hstore
              · have hfails : b.Fails s.files names reason :=
                  ⟨template, _, hfile, hexpansion, rfl⟩
                simp only [deliver, Progress.print]
                cases hprint : b.console.fault? (b.report names reason) with
                | none =>
                    simp only [report] at hprint
                    simp only [hprint]
                    exact .failed hshown hfails rfl rfl
                      (List.mem_append_right _ List.mem_cons_self)
                | some message =>
                    have hrefused := hprint
                    simp only [report] at hprint
                    simp only [hprint]
                    exact .unprinted hshown hfails rfl hrefused

/-- A turn that ends a run leaves the files as they were. -/
theorem files_eq_of_error {e : RunError} (h : b.processPath names s = (s', some e)) :
    s'.files = s.files := by
  have hturn := b.processPath_turn names s
  rw [h] at hturn
  cases hturn <;> assumption

/-- A turn prints behind what was printed before. -/
theorem prefix_console_processPath (b : Batch) (names : List Text) (s : Progress) :
    s.console <+: (b.processPath names s).1.console := by
  rw [processPath_eq]
  split
  · exact List.prefix_rfl
  · exact List.prefix_rfl
  · rename_i template hfile
    obtain ⟨items, hshow⟩ :=
      b.show?_eq (names.getLastD []) template { s with count := s.count + 1 }
    simp only [expandFile, hshow]
    split
    · rename_i heq
      obtain ⟨rfl, -⟩ := Prod.mk.inj heq
      exact List.prefix_append ..
    · rename_i heq
      obtain ⟨rfl, -⟩ := Prod.mk.inj heq
      split
      · exact List.prefix_append ..
      · simp only [deliver, Progress.print]
        split
        · split
          · exact List.prefix_append ..
          · exact (List.prefix_append ..).trans (List.prefix_append ..)
        · split
          · exact List.prefix_append ..
          · exact List.prefix_append ..

namespace Turn

variable {ending : Option RunError}

/-- The turn of a template whose structure cannot be shown ends the run. -/
theorem of_stopsShowing (h : b.Turn names s s' ending) {e : RunError}
    (hstops : b.StopsShowing s.files names e) : ending = some e := by
  cases h with
  | skipped hnone hs => exact absurd hnone hstops.isTemplate.ne_none
  | undecodable herror hfiles => exact absurd herror (hstops.isTemplate.isText _)
  | unshown hstops' hfiles => rw [hstops.unique hstops']
  | textless hshown hlacks hfiles => exact absurd hstops (hshown e)
  | failed hshown hfails hfiles hfailed hline => exact absurd hstops (hshown e)
  | unprinted hshown hfails hfiles hrefused => exact absurd hstops (hshown e)
  | written hshown hexpands hstore hfailed => exact absurd hstops (hshown e)
  | unwritable hshown hexpands hfiles hstore => exact absurd hstops (hshown e)

/-- The turn of a template that expands is its output, or an error about it, unless its structure
cannot be shown. -/
theorem of_expands (h : b.Turn names s s' ending) {text : Text}
    (hexpands : b.Expands s.files names text) :
    (ending = none ∧ s.files.store (b.output ++ names) (b.written text) = .ok s'.files ∧
        s'.failed = s.failed) ∨
      (∃ reason, ending = some (.file reason) ∧
        s.files.store (b.output ++ names) (b.written text) = .error reason) ∨
      ∃ e, ending = some e ∧ b.StopsShowing s.files names e := by
  cases h with
  | skipped hnone hs => exact absurd hnone hexpands.isTemplate.ne_none
  | undecodable herror hfiles => exact absurd herror (hexpands.isTemplate.isText _)
  | unshown hstops hfiles => exact Or.inr (Or.inr ⟨_, rfl, hstops⟩)
  | textless hshown hlacks hfiles => exact absurd hlacks hexpands.not_lacksText
  | failed hshown hfails hfiles hfailed hline => exact absurd hfails hexpands.not_fails
  | unprinted hshown hfails hfiles hrefused => exact absurd hfails hexpands.not_fails
  | written hshown hexpands' hstore hfailed =>
      rw [← hexpands.unique hexpands'] at hstore
      exact Or.inl ⟨rfl, hstore, hfailed⟩
  | unwritable hshown hexpands' hfiles hstore =>
      rw [← hexpands.unique hexpands'] at hstore
      exact Or.inr (Or.inl ⟨_, rfl, hstore⟩)

/-- The turn of a template that does not expand is a report and nothing else, unless the report or
the structure cannot be printed. -/
theorem of_fails (h : b.Turn names s s' ending) {reason : Text}
    (hfails : b.Fails s.files names reason) :
    s'.files = s.files ∧
      ((ending = none ∧ s'.failed = true ∧ b.report names reason ∈ s'.console) ∨
        (∃ message, ending = some (.console message) ∧
          b.console.fault? (b.report names reason) = some message) ∨
        ∃ e, ending = some e ∧ b.StopsShowing s.files names e) := by
  cases h with
  | skipped hnone hs => exact absurd hnone hfails.isTemplate.ne_none
  | undecodable herror hfiles => exact absurd herror (hfails.isTemplate.isText _)
  | unshown hstops hfiles => exact ⟨hfiles, Or.inr (Or.inr ⟨_, rfl, hstops⟩)⟩
  | textless hshown hlacks hfiles => exact absurd hlacks hfails.not_lacksText
  | failed hshown hfails' hfiles hfailed hline =>
      rw [← hfails.unique hfails'] at hline
      exact ⟨hfiles, Or.inl ⟨rfl, hfailed, hline⟩⟩
  | unprinted hshown hfails' hfiles hrefused =>
      rw [← hfails.unique hfails'] at hrefused
      exact ⟨hfiles, Or.inr (Or.inl ⟨_, rfl, hrefused⟩)⟩
  | written hshown hexpands hstore hfailed => exact absurd hfails hexpands.not_fails
  | unwritable hshown hexpands hfiles hstore => exact absurd hfails hexpands.not_fails

/-- A turn that does not end the run has found no file that is no text. -/
theorem isText (h : b.Turn names s s' none) (fault : Utf8.Fault) :
    b.template? s.files names ≠ some (.error fault) := by
  cases h with
  | skipped hnone hs =>
      rw [hnone]
      exact nofun
  | failed hshown hfails hfiles hfailed hline => exact hfails.isTemplate.isText fault
  | written hshown hexpands hstore hfailed => exact hexpands.isTemplate.isText fault

/-- A turn that does not end the run has found no template that needs a value without a text. -/
theorem hasText (h : b.Turn names s s' none) (fault : FormatFault) :
    ¬ b.LacksText s.files names fault := by
  cases h with
  | skipped hnone hs => exact fun hlacks => hlacks.isTemplate.ne_none hnone
  | failed hshown hfails hfiles hfailed hline => exact hfails.not_lacksText
  | written hshown hexpands hstore hfailed => exact hexpands.not_lacksText

/-- A run that has failed stays failed. -/
theorem failed_mono (h : b.Turn names s s' none) (hs : s.failed = true) : s'.failed = true := by
  cases h with
  | skipped hfile he => rwa [he]
  | failed hshown hfails hfiles hfailed hline => exact hfailed
  | written hshown hexpands hstore hfailed => rwa [hfailed]

end Turn

/-! ## The run -/

theorem processPaths_append (b : Batch) (done rest : List (List Text)) (s : Progress) :
    b.processPaths (done ++ rest) s =
      match b.processPaths done s with
      | (s', some e) => (s', some e)
      | (s', none) => b.processPaths rest s' := by
  induction done generalizing s with
  | nil => rfl
  | cons names done ih =>
      rw [List.cons_append, processPaths, processPaths]
      rcases b.processPath names s with ⟨s', _ | e⟩
      · exact ih s'
      · rfl

/-- A run over paths and one more path gets to the end when it does so for the paths and then for
the one. -/
theorem processPaths_concat_eq_none (b : Batch) (done : List (List Text)) (names : List Text)
    (s t : Progress) :
    b.processPaths (done ++ [names]) s = (t, none) ↔
      ∃ s', b.processPaths done s = (s', none) ∧ b.processPath names s' = (t, none) := by
  rw [processPaths_append]
  rcases b.processPaths done s with ⟨s', _ | e⟩
  · simp only [processPaths]
    rcases hturn : b.processPath names s' with ⟨t', _ | e⟩
    · simp [hturn]
    · simp [hturn]
  · simp

/-- **A run that ends on the spot** ends at the turn of a path, as this turn has left it. -/
theorem processPaths_eq_error {paths : List (List Text)} {e : RunError}
    (h : b.processPaths paths s = (s', some e)) :
    ∃ done names rest t, paths = done ++ names :: rest ∧ b.processPaths done s = (t, none) ∧
      b.processPath names t = (s', some e) := by
  induction paths generalizing s with
  | nil => cases h
  | cons names rest ih =>
      rw [processPaths] at h
      rcases hturn : b.processPath names s with ⟨t, _ | e'⟩
      · rw [hturn] at h
        obtain ⟨done, names', rest', t', rfl, hdone, hlast⟩ := ih h
        refine ⟨names :: done, names', rest', t', rfl, ?_, hlast⟩
        rw [processPaths, hturn]
        exact hdone
      · rw [hturn] at h
        exact ⟨[], names, rest, s, rfl, rfl, hturn.trans h⟩

theorem prefix_console_processPaths (b : Batch) (paths : List (List Text)) (s : Progress) :
    s.console <+: (b.processPaths paths s).1.console := by
  induction paths generalizing s with
  | nil => exact List.prefix_rfl
  | cons names rest ih =>
      have hturn := b.prefix_console_processPath names s
      rw [processPaths]
      rcases hs : b.processPath names s with ⟨s', _ | e⟩
      · rw [hs] at hturn
        exact hturn.trans (ih s')
      · rwa [hs] at hturn

theorem processPaths_failed_mono {paths : List (List Text)}
    (h : b.processPaths paths s = (s', none)) (hs : s.failed = true) : s'.failed = true := by
  induction paths generalizing s with
  | nil =>
      cases h
      exact hs
  | cons names rest ih =>
      rw [processPaths] at h
      have hturn := b.processPath_turn names s
      rcases ht : b.processPath names s with ⟨t, _ | e⟩
      · rw [ht] at h hturn
        exact ih h (hturn.failed_mono hs)
      · rw [ht] at h
        cases h

/-- Whether a run over paths gets to the turn of a path, and in which state. -/
def ComesUp (b : Batch) (paths : List (List Text)) (files : Snapshot) (names : List Text)
    (s : Progress) : Prop :=
  ∃ done rest, paths = done ++ names :: rest ∧ b.processPaths done { files } = (s, none)

/-- A run that gets to the end gets to the turn of every path and over it. -/
theorem exists_comesUp {paths : List (List Text)} {files : Snapshot}
    (h : b.processPaths paths { files } = (s', none)) (hnames : names ∈ paths) :
    ∃ s, b.ComesUp paths files names s := by
  obtain ⟨done, rest, rfl⟩ := List.append_of_mem hnames
  rw [processPaths_append] at h
  rcases hdone : b.processPaths done { files } with ⟨s, _ | e⟩
  · exact ⟨s, done, rest, rfl, hdone⟩
  · rw [hdone] at h
    cases h

/-- A run that gets to the end gets over the turn of a path and goes on with the rest. -/
theorem ComesUp.goes_on {paths : List (List Text)} {files : Snapshot}
    (h : b.ComesUp paths files names s) (hend : b.processPaths paths { files } = (s', none)) :
    ∃ t rest, b.processPath names s = (t, none) ∧ b.processPaths rest t = (s', none) := by
  obtain ⟨done, rest, rfl, hdone⟩ := h
  rw [processPaths_append, hdone] at hend
  simp only [processPaths] at hend
  rcases hturn : b.processPath names s with ⟨t, _ | e⟩
  · rw [hturn] at hend
    exact ⟨t, rest, rfl, hend⟩
  · rw [hturn] at hend
    cases hend

/-- A run that gets to the end has gone on at the turn of every path. -/
theorem ComesUp.turn {paths : List (List Text)} {files : Snapshot}
    (h : b.ComesUp paths files names s) (hend : b.processPaths paths { files } = (s', none)) :
    ∃ t, b.processPath names s = (t, none) ∧ b.Turn names s t none := by
  obtain ⟨t, -, hpath, -⟩ := h.goes_on hend
  have hturn := b.processPath_turn names s
  rw [hpath] at hturn
  exact ⟨t, hpath, hturn⟩

/-- A run that ends on the spot has got to a turn that ends it, and leaves the files as they were
then. -/
theorem exists_comesUp_of_error {paths : List (List Text)} {files : Snapshot} {e : RunError}
    (h : b.processPaths paths { files } = (s', some e)) :
    ∃ names s, b.ComesUp paths files names s ∧ b.processPath names s = (s', some e) ∧
      s'.files = s.files := by
  obtain ⟨done, names, rest, s, hsplit, hdone, hpath⟩ := processPaths_eq_error h
  exact ⟨names, s, ⟨done, rest, hsplit, hdone⟩, hpath, files_eq_of_error hpath⟩

/-- A run that gets to the end has failed when it got to a template that does not expand. -/
theorem processPaths_failed_iff {paths : List (List Text)} {files : Snapshot}
    (hend : b.processPaths paths { files } = (s', none)) :
    s'.failed = true ↔
      ∃ names s reason, b.ComesUp paths files names s ∧ b.Fails s.files names reason := by
  constructor
  · intro hfailed
    induction paths using List.reverseRecOn generalizing s' with
    | nil =>
        cases hend
        cases hfailed
    | append_singleton done last ih =>
        obtain ⟨s, hdone, hlast⟩ := (processPaths_concat_eq_none b done last _ s').mp hend
        have hturn := b.processPath_turn last s
        rw [hlast] at hturn
        have hbefore : s.failed = true → ∃ names s reason,
            b.ComesUp (done ++ [last]) files names s ∧ b.Fails s.files names reason := by
          intro hs
          obtain ⟨names, t, reason, ⟨done', rest, rfl, hdone'⟩, hfails⟩ := ih hdone hs
          refine ⟨names, t, reason, ⟨done', rest ++ [last], ?_, hdone'⟩, hfails⟩
          rw [List.append_assoc, List.cons_append]
        cases hturn with
        | skipped hfile he => exact hbefore (he ▸ hfailed)
        | failed hshown hfails hfiles hfailed hline =>
            exact ⟨last, s, _, ⟨done, [], rfl, hdone⟩, hfails⟩
        | written hshown hexpands hstore he => exact hbefore (he ▸ hfailed)
  · rintro ⟨names, s, reason, hcomes, hfails⟩
    obtain ⟨t, rest, hpath, hrest⟩ := hcomes.goes_on hend
    have hturn := b.processPath_turn names s
    rw [hpath] at hturn
    rcases (hturn.of_fails hfails).2 with ⟨-, hfailed, -⟩ | ⟨message, hending, -⟩ | ⟨e, hending, -⟩
    · exact processPaths_failed_mono hrest hfailed
    · cases hending
    · cases hending

end Batch

end SqlTemplate
