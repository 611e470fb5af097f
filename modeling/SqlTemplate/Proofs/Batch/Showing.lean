import SqlTemplate.Proofs.Batch.Returns
import SqlTemplate.Proofs.Expander.Outlines
import SqlTemplate.Proofs.Text.Utf8

set_option autoImplicit false

/-! # Runs that show the trees

A run can show the structure of each template before it expands it. The main statement,
`processFiles_showTree`, compares the run that does so with the one that does not. Where every
structure can be shown, they leave the same files, they end in the same way, and they print the same
lines; what the first one prints besides are the outlines of the templates that can be built, each
at its turn. A structure that cannot be shown ends the run. A closed run that ends so, while the
other one succeeds, is `processFiles_ends_at_tooDeep`.

The comparison goes through what is left of a state when its outlines are forgotten
(`Progress.withoutOutlines`). One turn of the run that shows nothing takes it to what is left after
the turn of the other run (`Batch.silent_processPath`), and so does a whole run.
-/

namespace SqlTemplate

/-- Whether something printed is a line and no outline. -/
def ConsoleItem.isLine : ConsoleItem → Bool
  | .line _ => true
  | .outline _ => false

/-- What a run has done so far, but for the outlines that it has printed. -/
def Progress.withoutOutlines (s : Progress) : Progress :=
  { s with console := s.console.filter (·.isLine) }

/-- A run that has ended, but for the outlines that it has printed. -/
def RunResult.withoutOutlines (r : RunResult) : RunResult :=
  { r with console := r.console.filter (·.isLine) }

namespace Progress

@[simp] theorem withoutOutlines_files (s : Progress) : s.withoutOutlines.files = s.files := rfl

@[simp] theorem withoutOutlines_count (s : Progress) : s.withoutOutlines.count = s.count := rfl

/-- Lines are printed as well, or as little, when outlines are forgotten. -/
theorem print_withoutOutlines (s : Progress) (console : Console) (markup : Text) :
    s.withoutOutlines.print console (.line markup) =
      ((s.print console (.line markup)).1.withoutOutlines,
        (s.print console (.line markup)).2) := by
  rw [print, print]
  cases console.fault? (.line markup) with
  | some message => rfl
  | none => simp [withoutOutlines, ConsoleItem.isLine]

end Progress

theorem RunResult.ofProgress_withoutOutlines (s : Progress) (ending : Option RunError) :
    ofProgress (s.withoutOutlines, ending) = (ofProgress (s, ending)).withoutOutlines := by
  cases ending <;> rfl

namespace Batch

variable {b : Batch}

/-- What a run does with every template when it shows nothing. -/
def silent (b : Batch) : Batch := { b with showTree := false }

/-! ## Outlines forgotten -/

theorem withoutOutlines_show? (b : Batch) (title template : Text) (s : Progress) :
    (b.show? title template s).1.withoutOutlines = s.withoutOutlines := by
  rw [show?]
  split
  · split
    · rfl
    · split
      · rename_i o _
        rw [Progress.print]
        cases b.console.fault? (.outline o) with
        | some message => rfl
        | none => simp [Progress.withoutOutlines, ConsoleItem.isLine]
      · rfl
      · rename_i x _
        exact x.elim
  · rfl

/-- What becomes of a template is the same when outlines are forgotten. -/
theorem silent_deliver (b : Batch) (names : List Text) (expansion : Expansion) (s : Progress) :
    b.silent.deliver names expansion s.withoutOutlines =
      ((b.deliver names expansion s).1.withoutOutlines, (b.deliver names expansion s).2) := by
  rw [deliver, deliver]
  cases expansion.error with
  | some reason => exact Progress.print_withoutOutlines { s with failed := true } b.console _
  | none =>
      have hwritten : b.silent.written expansion.text = b.written expansion.text := rfl
      have houtput : b.silent.output = b.output := rfl
      simp only [Progress.withoutOutlines_files, hwritten, houtput]
      cases s.files.store (b.output ++ names) (b.written expansion.text) with
      | ok files => rfl
      | error e => rfl

/-- **One turn** that shows nothing goes as the other one goes when its outlines are forgotten, if
what is shown there does not end the run. -/
theorem silent_processPath {names : List Text} {s : Progress}
    (hshown : ∀ e, ¬ b.StopsShowing s.files names e) :
    b.silent.processPath names s.withoutOutlines =
      ((b.processPath names s).1.withoutOutlines, (b.processPath names s).2) := by
  have hfile : b.silent.template? s.withoutOutlines.files names = b.template? s.files names := rfl
  rw [processPath_eq, processPath_eq, hfile]
  cases htemplate : b.template? s.files names with
  | none => rfl
  | some read =>
      cases read with
      | error fault => rfl
      | ok template =>
          let start : Progress := { s with count := s.count + 1 }
          obtain ⟨items, hshow⟩ := b.show?_eq (names.getLastD []) template start
          have hforgotten := b.withoutOutlines_show? (names.getLastD []) template start
          have hfault : b.showFault? (names.getLastD []) template = none := by
            rw [Option.eq_none_iff_forall_not_mem]
            exact fun e he => hshown e ⟨template, htemplate, he⟩
          rw [hfault] at hshow
          rw [hshow] at hforgotten
          generalize { start with console := start.console ++ items } = t at hshow hforgotten
          -- there is nothing to show, so the silent turn goes on from the state that it came with
          have hsilent : b.silent.show? (names.getLastD []) template
              { s.withoutOutlines with count := s.count + 1 } = (t.withoutOutlines, none) := by
            rw [hforgotten]
            rfl
          have hexpand : b.silent.expander.expand template b.silent.args =
              b.expander.expand template b.args := rfl
          simp only [expandFile, Progress.withoutOutlines_count, hsilent, hexpand]
          rw [show b.show? (names.getLastD []) template { s with count := s.count + 1 } = (t, none)
            from hshow]
          cases b.expander.expand template b.args with
          | error fault => rfl
          | ok expansion => exact b.silent_deliver names expansion t

/-- **A whole run** that shows nothing goes as the other one goes when its outlines are forgotten,
if nothing that is shown ends the run. -/
theorem silent_processPaths {paths : List (List Text)} {s : Progress}
    (hshown : ∀ done names rest t, paths = done ++ names :: rest →
      b.processPaths done s = (t, none) → ∀ e, ¬ b.StopsShowing t.files names e) :
    b.silent.processPaths paths s.withoutOutlines =
      ((b.processPaths paths s).1.withoutOutlines, (b.processPaths paths s).2) := by
  induction paths generalizing s with
  | nil => rfl
  | cons names rest ih =>
      rw [processPaths, processPaths, silent_processPath (hshown [] names rest s rfl rfl)]
      rcases hpath : b.processPath names s with ⟨t, _ | e⟩
      · refine ih fun done names' rest' t' hsplit hdone => ?_
        refine hshown (names :: done) names' rest' t' (congrArg (names :: ·) hsplit) ?_
        rw [processPaths, hpath]
        exact hdone
      · rfl

theorem silent_finish (b : Batch) (pattern : Text) (s : Progress) :
    b.silent.finish pattern s.withoutOutlines =
      ((b.finish pattern s).1.withoutOutlines, (b.finish pattern s).2) := by
  rw [finish, finish, Progress.withoutOutlines_count]
  by_cases hnone : s.count = 0
  · rw [if_pos hnone, if_pos hnone]
    exact s.print_withoutOutlines b.console _
  · rw [if_neg hnone, if_neg hnone]

theorem silent_processPattern {pattern : Text} {files : Snapshot}
    (hshown : ∀ selectors paths, Glob.Pattern.ofText pattern = .ok selectors →
      Glob.selectIn files b.input selectors = .ok paths →
      ∀ names s e, b.ComesUp paths files names s → ¬ b.StopsShowing s.files names e) :
    b.silent.processPattern pattern files = (b.processPattern pattern files).withoutOutlines := by
  simp only [processPattern]
  cases hpattern : Glob.Pattern.ofText pattern with
  | error e => rfl
  | ok selectors =>
      have hinput : b.silent.input = b.input := rfl
      simp only [hinput]
      cases hpaths : Glob.selectIn files b.input selectors with
      | error e => rfl
      | ok paths =>
          have hrun : b.silent.processPaths paths { files } =
              ((b.processPaths paths { files }).1.withoutOutlines,
                (b.processPaths paths { files }).2) :=
            silent_processPaths fun done names rest t hsplit hdone e =>
              hshown selectors paths hpattern hpaths names t e ⟨done, rest, hsplit, hdone⟩
          simp only [hrun]
          rcases b.processPaths paths { files } with ⟨t, _ | e⟩
          · simp only [silent_finish]
            exact RunResult.ofProgress_withoutOutlines _ _
          · rfl

/-! ## What is shown -/

theorem mem_console_show?_iff (b : Batch) (title template : Text) (s : Progress) (o : Outline) :
    .outline o ∈ (b.show? title template s).1.console ↔
      .outline o ∈ s.console ∨ (b.showTree = true ∧ b.console.fault? (.outline o) = none ∧
        ∃ tree, b.expander.build template = .ok tree ∧
          tree.outline b.console.escape b.expander.room title = .ok o) := by
  rw [show?]
  split
  · rename_i hshow
    cases b.expander.build template with
    | error e => simp
    | ok tree =>
        simp only [hshow, true_and, Except.ok.injEq, exists_eq_left']
        cases tree.outline b.console.escape b.expander.room title with
        | ok o' =>
            simp only [Progress.print]
            cases hprint : b.console.fault? (.outline o') with
            | some message =>
                have hnot : ¬ (b.console.fault? (.outline o) = none ∧ o' = o) := by
                  rintro ⟨hnone, rfl⟩
                  cases hprint.symm.trans hnone
                simp only [Except.ok.injEq]
                exact (or_iff_left hnot).symm
            | none =>
                simp only [List.mem_append, List.mem_singleton, ConsoleItem.outline.injEq,
                  Except.ok.injEq]
                refine or_congr_right ⟨?_, fun h => h.2.symm⟩
                rintro rfl
                exact ⟨hprint, rfl⟩
        | error e =>
            cases e with
            | exhausted => simp
            | foreign x => exact x.elim
  · rename_i hshow
    simp [hshow]

theorem mem_console_deliver_iff (b : Batch) (names : List Text) (expansion : Expansion)
    (s : Progress) (o : Outline) :
    .outline o ∈ (b.deliver names expansion s).1.console ↔ .outline o ∈ s.console := by
  rw [deliver]
  split
  · rw [Progress.print]
    split
    · rfl
    · simp
  · split
    · rfl
    · rfl

/-- A turn prints the outline that it shows, and no other. -/
theorem mem_console_processPath_iff (b : Batch) (names : List Text) (s : Progress) (o : Outline) :
    .outline o ∈ (b.processPath names s).1.console ↔
      .outline o ∈ s.console ∨
        (b.Shows s.files names o ∧ b.console.fault? (.outline o) = none) := by
  rw [processPath_eq, Shows]
  cases b.template? s.files names with
  | none => simp
  | some read =>
      cases read with
      | error fault => simp
      | ok template =>
          have hshow := b.mem_console_show?_iff (names.getLastD []) template
            { s with count := s.count + 1 } o
          have hturn : .outline o ∈
              (b.expandFile names template { s with count := s.count + 1 }).1.console ↔
              .outline o ∈ (b.show? (names.getLastD []) template
                { s with count := s.count + 1 }).1.console := by
            rw [expandFile]
            rcases b.show? (names.getLastD []) template { s with count := s.count + 1 }
              with ⟨t, _ | e⟩
            · simp only
              cases b.expander.expand template b.args with
              | error fault => rfl
              | ok expansion => exact b.mem_console_deliver_iff names expansion t o
            · rfl
          simp only [Option.some.injEq, Except.ok.injEq, hturn, hshow]
          refine or_congr_right ?_
          constructor
          · rintro ⟨hshow, hprint, tree, hbuild, ho⟩
            exact ⟨⟨hshow, template, tree, rfl, hbuild, ho⟩, hprint⟩
          · rintro ⟨⟨hshow, _, tree, rfl, hbuild, ho⟩, hprint⟩
            exact ⟨hshow, hprint, tree, hbuild, ho⟩

theorem comesUp_concat_iff (b : Batch) (done : List (List Text)) (last names : List Text)
    (files : Snapshot) (s : Progress) :
    b.ComesUp (done ++ [last]) files names s ↔
      b.ComesUp done files names s ∨
        (names = last ∧ b.processPaths done { files } = (s, none)) := by
  constructor
  · rintro ⟨before, rest, hsplit, hbefore⟩
    rcases List.eq_nil_or_concat' rest with rfl | ⟨rest, other, rfl⟩
    · obtain ⟨rfl, hlast⟩ := List.append_inj' hsplit rfl
      exact Or.inr ⟨(List.cons.inj hlast).1.symm, hbefore⟩
    · rw [← List.cons_append, ← List.append_assoc] at hsplit
      obtain ⟨rfl, -⟩ := List.append_inj' hsplit rfl
      exact Or.inl ⟨before, rest, rfl, hbefore⟩
  · rintro (⟨before, rest, rfl, hbefore⟩ | ⟨rfl, hdone⟩)
    · exact ⟨before, rest ++ [last], by simp, hbefore⟩
    · exact ⟨done, [], rfl, hdone⟩

/-- **A run shows** what the turns show that it gets to, and nothing else. -/
theorem mem_console_processPaths_iff (b : Batch) (paths : List (List Text)) (files : Snapshot)
    (o : Outline) :
    .outline o ∈ (b.processPaths paths { files }).1.console ↔
      ∃ names s, b.ComesUp paths files names s ∧ b.Shows s.files names o ∧
        b.console.fault? (.outline o) = none := by
  induction paths using List.reverseRecOn with
  | nil => simp [processPaths, ComesUp]
  | append_singleton done last ih =>
      simp only [comesUp_concat_iff, or_and_right, exists_or, ← ih]
      rw [processPaths_append]
      rcases hdone : b.processPaths done { files } with ⟨t, _ | e⟩
      · simp only [processPaths]
        have hturn := b.mem_console_processPath_iff last t o
        rcases hlast : b.processPath last t with ⟨t', _ | e⟩
        · rw [hlast] at hturn
          simpa using hturn
        · rw [hlast] at hturn
          simpa using hturn
      · simp

theorem mem_console_finish_iff (b : Batch) (pattern : Text) (s : Progress) (o : Outline) :
    .outline o ∈ (b.finish pattern s).1.console ↔ .outline o ∈ s.console := by
  rw [finish, Progress.print]
  split
  · split
    · rfl
    · simp
  · rfl

theorem mem_console_processPattern_iff (b : Batch) (text : Text) (files : Snapshot)
    (o : Outline) :
    .outline o ∈ (b.processPattern text files).console ↔
      ∃ pattern paths names s, Glob.Pattern.ofText text = .ok pattern ∧
        Glob.selectIn files b.input pattern = .ok paths ∧
        b.ComesUp paths files names s ∧ b.Shows s.files names o ∧
        b.console.fault? (.outline o) = none := by
  have hconsole : ∀ s ending, (RunResult.ofProgress (s, ending)).console = s.console :=
    fun s ending => by cases ending <;> rfl
  cases hpattern : Glob.Pattern.ofText text with
  | error e => simp [processPattern, hpattern]
  | ok pattern =>
      cases hpaths : Glob.selectIn files b.input pattern with
      | error e => simp [processPattern, hpattern, hpaths]
      | ok paths =>
          have hrun := b.mem_console_processPaths_iff paths files o
          simp only [Except.ok.injEq, exists_and_left, exists_eq_left', hpaths] at hrun ⊢
          rw [← hrun]
          simp only [processPattern, hpattern, hpaths]
          rcases b.processPaths paths { files } with ⟨t, _ | e⟩
          · have hfinish := b.mem_console_finish_iff text t o
            rcases b.finish text t with ⟨t', ending⟩
            rw [hconsole]
            exact hfinish
          · rfl

end Batch

/-! ## The whole program -/

/-- Whether a run gets to the turn of a path in a state, as a run over a directory of templates. -/
def Options.Reaches (o : Options) (console : Console) (settings : Settings)
    (input output : List Text) (files : Snapshot) (b : Batch) (names : List Text) (s : Progress) :
    Prop :=
  ∃ args expander paths, o.loadArgs files = .ok args ∧ settings.expander = .ok expander ∧
    o.Selects files input paths ∧ b = o.batch console expander args input output ∧
    b.ComesUp paths files names s

section

variable {console : Console} {settings : Settings} {o : Options} {input output : List Text}
variable {files : Snapshot}

theorem processFiles_silent
    (hshown : ∀ b names s e,
      Options.Reaches { o with showTree := true } console settings input output files b names s →
      ¬ b.StopsShowing s.files names e) :
    processFiles console settings { o with showTree := false } input output files =
      (processFiles console settings { o with showTree := true } input output
        files).withoutOutlines := by
  have hsilent : { o with showTree := false }.loadArgs files = o.loadArgs files := rfl
  have hloud : { o with showTree := true }.loadArgs files = o.loadArgs files := rfl
  simp only [processFiles, hsilent, hloud]
  cases hargs : o.loadArgs files with
  | error e =>
      simp only
      split
      · rfl
      · have hprint := Progress.print_withoutOutlines { files, failed := true } console
          (loadFailureLine e)
        exact (congrArg RunResult.ofProgress hprint).trans
          (RunResult.ofProgress_withoutOutlines _ _)
  | ok args =>
      cases hexpander : settings.expander with
      | error e => rfl
      | ok expander =>
          cases htext : o.pattern with
          | none => rfl
          | some pattern =>
              let b : Batch := { console, expander, args, showTree := true, input, output }
              refine b.silent_processPattern
                fun selectors paths hpattern hpaths names s e hcomes => ?_
              exact hshown b names s e ⟨args, expander, paths, hargs, hexpander,
                ⟨pattern, selectors, htext, hpattern, hpaths⟩, rfl, hcomes⟩

/-- A run prints the outlines that its turns show. -/
theorem mem_console_processFiles_iff (outline : Outline) :
    .outline outline ∈ (processFiles console settings o input output files).console ↔
      ∃ b names s, o.Reaches console settings input output files b names s ∧
        b.Shows s.files names outline ∧ console.fault? (.outline outline) = none := by
  constructor
  · intro h
    cases hargs : o.loadArgs files with
    | error e =>
        simp only [processFiles, hargs, Progress.print] at h
        split at h
        · cases h
        · split at h
          · cases h
          · cases List.mem_singleton.mp h
    | ok args =>
        rcases ends_or_selects console settings input output hargs with ⟨-, -, hnone⟩ | hselects
        · rw [hnone] at h
          cases h
        · obtain ⟨expander, text, pattern, paths, hexpander, htext, hpattern, hpaths, hr⟩ :=
            hselects
          rw [hr, Batch.mem_console_processPattern_iff] at h
          obtain ⟨pattern', paths', names, s, hpattern', hpaths', hcomes, hshows⟩ := h
          exact ⟨_, names, s, ⟨args, expander, paths', hargs, hexpander,
            ⟨text, pattern', htext, hpattern', hpaths'⟩, rfl, hcomes⟩, hshows⟩
  · rintro ⟨b, names, s, ⟨args, expander, paths, hargs, hexpander, hselects, rfl, hcomes⟩, hshows⟩
    obtain ⟨text, pattern, htext, hpattern, hpaths⟩ := hselects
    rw [processFiles_eq_processPattern hargs hexpander htext,
      Batch.mem_console_processPattern_iff]
    exact ⟨pattern, paths, names, s, hpattern, hpaths, hcomes, hshows⟩

/-- A structure that cannot be shown ends the run at its turn, and leaves the files as they are
then. -/
theorem ends_of_stopsShowing {b : Batch} {names : List Text} {s : Progress} {e : RunError}
    (h : o.Reaches console settings input output files b names s)
    (hstops : b.StopsShowing s.files names e) :
    let r := processFiles console settings o input output files
    r.ending = .error e ∧ r.files = s.files := by
  obtain ⟨args, expander, paths, hargs, hexpander, hselects, rfl, hcomes⟩ := h
  obtain ⟨text, pattern, htext, hpattern, hpaths⟩ := hselects
  obtain ⟨done, rest, rfl, hdone⟩ := hcomes
  have hturn := Batch.processPath_turn (o.batch console expander args input output) names s
  rcases hpath : (o.batch console expander args input output).processPath names s with ⟨t, ending⟩
  rw [hpath] at hturn
  obtain rfl := hturn.of_stopsShowing hstops
  have hrun : (o.batch console expander args input output).processPaths (done ++ names :: rest)
      { files } = (t, some e) := by
    rw [Batch.processPaths_append, hdone]
    simp only [Batch.processPaths, hpath]
  rw [processFiles_eq_processPattern hargs hexpander htext,
    Batch.processPattern_of_error hpattern hpaths hrun]
  exact ⟨rfl, Batch.files_eq_of_error hpath⟩

/-- A small limit of the nesting leaves room to show every tree. -/
theorem Batch.not_isTooDeep {b : Batch}
    (h : 3 * (b.expander.maxDepth + 1) + 2 ≤ (b.expander.room : Int)) (files : Snapshot)
    (names : List Text) : ¬ b.IsTooDeep files names := by
  rintro ⟨-, template, tree, -, hbuild, houtline⟩
  have hheight := Expander.height_le_of_build hbuild
  rw [Node.outline_eq, if_pos (by omega)] at houtline
  cases houtline

end

/-! ## A tree that cannot be shown -/

theorem Node.isPlain_nested (scopes : List Bool) :
    Utf8.IsPlain (Text.unwords (Piece.words (piecesAll (nested scopes)))) := by
  have hopen : Utf8.IsPlain Keyword.scopeOpen.text := by decide
  have hclose : Utf8.IsPlain Keyword.scopeClose.text := by decide
  have hif : Utf8.IsPlain Keyword.ifWord.text := by decide
  have hthen : Utf8.IsPlain Keyword.thenWord.text := by decide
  have htrue : Utf8.IsPlain "true".toList := by decide
  refine Utf8.isPlain_unwords ?_
  induction scopes with
  | nil => decide
  | cons conditional scopes ih =>
      cases conditional with
      | false =>
          simp only [nested, piecesAll_sequence, piecesAll_nil, Piece.words_scope_cons,
            Piece.words_nil, List.append_nil, List.cons_append, List.forall_mem_cons,
            List.forall_mem_append]
          exact ⟨hopen, ih, hclose, List.forall_mem_nil _⟩
      | true =>
          simp only [piecesAll_nested_true, Piece.words_scope_cons, Piece.words_word_cons,
            Piece.words_nil, List.append_nil, List.cons_append, List.forall_mem_cons,
            List.forall_mem_append]
          exact ⟨hopen, hif, htrue, hthen, ih, hclose, List.forall_mem_nil _⟩

/-- Without arguments, a directory with one template that can be built but not shown. The run that
shows nothing copies the template; the run that shows the structures ends at its turn. -/
theorem processFiles_of_outline_eq_error {settings : Settings} {p : Expander} {template : Text}
    {tree : Node Empty} {escape : Text → Text} (hexpander : settings.expander = .ok p)
    (hplain : Utf8.IsPlain template) (hbuild : p.build template = .ok tree)
    (hshow : tree.outline escape p.room "a.sql".toList = .error .exhausted) :
    let a := ["a.sql".toList]
    let input := ["in".toList]
    let output := ["out".toList]
    let files : Snapshot :=
      { entries := [(input, .directory), (input ++ a, .file (Utf8.encode template)),
          (output, .directory)] }
    let shown := processFiles { escape } settings { showTree := true } input output files
    let silent := processFiles { escape } settings { showTree := false } input output files
    shown.ending = .error .exhausted ∧ shown.files.entry? (.inside (output ++ a)) = none ∧
      silent.ending = .ok 0 ∧
      silent.files.entry? (.inside (output ++ a)) = some (.file (Utf8.encode template)) := by
  intro a input output files shown silent
  let o : Options := {}
  have hread : Utf8.readFile (Utf8.encode template) = .ok template := Utf8.readFile_encode hplain
  have hselects : o.Selects files input [a] :=
    ⟨_, _, rfl, rfl, Glob.selectIn_of_sorted rfl rfl rfl rfl (by decide)⟩
  -- the run that shows the structures
  let b : Batch := Options.batch { o with showTree := true } { escape } p .none input output
  have hfile : ∀ b : Batch, b.input = input →
      b.template? files a = some (.ok template) := by
    rintro b hinput
    have hentry : files.lookAt (b.input ++ a) = .ok (.file (Utf8.encode template)) := by
      rw [hinput]
      rfl
    rw [Batch.template?, hentry]
    exact congrArg some hread
  have hdeep : b.IsTooDeep files a := ⟨rfl, template, tree, hfile b rfl, hbuild, hshow⟩
  have hreaches : Options.Reaches { o with showTree := true } { escape } settings input output files
      b a { files } := ⟨.none, p, [a], rfl, hexpander, hselects, rfl, [], [], rfl, rfl⟩
  obtain ⟨hending, hfiles⟩ := ends_of_stopsShowing hreaches hdeep.stopsShowing
  -- the run that shows nothing
  let c : Batch := o.batch { escape } p .none input output
  have hrun : ∃ s, c.processPaths [a] { files } = (s, none) ∧ s.failed = false ∧
      s.files.entry? (.inside (output ++ a)) = some (.file (Utf8.encode template)) := by
    have hpath : c.processPath a { files } = c.expandFile a template { files, count := 1 } := by
      rw [Batch.processPath_eq, hfile c rfl]
    rw [Batch.processPaths, hpath]
    exact ⟨_, rfl, rfl, rfl⟩
  obtain ⟨s, hend, hfailed, hcopy⟩ := hrun
  have hargs : o.loadArgs files = .ok c.args := rfl
  obtain ⟨hsame, -, hsilent⟩ :=
    processFiles_of_end hargs hexpander hselects (fun _ => rfl) hend
  rw [hfailed] at hsilent
  exact ⟨hending, by rw [hfiles]; rfl, hsilent, by rw [hsame, hcopy]⟩

end SqlTemplate
