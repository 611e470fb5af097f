import Mathlib.Data.List.Nodup
import SqlTemplate.Proofs.Batch.Effect
import SqlTemplate.Proofs.Text.Utf8

set_option autoImplicit false

/-! # Runs without arguments

A run without arguments copies the templates. The main statement is `processFiles_copies`: the
output of a template holds the bytes of the template, but with newlines for its line ends, so it
holds the same bytes exactly if there is no carriage return among them. A closed run that changes a
template is `processFiles_replaces_lineEnds`.

The directories may overlap here, so an output can stand in the place of a template. What carries
the proof is what a run over paths leaves alone (`Batch.Keeps`): nothing is lost, and what stands in
the place of no output is as it was. Since every path is selected once, the output of a template
stays as it was written up to the end of the run (`Batch.ComesUp.output`).
-/

namespace SqlTemplate

namespace Batch

variable {b : Batch} {home place : List Text} {names : List Text} {paths : List (List Text)}

/-! ## What a run leaves alone -/

/-- What a run over paths leaves alone: everything that stood somewhere still stands there, and
where no output goes it is the same. -/
structure Keeps (place : List Text) (paths : List (List Text)) (before after : Snapshot) :
    Prop where
  there : before.Extends after
  same : ∀ p, before.entry? p ≠ none → (∀ names ∈ paths, p ≠ .inside (place ++ names)) →
    after.entry? p = before.entry? p

namespace Keeps

variable {before after : Snapshot}

theorem refl (place : List Text) (paths : List (List Text)) (before : Snapshot) :
    Keeps place paths before before :=
  ⟨.refl before, fun _ _ _ => rfl⟩

theorem cons {middle : Snapshot} (hfirst : Keeps place [names] before middle)
    (hrest : Keeps place paths middle after) : Keeps place (names :: paths) before after := by
  refine ⟨hfirst.there.trans hrest.there, fun p hp hnone => ?_⟩
  rw [List.forall_mem_cons] at hnone
  have hmiddle : middle.entry? p = before.entry? p :=
    hfirst.same p hp (by simpa using hnone.1)
  rw [hrest.same p (hmiddle ▸ hp) hnone.2, hmiddle]

theorem of_stored {content : List UInt8} (h : before.Stored (place ++ names) content after) :
    Keeps place [names] before after := by
  refine ⟨h.extends, fun p hp hnone => ?_⟩
  rcases h.others p (hnone names List.mem_cons_self) with hsame | ⟨hnot, -⟩
  · exact hsame
  · exact absurd hnot hp

end Keeps

variable {s s' : Progress}

/-- **One turn** leaves alone what is not its output. -/
theorem Turn.keeps (h : b.Turn names s s' none) (houtput : s.files.LeadsOn b.output place)
    (hplain : Path.Plain names) :
    Keeps place [names] s.files s'.files := by
  cases h with
  | skipped hnone hs =>
      rw [hs]
      exact .refl place _ _
  | failed hshown hfails hfiles hfailed hline =>
      rw [hfiles]
      exact .refl place _ _
  | written hshown hexpands hstore hfailed =>
      exact .of_stored (houtput.store_eq_ok hplain hstore)

/-- **A whole run** that gets to the end leaves alone what is no output. -/
theorem keeps_of_processPaths (houtput : s.files.LeadsOn b.output place)
    (hplain : ∀ names ∈ paths, Path.Plain names) (h : b.processPaths paths s = (s', none)) :
    Keeps place paths s.files s'.files := by
  induction paths generalizing s with
  | nil =>
      cases h
      exact .refl place _ _
  | cons names rest ih =>
      rw [List.forall_mem_cons] at hplain
      rw [processPaths] at h
      have hturn := b.processPath_turn names s
      rcases hpath : b.processPath names s with ⟨t, _ | e⟩
      · rw [hpath] at h hturn
        have hfirst := hturn.keeps houtput hplain.1
        exact hfirst.cons (ih (houtput.of_extends hfirst.there) hplain.2 h)
      · rw [hpath] at h
        cases h

/-! ## The turn of a path -/

/-- A path that is selected once comes up between other paths. -/
theorem ComesUp.exists_split {files : Snapshot} (h : b.ComesUp paths files names s)
    (honce : paths.Nodup) :
    ∃ done rest, paths = done ++ names :: rest ∧ names ∉ done ∧ names ∉ rest ∧
      b.processPaths done { files } = (s, none) := by
  obtain ⟨done, rest, rfl, hdone⟩ := h
  have hnew := (List.nodup_cons.mp (List.nodup_middle.mp honce)).1
  rw [List.mem_append, not_or] at hnew
  exact ⟨done, rest, rfl, hnew.1, hnew.2, hdone⟩

section

variable {files : Snapshot} (houtput : files.LeadsOn b.output place)
variable (hplain : ∀ names ∈ paths, Path.Plain names) (honce : paths.Nodup)
include houtput hplain honce

/-- **The file of a path** is found at its turn as it was before the run, unless the output of
another path has come in its place. -/
theorem ComesUp.lookAt_eq (h : b.ComesUp paths files names s)
    (hinput : files.LeadsTo b.input home) {content : List UInt8}
    (hlook : files.lookAt (b.input ++ names) = .ok (.file content))
    (hfree : ∀ other ∈ paths, other ≠ names → place ++ other ≠ home ++ names) :
    s.files.lookAt (b.input ++ names) = .ok (.file content) := by
  obtain ⟨done, rest, rfl, hnew, -, hdone⟩ := h.exists_split honce
  have hmem : ∀ other ∈ done, other ∈ done ++ names :: rest :=
    fun other hother => List.mem_append_left _ hother
  have hkeeps := keeps_of_processPaths houtput
    (fun other hother => hplain other (hmem other hother)) hdone
  have hnames : Path.Plain names := hplain names (List.mem_append_right _ List.mem_cons_self)
  have hwalk := (Snapshot.walk_append_of_walk hinput.walk names).trans
    (hinput.walk_of_lookAt hnames hlook)
  have hfile := (Snapshot.lookAt_of_walk hwalk).mp hlook
  have hsame : s.files.entry? (.inside (home ++ names)) =
      files.entry? (.inside (home ++ names)) := by
    refine hkeeps.same _ (by simp [hfile]) fun other hother he => ?_
    have hne : other ≠ names := fun he => hnew (he ▸ hother)
    exact hfree other (hmem other hother) hne (Place.inside.inj he).symm
  have hthere := hkeeps.there.walk hwalk
  rw [← hkeeps.there.home] at hthere
  exact (Snapshot.lookAt_of_walk hthere).mpr (hsame.trans hfile)

/-- **The output of a template** stays as it is written at the turn of the template. -/
theorem ComesUp.output (h : b.ComesUp paths files names s)
    (hend : b.processPaths paths { files } = (s', none)) {text : Text}
    (hexpands : b.Expands s.files names text) :
    s'.files.entry? (.inside (place ++ names)) = some (.file (b.written text)) := by
  obtain ⟨done, rest, rfl, -, hnew, hdone⟩ := h.exists_split honce
  have hbefore := keeps_of_processPaths houtput
    (fun other hother => hplain other (List.mem_append_left _ hother)) hdone
  have houtput := houtput.of_extends hbefore.there
  rw [processPaths_append, hdone] at hend
  simp only [processPaths] at hend
  have hturn := b.processPath_turn names s
  rcases hpath : b.processPath names s with ⟨t, _ | e⟩
  · rw [hpath] at hend hturn
    obtain ⟨-, hstore, -⟩ | ⟨_, hnone, -⟩ | ⟨_, hnone, -⟩ := hturn.of_expands hexpands
    · have hnames : Path.Plain names := hplain names (List.mem_append_right _ List.mem_cons_self)
      have hstored := houtput.store_eq_ok hnames hstore
      have hafter := keeps_of_processPaths (houtput.of_extends hstored.extends)
        (fun other hother => hplain other (List.mem_append_right _ (.tail _ hother))) hend
      -- no later output goes to the same place
      have hlater : ∀ other ∈ rest, Place.inside (place ++ names) ≠ .inside (place ++ other) := by
        intro other hother he
        exact hnew (List.append_cancel_left (Place.inside.inj he) ▸ hother)
      have hthere : t.files.entry? (.inside (place ++ names)) ≠ none := by simp [hstored.file]
      rw [hafter.same _ hthere hlater, hstored.file]
    · cases hnone
    · cases hnone
  · rw [hpath] at hend
    cases hend

/-- **A template that is copied** keeps its bytes, but for its line ends. -/
theorem ComesUp.copy (h : b.ComesUp paths files names s)
    (hend : b.processPaths paths { files } = (s', none)) (hargs : b.args = .none)
    {content : List UInt8} (hlook : s.files.lookAt (b.input ++ names) = .ok (.file content)) :
    s'.files.entry? (.inside (place ++ names)) = some (.file (Utf8.unixBytes content)) := by
  have hfile : b.template? s.files names = some (Utf8.readFile content) := by
    rw [template?, hlook]
  cases hread : Utf8.readFile content with
  | error fault =>
      obtain ⟨t, -, hturn⟩ := h.turn hend
      exact absurd (hread ▸ hfile) (hturn.isText fault)
  | ok template =>
      have hexpands : b.Expands s.files names template := by
        refine ⟨template, hread ▸ hfile, ?_⟩
        rw [hargs]
        rfl
      have hwritten : b.written template = Utf8.unixBytes content := by
        rw [written, hargs, ← Utf8.encode_readFile hread]
      rw [h.output houtput hplain honce hend hexpands, hwritten]

end

end Batch

/-! ## The copies -/

section

variable {console : Console} {settings : Settings} {o : Options} {input output : List Text}
variable {files : Snapshot} {home place : List Text}

/-- **A run without arguments copies the templates.** Let no name be two dots, neither in the files
nor in the pattern. In a run that returns every selected path has its turn, and the file that it
then leads to is found below the output directory when the run has ended, with newlines for its line
ends. So it has the same bytes exactly if there is no carriage return among them. The file is as it
was before the run, unless the output of another path has come in its place. -/
theorem processFiles_copies (hplain : files.Plain)
    (hpattern : ∀ text, o.pattern = some text → Path.Plain (Path.namesIn text))
    (hinput : files.LeadsTo input home) (houtput : files.LeadsOn output place)
    (hargs : o.args.getD [] = []) (hargsFile : o.argsFile.getD [] = []) :
    let r := processFiles console settings o input output files
    ∀ code, r.ending = .ok code →
      ∃ expander paths, settings.expander = .ok expander ∧ o.Selects files input paths ∧
        ∀ names ∈ paths, ∃ s,
          (o.batch console expander .none input output).ComesUp paths files names s ∧
          (∀ content, s.files.lookAt (input ++ names) = .ok (.file content) →
            let copy := r.files.entry? (.inside (place ++ names))
            copy = some (.file (Utf8.unixBytes content)) ∧
            (copy = some (.file content) ↔ 13 ∉ content)) ∧
          ∀ content, files.lookAt (input ++ names) = .ok (.file content) →
            (∀ other ∈ paths, other ≠ names → place ++ other ≠ home ++ names) →
            s.files.lookAt (input ++ names) = .ok (.file content) := by
  intro r code hcode
  have hload : o.loadArgs files = .ok .none := by
    rw [Options.loadArgs, hargs, hargsFile]
  obtain ⟨expander, paths, s', hexpander, hselects, hend, hfiles, -⟩ :=
    exists_processPaths_of_returns hload hcode
  have hnames := hselects.plain hplain hpattern
  have honce := hselects.nodup
  refine ⟨expander, paths, hexpander, hselects, ?_⟩
  intro names hmem
  obtain ⟨s, hcomes⟩ := Batch.exists_comesUp hend hmem
  refine ⟨s, hcomes, fun content hlook => ?_, fun content hlook hfree => ?_⟩
  · have hcopy := hcomes.copy houtput hnames honce hend rfl hlook
    rw [← hfiles] at hcopy
    refine ⟨hcopy, ?_⟩
    rw [hcopy, ← Utf8.unixBytes_eq_self_iff]
    simp
  · exact hcomes.lookAt_eq houtput hnames honce hinput hlook hfree

/-- A scope of the first template is never closed, and one of its lines ends in two bytes. It is
copied all the same, and so is the second template, into a directory that was missing. -/
theorem processFiles_copies_of_failure :
    let a := ["a.sql".toList]
    let c := ["d".toList, "c.sql".toList]
    let input := ["in".toList]
    let output := ["out".toList]
    let files : Snapshot :=
      { entries := [(input, .directory), (input ++ a, .file [123, 123, 13, 10]),
          (input ++ ["d".toList], .directory), (input ++ c, .file [120]), (output, .directory)] }
    let console : Console := { escape := Markup.escape }
    let r := processFiles console {} {} input output files
    r.ending = .ok 0 ∧
      r.files.entry? (.inside (output ++ a)) = some (.file [123, 123, 10]) ∧
      r.files.entry? (.inside (output ++ c)) = some (.file [120]) := by
  intro a c input output files console r
  let o : Options := {}
  let b := o.batch console {} .none input output
  have hexpander : Settings.expander {} = .ok b.expander := rfl
  have hselects : o.Selects files input [a, c] := by
    refine ⟨_, _, rfl, rfl, Glob.selectIn_of_sorted rfl rfl ?_ rfl (by decide)⟩
    exact eq_ok_of_toOption (by decide +kernel)
  have hpattern : ∀ text, o.pattern = some text → Path.Plain (Path.namesIn text) := by
    intro text htext
    obtain rfl := Option.some.inj htext
    decide
  have hrun : ∃ s, b.processPaths [a, c] { files } = (s, none) ∧ s.failed = false := ⟨_, rfl, rfl⟩
  obtain ⟨s, hend, hfailed⟩ := hrun
  have hending : r.ending = .ok 0 := by
    have hcode := (processFiles_of_end rfl hexpander hselects (fun _ => rfl) hend).2.2
    rwa [hfailed] at hcode
  obtain ⟨expander, paths, -, hpaths, hcopies⟩ :=
    @processFiles_copies console {} o input output files input output (by decide) hpattern
      (by decide)
      (Snapshot.LeadsTo.leadsOn (by decide)) rfl rfl 0 hending
  obtain rfl := hpaths.unique hselects
  have hcopy : ∀ names ∈ [a, c], ∀ content,
      files.lookAt (input ++ names) = .ok (.file content) →
      r.files.entry? (.inside (output ++ names)) = some (.file (Utf8.unixBytes content)) := by
    intro names hnames content hlook
    obtain ⟨s, -, hturn, hbefore⟩ := hcopies names hnames
    refine (hturn content (hbefore content hlook ?_)).1
    -- the two directories have different names
    intro other _ _ he
    exact absurd (List.cons.inj he).1 (by decide)
  exact ⟨hending, hcopy a (by simp) _ rfl, hcopy c (by simp) _ rfl⟩

end

/-- A line of the template ends in two bytes. The run succeeds, and the output has one byte less. -/
theorem processFiles_replaces_lineEnds :
    let a := ["a.sql".toList]
    let input := ["in".toList]
    let output := ["out".toList]
    let files : Snapshot :=
      { entries := [(input, .directory), (input ++ a, .file [97, 13, 10, 98]),
          (output, .directory)] }
    let console : Console := { escape := Markup.escape }
    let o : Options := { args := some [], argsFile := some [] }
    let r := processFiles console {} o input output files
    o.Selects files input [a] ∧ files.lookAt (input ++ a) = .ok (.file [97, 13, 10, 98]) ∧
      r.ending = .ok 0 ∧ r.files.entry? (.inside (output ++ a)) = some (.file [97, 10, 98]) := by
  intro a input output files console o r
  let b := o.batch console {} .none input output
  have hexpander : Settings.expander {} = .ok b.expander := rfl
  have hselects : o.Selects files input [a] := by
    refine ⟨_, _, rfl, rfl, Glob.selectIn_of_sorted rfl rfl ?_ rfl (by decide)⟩
    exact eq_ok_of_toOption (by decide +kernel)
  have hrun : ∃ s, b.processPaths [a] { files } = (s, none) ∧ s.failed = false ∧
      s.files.entry? (.inside (output ++ a)) = some (.file [97, 10, 98]) := ⟨_, rfl, rfl, rfl⟩
  obtain ⟨s, hend, hfailed, hcopy⟩ := hrun
  obtain ⟨hfiles, -, hending⟩ := processFiles_of_end rfl hexpander hselects (fun _ => rfl) hend
  rw [hfailed] at hending
  exact ⟨hselects, rfl, hending, by rw [hfiles, hcopy]⟩

end SqlTemplate
