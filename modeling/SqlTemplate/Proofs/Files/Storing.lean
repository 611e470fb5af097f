import SqlTemplate.Proofs.Files.Resolution

set_option autoImplicit false

/-! # What storing a file changes

A file is stored in two steps: the directories that are missing on the way are created, and the file
is written. Whatever the names are, `Snapshot.store_eq_ok` says what this changes: where the names
lead the file holds the new content, directories have appeared where nothing stood and some of the
first names lead, and everything else is as it was (`Snapshot.StoredAlong`).

Below a directory plain names lead straight down, so that everything new stands below it too
(`Snapshot.LeadsTo.store_eq_ok`, with `Snapshot.Stored`).
-/

namespace SqlTemplate

namespace Snapshot

variable {s s' : Snapshot}

/-! ## One entry -/

theorem lookup_setEntry (entries : List (List Text × Entry)) (names path : List Text) (e : Entry) :
    List.lookup path (setEntry entries names e) =
      if path = names then some e else List.lookup path entries := by
  induction entries with
  | nil =>
      rw [setEntry, List.lookup_cons, List.lookup_nil]
      by_cases h : path = names
      · simp [h]
      · simp [h, beq_eq_false_iff_ne.mpr h]
  | cons entry rest ih =>
      obtain ⟨here, old⟩ := entry
      rw [setEntry]
      by_cases hhere : here = names
      · rw [if_pos hhere, List.lookup_cons, List.lookup_cons]
        by_cases h : path = names
        · simp [h, hhere]
        · simp [h, hhere, beq_eq_false_iff_ne.mpr h]
      · rw [if_neg hhere, List.lookup_cons, List.lookup_cons, ih]
        by_cases h : path = here
        · simp [h, hhere]
        · simp [beq_eq_false_iff_ne.mpr h]

theorem entry?_set {names : List Text} (hne : names ≠ []) (s : Snapshot) (e : Entry) (p : Place) :
    entry? (s.set names e) p = if p = .inside names then some e else s.entry? p := by
  obtain ⟨path⟩ := p
  cases path with
  | nil =>
      have h : Place.inside [] ≠ .inside names := fun h => hne (Place.inside.inj h).symm
      rw [if_neg h]
      rfl
  | cons n ns => simp only [set, entry?, lookup_setEntry, Place.inside.injEq]

/-! ## Directories on the way -/

/-- Whether the only changes are that directories have appeared where nothing stood, on the way that
names lead. -/
structure GrownAlong (s : Snapshot) (names : List Text) (s' : Snapshot) : Prop where
  home : s'.home = s.home
  entries : ∀ p, s'.entry? p = s.entry? p ∨ (s.entry? p = none ∧ s'.entry? p = some .directory ∧
    ∃ pre, pre <+: names ∧ p = s.placeOf pre)

namespace GrownAlong

variable {names : List Text}

theorem refl (s : Snapshot) (names : List Text) : s.GrownAlong names s :=
  ⟨rfl, fun _ => Or.inl rfl⟩

theorem mono {names' : List Text} (h : s.GrownAlong names s') (hle : names <+: names') :
    s.GrownAlong names' s' := by
  refine ⟨h.home, fun p => (h.entries p).imp_right ?_⟩
  rintro ⟨hnone, hsome, pre, hpre, rfl⟩
  exact ⟨hnone, hsome, pre, hpre.trans hle, rfl⟩

/-- No directory is lost. -/
theorem directory (h : s.GrownAlong names s') {p : Place} (hp : s.entry? p = some .directory) :
    s'.entry? p = some .directory := by
  rcases h.entries p with he | ⟨hnone, -⟩
  · rw [he, hp]
  · rw [hp] at hnone
    cases hnone

/-- A directory in the place of nothing. -/
theorem set_directory (h : s.GrownAlong names s') {place : List Text}
    (hplace : s'.placeOf names = .inside place) (hnone : s'.entry? (.inside place) = none) :
    s.GrownAlong names (s'.set place .directory) := by
  have hne : place ≠ [] := by
    intro he
    rw [he, entry?_root] at hnone
    cases hnone
  rw [placeOf_of_home h.home] at hplace
  refine ⟨h.home, fun p => ?_⟩
  rw [ entry?_set hne]
  split
  · rename_i hp
    subst hp
    -- nothing stood there at the beginning either
    have hfirst : s.entry? (.inside place) = none := by
      rcases h.entries (.inside place) with he | ⟨he, -⟩
      · rw [← he, hnone]
      · exact he
    exact Or.inr ⟨hfirst, rfl, names, List.prefix_rfl, hplace.symm⟩
  · exact h.entries p

end GrownAlong

/-- A directory that cannot be created is accepted without a change. -/
theorem acceptDirectory_eq_ok {names : List Text} {fault : FileFault}
    (h : s.acceptDirectory names fault = .ok s') : s' = s := by
  rw [acceptDirectory] at h
  split at h
  · exact (Except.ok.inj h).symm
  · cases h

/-- A name that is not two dots stands where all the names lead. -/
theorem slot_eq_ok {names place : List Text} {last : Text} (hlast : last ≠ Path.parentName)
    (h : s.slot names last = .ok place) :
    s.placeOf (names ++ [last]) = .inside place := by
  rw [slot, bind_eq_ok_iff] at h
  obtain ⟨⟨around⟩, hwalk, h⟩ := h
  have hresolve : Place.inside around = s.placeOf names := walk_eq_resolve hwalk
  rw [placeOf_append, ← hresolve]
  split at h
  · split at h
    · cases h
    · obtain rfl := Except.ok.inj h
      exact Place.enter_inside hlast around
  · cases h
  · cases h

theorem makeDirectory_eq_ok {names : List Text} (h : s.makeDirectory names.reverse = .ok s') :
    ∃ place, s.placeOf names = .inside place ∧ s.entry? (.inside place) = none ∧
      s' = s.set place .directory := by
  rcases List.eq_nil_or_concat' names with rfl | ⟨parents, last, rfl⟩
  · cases h
  · rw [List.reverse_append, List.reverse_singleton, List.singleton_append, makeDirectory,
      List.reverse_reverse] at h
    split at h
    · -- two dots never name a new directory
      obtain ⟨_, -, h⟩ := (bind_eq_ok_iff _ _ _).mp h
      cases h
    · rename_i hlast
      obtain ⟨place, hslot, h⟩ := (bind_eq_ok_iff _ _ _).mp h
      split at h
      · cases h
      · rename_i hnone
        exact ⟨place, slot_eq_ok hlast hslot, by simpa using hnone, (Except.ok.inj h).symm⟩

/-- **The directories that are created** appear where nothing stood. -/
theorem ensureDirectory_eq_ok {names : List Text} (h : s.ensureDirectory names.reverse = .ok s') :
    s.GrownAlong names s' := by
  induction names using List.reverseRecOn generalizing s' with
  | nil =>
      obtain rfl := Except.ok.inj h
      exact .refl s _
  | append_singleton names last ih =>
      have hle : names <+: names ++ [last] := List.prefix_append ..
      have hmake : ∀ {t t' : Snapshot}, s.GrownAlong names t →
          t.makeDirectory (names ++ [last]).reverse = .ok t' →
          s.GrownAlong (names ++ [last]) t' := by
        intro t t' hgrown hmake
        obtain ⟨place, hplace, hnone, rfl⟩ := makeDirectory_eq_ok hmake
        exact (hgrown.mono hle).set_directory hplace hnone
      rw [List.reverse_append, List.reverse_singleton, List.singleton_append] at h hmake
      rw [ensureDirectory] at h
      simp only at h
      split at h
      · rename_i t hfirst
        obtain rfl := Except.ok.inj h
        exact hmake (.refl s _) hfirst
      · -- the directory around was missing too
        rw [bind_eq_ok_iff] at h
        obtain ⟨t, haround, h⟩ := h
        have hgrown := ih haround
        split at h
        · rename_i t' hsecond
          obtain rfl := Except.ok.inj h
          exact hmake hgrown hsecond
        · rw [acceptDirectory_eq_ok h]
          exact hgrown.mono hle
      · rw [acceptDirectory_eq_ok h]
        exact .refl s _

/-! ## The file -/

theorem write_eq_ok {names : List Text} {content : List UInt8}
    (h : s.write names content = .ok s') :
    names.getLast? ≠ some Path.parentName ∧ ∃ place, s.placeOf names = .inside place ∧
      s.entry? (.inside place) ≠ some .directory ∧ s' = s.set place (.file content) := by
  rcases List.eq_nil_or_concat' names with rfl | ⟨parents, last, rfl⟩
  · cases h
  · rw [write, List.reverse_append, List.reverse_singleton, List.singleton_append] at h
    simp only [List.reverse_reverse] at h
    split at h
    · cases h
    · rename_i place hslot
      split at h
      · cases h
      · rename_i hlast
        split at h
        · cases h
        · rename_i hentry
          refine ⟨?_, place, slot_eq_ok hlast hslot, hentry, (Except.ok.inj h).symm⟩
          rw [List.getLast?_concat, Ne, Option.some.injEq]
          exact hlast

/-- What storing a file under names changes. -/
structure StoredAlong (s : Snapshot) (names : List Text) (content : List UInt8) (s' : Snapshot) :
    Prop where
  home : s'.home = s.home
  file : s'.entry? (s.placeOf names) = some (.file content)
  last : names.getLast? ≠ some Path.parentName
  -- there was no directory in its place
  noDirectory : s.entry? (s.placeOf names) ≠ some .directory
  others : ∀ p, p ≠ s.placeOf names → s'.entry? p = s.entry? p ∨
    (s.entry? p = none ∧ s'.entry? p = some .directory ∧
      ∃ pre, pre <+: names ∧ p = s.placeOf pre)

/-- **Storing a file** changes what stands where its names lead, and nothing else but that
directories appear on the way. -/
theorem store_eq_ok {names : List Text} {content : List UInt8}
    (h : s.store names content = .ok s') : s.StoredAlong names content s' := by
  rw [store, bind_eq_ok_iff] at h
  obtain ⟨t, hensure, hwrite⟩ := h
  rw [List.drop_reverse] at hensure
  have hgrown := (ensureDirectory_eq_ok hensure).mono (List.take_prefix _ names)
  obtain ⟨hlast, place, hplace, hentry, rfl⟩ := write_eq_ok hwrite
  rw [placeOf_of_home hgrown.home] at hplace
  have hne : place ≠ [] := by
    rintro rfl
    exact hentry rfl
  refine ⟨hgrown.home, ?_, hlast, ?_, fun p hp => ?_⟩
  · rw [hplace, entry?_set hne, if_pos rfl]
  · rw [hplace]
    exact fun hdirectory => hentry (hgrown.directory hdirectory)
  · rw [ entry?_set hne, if_neg (hplace ▸ hp)]
    exact hgrown.entries p

/-! ## Below a directory -/

/-- What storing a file at a place changes. -/
structure Stored (s : Snapshot) (place : List Text) (content : List UInt8) (s' : Snapshot) :
    Prop where
  home : s'.home = s.home
  file : s'.entry? (.inside place) = some (.file content)
  -- there was no directory in its place
  noDirectory : s.entry? (.inside place) ≠ some .directory
  others : ∀ p, p ≠ .inside place → s'.entry? p = s.entry? p ∨
    (s.entry? p = none ∧ s'.entry? p = some .directory ∧ ∃ pre, pre <+: place ∧ p = .inside pre)

theorem Stored.extends {place : List Text} {content : List UInt8}
    (h : s.Stored place content s') : s.Extends s' := by
  refine Extends.of_changes h.home fun p => ?_
  by_cases hp : p = .inside place
  · refine Or.inr ⟨hp ▸ h.noDirectory, ?_⟩
    rw [hp, h.file]
    rfl
  · refine (h.others p hp).imp_right ?_
    rintro ⟨hnone, hsome, -⟩
    rw [hnone, hsome]
    exact ⟨Option.some_ne_none _ ∘ Eq.symm, rfl⟩

/-- There are directories on the way to a directory. -/
theorem LeadsTo.entry?_of_prefix {base home pre : List Text} (h : s.LeadsTo base home)
    (hpre : pre <+: base) : s.entry? (s.placeOf pre) = some .directory := by
  obtain ⟨rest, rfl⟩ := hpre
  have hwalk := h.walk
  rw [walk_append, bind_eq_ok_iff] at hwalk
  obtain ⟨p, hfirst, hrest⟩ := hwalk
  have hp : p = s.placeOf pre := walk_eq_resolve hfirst
  rw [← hp]
  cases rest with
  | nil =>
      obtain rfl := Except.ok.inj hrest
      exact h.directory
  | cons n ns =>
      rw [walk_cons, bind_eq_ok_iff] at hrest
      obtain ⟨q, hstep, -⟩ := hrest
      unfold Snapshot.step at hstep
      split at hstep
      · cases hstep
      · cases hstep
      · assumption

/-- **Storing a file** under plain names below a directory changes what stands there, and nothing
else but that directories appear on the way to it. -/
theorem LeadsTo.store_eq_ok {base home names : List Text} (hbase : s.LeadsTo base home)
    (hplain : Path.Plain names) {content : List UInt8}
    (h : s.store (base ++ names) content = .ok s') : s.Stored (home ++ names) content s' := by
  have hresolve : ∀ {rest : List Text}, Path.Plain rest →
      s.placeOf (base ++ rest) = .inside (home ++ rest) := by
    intro rest hrest
    have hhome : .inside home = s.placeOf base := walk_eq_resolve hbase.walk
    rw [placeOf_append, ← hhome, Place.resolve_plain hrest]
  have hstored := Snapshot.store_eq_ok h
  refine ⟨hstored.home, ?_, ?_, fun p hp => ?_⟩
  · rw [← hresolve hplain, hstored.file]
  · rw [← hresolve hplain]
    exact hstored.noDirectory
  · rw [← hresolve hplain] at hp
    refine (hstored.others p hp).imp_right ?_
    rintro ⟨hnone, hsome, pre, hpre, rfl⟩
    refine ⟨hnone, hsome, ?_⟩
    rcases Path.prefix_append_cases hpre with hle | ⟨rest, hle, rfl⟩
    · rw [hbase.entry?_of_prefix hle] at hnone
      cases hnone
    · have hrest : Path.Plain rest := fun hmem => hplain (hle.subset hmem)
      exact ⟨home ++ rest, (List.prefix_append_right_inj home).mpr hle, hresolve hrest⟩

/-! ## Where outputs go -/

/-- Whether names lead to a place as soon as there are directories on the whole way: some of them
lead to a directory, and the others are plain. -/
def LeadsOn (s : Snapshot) (names place : List Text) : Prop :=
  ∃ base home rest, names = base ++ rest ∧ place = home ++ rest ∧ s.LeadsTo base home ∧
    Path.Plain rest

theorem LeadsTo.leadsOn {names home : List Text} (h : s.LeadsTo names home) :
    s.LeadsOn names home :=
  ⟨names, home, [], (List.append_nil _).symm, (List.append_nil _).symm, h, List.not_mem_nil⟩

theorem LeadsOn.of_extends {names place : List Text} (h : s.LeadsOn names place)
    (hs : s.Extends s') : s'.LeadsOn names place := by
  obtain ⟨base, home, rest, hnames, hplace, hbase, hrest⟩ := h
  exact ⟨base, home, rest, hnames, hplace, hbase.of_extends hs, hrest⟩

theorem LeadsOn.store_eq_ok {output place names : List Text} (houtput : s.LeadsOn output place)
    (hplain : Path.Plain names) {content : List UInt8}
    (h : s.store (output ++ names) content = .ok s') : s.Stored (place ++ names) content s' := by
  obtain ⟨base, home, rest, rfl, rfl, hbase, hrest⟩ := houtput
  rw [List.append_assoc] at h ⊢
  exact hbase.store_eq_ok ((Path.Plain.append_iff _ _).mpr ⟨hrest, hplain⟩) h

end Snapshot

end SqlTemplate
