import SqlTemplate.Files.Glob
import SqlTemplate.Proofs.Files.Resolution

set_option autoImplicit false

/-! # The paths that a pattern selects

The names of a selected path are names of the pattern or names that stand in the directories that
were searched. What this says about the path is shown by an induction along the selection
(`Glob.select_induction`): where no name of the files and no name of the pattern is two dots, the
selected paths have none either (`Glob.selectIn_plain`). Where two dots of the pattern never take
back more names than stand in front of them, no selected path leads above the directory that was
searched (`Glob.selectIn_staysBelow`).
-/

namespace SqlTemplate

/-- Whether none of the names under which something stands is two dots. -/
def Snapshot.Plain (s : Snapshot) : Prop := ∀ entry ∈ s.entries, Path.Plain entry.1

instance (s : Snapshot) : Decidable s.Plain :=
  inferInstanceAs (Decidable (∀ entry ∈ s.entries, Path.Plain entry.1))

namespace Snapshot

variable {s : Snapshot}

theorem Plain.ne_of_mem_namesIn (hs : s.Plain) {p : Place} {n : Text} (hn : n ∈ s.namesIn p) :
    n ≠ Path.parentName := by
  rw [namesIn, List.mem_filterMap] at hn
  obtain ⟨⟨path, entry⟩, hentry, hn⟩ := hn
  simp only at hn
  split at hn
  · have hlast : n ∈ path := List.mem_of_getLast? hn
    intro he
    exact hs (path, entry) hentry (he ▸ hlast)
  · cases hn

theorem Plain.of_mem_directoriesBelow (hs : s.Plain) {p : Place} {names : List Text}
    (hnames : names ∈ s.directoriesBelow p) : Path.Plain names := by
  rw [directoriesBelow, List.mem_filterMap] at hnames
  obtain ⟨⟨path, entry⟩, hentry, hnames⟩ := hnames
  simp only at hnames
  split at hnames
  · obtain rfl := Option.some.inj hnames
    intro hmem
    exact hs (path, entry) hentry (List.mem_of_mem_drop hmem)
  · cases hnames

end Snapshot

namespace Glob

/-! ## Patterns -/

/-- Whether none of the names that are followed as they are is two dots. -/
def Pattern.Plain (selectors : List Selector) : Prop :=
  ∀ n, Selector.name n ∈ selectors → n ≠ Path.parentName

theorem Pattern.Plain.tail {selector : Selector} {rest : List Selector}
    (h : Pattern.Plain (selector :: rest)) : Pattern.Plain rest :=
  fun n hn => h n (List.mem_cons_of_mem selector hn)

theorem Selector.ofName_eq_name {name n : Text} (h : Selector.ofName name = .ok (.name n)) :
    n = name := by
  rw [ofName] at h
  split at h
  · cases h
  · split at h
    · cases h
    · split at h
      · cases h
      · cases h
        rfl

theorem Selector.mem_of_ofNames {names : List Text} {selectors : List Selector}
    (h : Selector.ofNames names = .ok selectors) {n : Text} (hn : Selector.name n ∈ selectors) :
    n ∈ names := by
  induction names generalizing selectors with
  | nil =>
      obtain rfl := Except.ok.inj h
      cases hn
  | cons m ms ih =>
      rw [ofNames, bind_eq_ok_iff] at h
      obtain ⟨selector, hselector, h⟩ := h
      rw [bind_eq_ok_iff] at h
      obtain ⟨rest, hrest, h⟩ := h
      obtain rfl := Except.ok.inj h
      rcases List.mem_cons.mp hn with rfl | hn
      · rw [ofName_eq_name hselector]
        exact List.mem_cons_self
      · exact List.mem_cons_of_mem m (ih hrest hn)

theorem Pattern.ofText_plain {t : Text} {pattern : Pattern} (ht : Path.Plain (Path.namesIn t))
    (h : Pattern.ofText t = .ok pattern) : Pattern.Plain pattern.selectors := by
  rw [ofText] at h
  split at h
  · cases h
  · split at h
    · cases h
    · simp only at h
      split at h
      · cases h
      · rw [bind_eq_ok_iff] at h
        obtain ⟨selectors, hselectors, h⟩ := h
        obtain rfl := Except.ok.inj h
        intro n hn he
        exact ht (he ▸ Selector.mem_of_ofNames hselectors hn)

/-! ## Selection -/

/-- **An induction along a selection.** What relates the selectors that are left to the names that
were followed still does so at the end, if it is kept by every name that is followed: a name of the
pattern, a name that stands in a directory, or the way to a directory at any depth. -/
theorem select_induction {s : Snapshot} (hs : s.Plain) {directoriesOnly : Bool} {base : List Text}
    {motive : List Selector → List Text → Prop}
    (hname : ∀ n rest found, motive (.name n :: rest) found → motive rest (found ++ [n]))
    (hwild : ∀ parts rest found n, n ≠ Path.parentName → motive (.wild parts :: rest) found →
      motive rest (found ++ [n]))
    (hanyDepth : ∀ rest found way, Path.Plain way → motive (.anyDepth :: rest) found →
      motive rest (found ++ way))
    {selectors : List Selector} {p : Place} {found : List Text} (hfound : motive selectors found)
    {paths : List (List Text)} (h : select s directoriesOnly base selectors p found = .ok paths)
    {names : List Text} (hnames : names ∈ paths) : motive [] names := by
  induction selectors generalizing p found paths with
  | nil =>
      obtain rfl := Except.ok.inj h
      rw [List.mem_singleton] at hnames
      rwa [hnames]
  | cons selector rest ih =>
      -- one more name is followed, where the entry under it may be followed at all
      have hfurther : ∀ {n : Text} {q : Place} {c : Prop} [Decidable c] {below : List (List Text)},
          motive rest (found ++ [n]) →
          (if c then .ok [] else select s directoriesOnly base rest q (found ++ [n])) = .ok below →
          names ∈ below → motive [] names := by
        intro n q c _ below hn hselect hmem
        split at hselect
        · obtain rfl := Except.ok.inj hselect
          cases hmem
        · exact ih hn hselect hmem
      cases selector with
      | name n =>
          rw [select] at h
          split at h
          · cases h
          · split at h
            · cases h
            · obtain rfl := Except.ok.inj h
              cases hnames
            · exact hfurther (hname n rest found hfound) h hnames
      | wild parts =>
          rw [select, bind_eq_ok_iff] at h
          obtain ⟨results, hresults, h⟩ := h
          obtain rfl := Except.ok.inj h
          obtain ⟨below, hbelow, hnames⟩ := List.mem_flatten.mp hnames
          obtain ⟨n, hn, hselect⟩ := mem_of_mapM_eq_ok hresults hbelow
          have hn : n ≠ Path.parentName := hs.ne_of_mem_namesIn (List.mem_filter.mp hn).1
          split at hselect
          · obtain rfl := Except.ok.inj hselect
            cases hnames
          · exact hfurther (hwild parts rest found n hn hfound) hselect hnames
      | anyDepth =>
          rw [select, bind_eq_ok_iff] at h
          obtain ⟨results, hresults, h⟩ := h
          obtain rfl := Except.ok.inj h
          obtain ⟨below, hbelow, hnames⟩ := List.mem_flatten.mp hnames
          obtain ⟨way, hway, hselect⟩ := mem_of_mapM_eq_ok hresults hbelow
          have hplain : Path.Plain way := by
            rcases List.mem_cons.mp hway with rfl | hway
            · exact List.not_mem_nil
            · exact hs.of_mem_directoriesBelow hway
          split at hselect
          · obtain rfl := Except.ok.inj hselect
            cases hnames
          · exact ih (hanyDepth rest found way hplain hfound) hselect hnames

/-- A selected path is found by the selectors, from a directory that was searched. -/
theorem exists_select_of_selectIn {s : Snapshot} {base : List Text} {pattern : Pattern}
    {paths : List (List Text)} (h : selectIn s base pattern = .ok paths) {names : List Text}
    (hnames : names ∈ paths) :
    s.lookAt base = .ok .directory ∧ ∃ p selected,
      select s pattern.directoriesOnly base pattern.selectors p [] = .ok selected ∧
        names ∈ selected := by
  rw [selectIn] at h
  split at h
  · obtain rfl := Except.ok.inj h
    cases hnames
  · rename_i p hwalk
    split at h
    · obtain rfl := Except.ok.inj h
      cases hnames
    · rename_i hdirectory
      rw [bind_eq_ok_iff] at h
      obtain ⟨selected, hselected, h⟩ := h
      obtain rfl := Except.ok.inj h
      rw [List.mem_mergeSort, List.mem_eraseDups] at hnames
      exact ⟨(Snapshot.lookAt_of_walk hwalk).mpr (by simpa using hdirectory), p, selected,
        hselected, hnames⟩

/-- **The paths that a pattern selects have plain names** where the files and the pattern have. -/
theorem selectIn_plain {s : Snapshot} (hs : s.Plain) {base : List Text} {pattern : Pattern}
    (hpattern : Pattern.Plain pattern.selectors) {paths : List (List Text)}
    (h : selectIn s base pattern = .ok paths) {names : List Text} (hnames : names ∈ paths) :
    Path.Plain names := by
  obtain ⟨-, p, selected, hselected, hmem⟩ := exists_select_of_selectIn h hnames
  have hplain : Pattern.Plain [] ∧ Path.Plain names := by
    refine select_induction hs (motive := fun rest found => Pattern.Plain rest ∧ Path.Plain found)
      ?_ ?_ ?_ ⟨hpattern, List.not_mem_nil⟩ hselected hmem
    · rintro n rest found ⟨hrest, hfound⟩
      have hn : n ≠ Path.parentName := hrest n List.mem_cons_self
      exact ⟨hrest.tail, (Path.Plain.append_iff _ _).mpr
        ⟨hfound, (Path.Plain.cons_iff _ _).mpr ⟨hn, List.not_mem_nil⟩⟩⟩
    · rintro parts rest found n hn ⟨hrest, hfound⟩
      exact ⟨hrest.tail, (Path.Plain.append_iff _ _).mpr
        ⟨hfound, (Path.Plain.cons_iff _ _).mpr ⟨hn, List.not_mem_nil⟩⟩⟩
    · rintro rest found way hway ⟨hrest, hfound⟩
      exact ⟨hrest.tail, (Path.Plain.append_iff _ _).mpr ⟨hfound, hway⟩⟩
  exact hplain.2

theorem nodup_eraseDups {α : Type} [BEq α] [LawfulBEq α] (xs : List α) : xs.eraseDups.Nodup := by
  match xs with
  | [] => simp
  | x :: xs =>
      have hlater : x ∉ xs.filter fun y => !y == x := by simp
      rw [List.eraseDups_cons, List.nodup_cons, List.mem_eraseDups]
      exact ⟨hlater, nodup_eraseDups _⟩
termination_by xs.length
decreasing_by exact Nat.lt_succ_of_le (List.length_filter_le _ xs)

/-- **Every path is selected once.** -/
theorem selectIn_nodup {s : Snapshot} {base : List Text} {pattern : Pattern}
    {paths : List (List Text)} (h : selectIn s base pattern = .ok paths) : paths.Nodup := by
  rw [selectIn] at h
  split at h
  · obtain rfl := Except.ok.inj h
    exact List.nodup_nil
  · split at h
    · obtain rfl := Except.ok.inj h
      exact List.nodup_nil
    · rw [bind_eq_ok_iff] at h
      obtain ⟨selected, -, h⟩ := h
      obtain rfl := Except.ok.inj h
      exact (List.mergeSort_perm _ _).nodup_iff.mpr (nodup_eraseDups selected)

/-- Paths that are selected in their order, each of them once, stay as they are. -/
theorem selectIn_of_sorted {s : Snapshot} {base : List Text} {pattern : Pattern} {p : Place}
    {paths : List (List Text)} (hwalk : s.walk (.inside s.home) base = .ok p)
    (hdirectory : s.entry? p = some .directory)
    (hselect : select s pattern.directoriesOnly base pattern.selectors p [] = .ok paths)
    (honce : paths.eraseDups = paths)
    (hsorted : paths.Pairwise fun a b => (compare a b).isLE = true) :
    selectIn s base pattern = .ok paths := by
  simp only [selectIn, hwalk, hdirectory, bne_self_eq_false, Bool.false_eq_true, if_false, hselect]
  change Except.ok _ = _
  rw [honce, List.mergeSort_of_pairwise hsorted]

/-! ## Patterns that stay below -/

/-- How far down a name of a pattern leads at least from a given depth. -/
def Selector.deeper? (depth : Nat) : Selector → Option Nat
  | .name n => Path.deeper? depth n
  | .wild _ => some (depth + 1)
  -- it may lead to the directory that it starts from
  | .anyDepth => some depth

/-- Whether a pattern never leads further up than the directory that is searched. -/
def Pattern.StaysBelow (selectors : List Selector) : Prop :=
  (selectors.foldlM Selector.deeper? 0).isSome

instance (selectors : List Selector) : Decidable (Pattern.StaysBelow selectors) :=
  inferInstanceAs (Decidable (_ = true))

/-- **The paths that a pattern selects stay below** the directory that is searched when the pattern
does. -/
theorem selectIn_staysBelow {s : Snapshot} (hs : s.Plain) {base : List Text} {pattern : Pattern}
    (hpattern : Pattern.StaysBelow pattern.selectors) {paths : List (List Text)}
    (h : selectIn s base pattern = .ok paths) {names : List Text} (hnames : names ∈ paths) :
    Path.StaysBelow names := by
  obtain ⟨-, p, selected, hselected, hmem⟩ := exists_select_of_selectIn h hnames
  -- the names found so far lead at least as far down as the selectors in front are counted to
  have hdepth : ∃ least depth, Path.depth? names = some depth ∧ least ≤ depth ∧
      ([].foldlM Selector.deeper? least).isSome := by
    refine select_induction hs (motive := fun rest found => ∃ least depth,
      Path.depth? found = some depth ∧ least ≤ depth ∧ (rest.foldlM Selector.deeper? least).isSome)
      ?_ ?_ ?_ ⟨0, 0, rfl, Nat.le_refl 0, hpattern⟩ hselected hmem
    · rintro n rest found ⟨least, depth, hfound, hle, hrest⟩
      rw [List.foldlM_cons] at hrest
      obtain ⟨least', hleast⟩ := Option.isSome_iff_exists.mp (Option.isSome_of_isSome_bind hrest)
      obtain ⟨depth', hdepth, hle'⟩ := Path.deeper?_mono hleast hle
      rw [hleast] at hrest
      exact ⟨least', depth', by simp [Path.depth?_append, hfound, hdepth], hle', hrest⟩
    · rintro parts rest found n hn ⟨least, depth, hfound, hle, hrest⟩
      refine ⟨least + 1, depth + 1, ?_, by omega, hrest⟩
      simp [Path.depth?_append, hfound, Path.deeper?_of_ne hn]
    · rintro rest found way hway ⟨least, depth, hfound, hle, hrest⟩
      refine ⟨least, depth + way.length, ?_, by omega, hrest⟩
      simp [Path.depth?_append, hfound, Path.foldlM_deeper?_of_plain hway]
  obtain ⟨least, depth, hnames, -⟩ := hdepth
  exact Option.isSome_iff_exists.mpr ⟨depth, hnames⟩

end Glob

end SqlTemplate
