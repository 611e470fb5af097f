import SqlTemplate.Proofs.Files.Places

set_option autoImplicit false

/-! # Where names lead with two dots among them

A name of two dots takes back the name in front of it, so where names lead is known without the
files (`Place.resolve`): names that can be followed lead there (`Snapshot.walk_eq_resolve`). They
stay below the place where they begin as long as no more names are taken back than there are. This
is seen by counting (`Path.depth?`), and then they lead to a place within it
(`Path.StaysBelow.exists_resolve`).
-/

namespace SqlTemplate

namespace Place

theorem resolve_append (p : Place) (ms ns : List Text) :
    p.resolve (ms ++ ns) = (p.resolve ms).resolve ns :=
  List.foldl_append ..

/-- Plain names lead straight down. -/
theorem resolve_plain {names : List Text} (h : Path.Plain names) (base : List Text) :
    resolve (.inside base) names = .inside (base ++ names) := by
  induction names generalizing base with
  | nil =>
      rw [List.append_nil]
      rfl
  | cons n ns ih =>
      rw [Path.Plain.cons_iff] at h
      have hrest := ih h.2 (base ++ [n])
      rw [List.append_assoc, List.singleton_append] at hrest
      rw [resolve, List.foldl_cons, enter_inside h.1]
      exact hrest

/-- Whether a place is in a directory, at any depth. -/
def IsBelow (p home : Place) : Prop :=
  ∃ base rest, home = .inside base ∧ rest ≠ [] ∧ p = .inside (base ++ rest)

end Place

namespace Snapshot

variable {s s' : Snapshot}

/-- Where names from the working directory lead. -/
def placeOf (s : Snapshot) (names : List Text) : Place := (Place.inside s.home).resolve names

theorem placeOf_append (s : Snapshot) (ms ns : List Text) :
    s.placeOf (ms ++ ns) = (s.placeOf ms).resolve ns :=
  Place.resolve_append ..

theorem placeOf_of_home (h : s'.home = s.home) (names : List Text) :
    s'.placeOf names = s.placeOf names := by
  rw [placeOf, placeOf, h]

theorem step_eq_enter {p q : Place} {n : Text} (h : s.step p n = .ok q) : q = p.enter n := by
  unfold Snapshot.step at h
  split at h
  · cases h
  · cases h
  · split at h
    · cases h
    · split at h
      · rename_i hup
        rw [Place.enter, if_pos hup]
        exact (Except.ok.inj h).symm
      · simp only at h
        split at h
        · exact (Except.ok.inj h).symm
        · cases h

/-- **Names that can be followed** lead where they resolve to. -/
theorem walk_eq_resolve {p q : Place} {names : List Text} (h : s.walk p names = .ok q) :
    q = p.resolve names := by
  induction names generalizing p with
  | nil => exact (Except.ok.inj h).symm
  | cons n ns ih =>
      rw [walk_cons, bind_eq_ok_iff] at h
      obtain ⟨r, hstep, hrest⟩ := h
      obtain rfl := step_eq_enter hstep
      exact ih hrest

end Snapshot

/-! ## Counting names -/

namespace Path

/-- The first names of a way end in its first part or go on into the second one. -/
theorem prefix_append_cases {pre ms ns : List Text} (h : pre <+: ms ++ ns) :
    pre <+: ms ∨ ∃ rest, rest <+: ns ∧ pre = ms ++ rest := by
  rcases List.prefix_or_prefix_of_prefix h (List.prefix_append ms ns) with hle | ⟨rest, rfl⟩
  · exact Or.inl hle
  · exact Or.inr ⟨rest, (List.prefix_append_right_inj ms).mp h, rfl⟩

/-- How far down a name leads from a given depth; it may not lead further up than depth zero. -/
def deeper? (depth : Nat) (name : Text) : Option Nat :=
  if name = parentName then if depth = 0 then none else some (depth - 1) else some (depth + 1)

/-- How far down names lead, if none of them leads further up than where they begin. -/
def depth? (names : List Text) : Option Nat := names.foldlM deeper? 0

/-- Whether names never lead further up than where they begin. -/
def StaysBelow (names : List Text) : Prop := (depth? names).isSome

instance (names : List Text) : Decidable (StaysBelow names) :=
  inferInstanceAs (Decidable (_ = true))

theorem deeper?_of_ne {name : Text} (h : name ≠ parentName) (depth : Nat) :
    deeper? depth name = some (depth + 1) := by
  rw [deeper?, if_neg h]

/-- From further down a name leads further down. -/
theorem deeper?_mono {depth depth' : Nat} {name : Text} (h : deeper? depth name = some depth')
    {deep : Nat} (hle : depth ≤ deep) :
    ∃ deep', deeper? deep name = some deep' ∧ depth' ≤ deep' := by
  rw [deeper?] at h ⊢
  by_cases hup : name = parentName
  · rw [if_pos hup] at h ⊢
    split at h
    · cases h
    · obtain rfl := Option.some.inj h
      exact ⟨deep - 1, if_neg (by omega), by omega⟩
  · rw [if_neg hup] at h ⊢
    obtain rfl := Option.some.inj h
    exact ⟨deep + 1, rfl, by omega⟩

theorem depth?_append (ms ns : List Text) :
    depth? (ms ++ ns) = (depth? ms).bind fun d => ns.foldlM deeper? d :=
  List.foldlM_append ..

theorem StaysBelow.of_prefix {pre names : List Text} (h : StaysBelow names) (hpre : pre <+: names) :
    StaysBelow pre := by
  obtain ⟨rest, rfl⟩ := hpre
  rw [StaysBelow, depth?_append] at h
  exact Option.isSome_of_isSome_bind h

theorem foldlM_deeper?_of_plain {names : List Text} (h : Plain names) (depth : Nat) :
    names.foldlM deeper? depth = some (depth + names.length) := by
  induction names generalizing depth with
  | nil => rfl
  | cons n ns ih =>
      rw [Plain.cons_iff] at h
      rw [List.foldlM_cons, deeper?_of_ne h.1]
      simp only [Option.bind_eq_bind, Option.bind_some, List.length_cons]
      rw [ih h.2]
      congr 1
      omega

/-- From below a directory, names lead to a place as far below it as they are counted to. -/
theorem exists_resolve_eq {names : List Text} {base here : List Text} {depth : Nat}
    (h : names.foldlM deeper? here.length = some depth) :
    ∃ rest, Place.resolve (.inside (base ++ here)) names = .inside (base ++ rest) ∧
      rest.length = depth := by
  induction names generalizing here with
  | nil => exact ⟨here, rfl, Option.some.inj h⟩
  | cons n ns ih =>
      rw [List.foldlM_cons, Option.bind_eq_bind, Option.bind_eq_some_iff] at h
      obtain ⟨d, hd, hrest⟩ := h
      rw [Place.resolve, List.foldl_cons]
      rw [deeper?] at hd
      split at hd
      · rename_i hup
        split at hd
        · cases hd
        · rename_i hdeep
          -- the last name is taken back
          obtain ⟨front, last, rfl⟩ :=
            (List.eq_nil_or_concat' here).resolve_left fun he => hdeep (by rw [he]; rfl)
          have henter : Place.enter (.inside (base ++ (front ++ [last]))) n =
              .inside (base ++ front) := by
            rw [Place.enter, if_pos hup, ← List.append_assoc, Place.parent, List.dropLast_concat]
          rw [henter]
          obtain rfl := Option.some.inj hd
          exact ih (by simpa using hrest)
      · rename_i hname
        obtain rfl := Option.some.inj hd
        rw [Place.enter_inside hname, List.append_assoc]
        exact ih (by simpa using hrest)

/-- **Names that stay below** lead to a place within the directory where they begin. -/
theorem StaysBelow.exists_resolve {names : List Text} (h : StaysBelow names) (base : List Text) :
    ∃ rest, Place.resolve (.inside base) names = .inside (base ++ rest) := by
  obtain ⟨depth, hdepth⟩ := Option.isSome_iff_exists.mp h
  obtain ⟨rest, hrest, -⟩ := @exists_resolve_eq names base [] depth hdepth
  rw [List.append_nil] at hrest
  exact ⟨rest, hrest⟩

/-- They lead further down if the last of them is not two dots. -/
theorem StaysBelow.isBelow {names : List Text} (h : StaysBelow names) (hne : names ≠ [])
    (hlast : names.getLast? ≠ some parentName) (base : List Text) :
    Place.IsBelow (Place.resolve (.inside base) names) (.inside base) := by
  obtain ⟨front, last, rfl⟩ := (List.eq_nil_or_concat' names).resolve_left hne
  rw [List.getLast?_concat, Ne, Option.some.injEq] at hlast
  obtain ⟨rest, hrest⟩ := (h.of_prefix (List.prefix_append front [last])).exists_resolve base
  refine ⟨base, rest ++ [last], rfl, by simp, ?_⟩
  rw [Place.resolve_append, hrest, ← List.append_assoc]
  exact Place.enter_inside hlast _

end Path

end SqlTemplate
