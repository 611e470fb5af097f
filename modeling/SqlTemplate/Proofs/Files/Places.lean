import Mathlib.Data.List.Infix
import SqlTemplate.Files.Snapshot
import SqlTemplate.Proofs.Outcome

set_option autoImplicit false

/-! # Where names lead

Names are plain when none of them is two dots (`Path.Plain`). From a directory, plain names lead
straight down: to the place under these names below it, through directories only
(`Snapshot.walk_eq_ok`). What is found there depends on nothing but the entries below that directory
(`Snapshot.lookAt_append_congr`), and a way that can be walked in a snapshot can still be walked
when entries have been added (`Snapshot.Extends.walk`).
-/

namespace SqlTemplate

/-- Whether none of the names is two dots. -/
def Path.Plain (names : List Text) : Prop := Path.parentName ∉ names

instance (names : List Text) : Decidable (Path.Plain names) :=
  inferInstanceAs (Decidable (_ ∉ names))

namespace Path.Plain

theorem append_iff (ms ns : List Text) :
    Path.Plain (ms ++ ns) ↔ Path.Plain ms ∧ Path.Plain ns := by
  simp only [Path.Plain, List.mem_append, not_or]

theorem cons_iff (n : Text) (ns : List Text) :
    Path.Plain (n :: ns) ↔ n ≠ Path.parentName ∧ Path.Plain ns := by
  simp only [Path.Plain, List.mem_cons, not_or]
  exact and_congr_left fun _ => ⟨Ne.symm, Ne.symm⟩

end Path.Plain

/-- A name that is not two dots leads down. -/
theorem Place.enter_inside {name : Text} (h : name ≠ Path.parentName) (base : List Text) :
    enter (.inside base) name = .inside (base ++ [name]) := by
  rw [enter, if_neg h]

namespace Snapshot

variable {s s' : Snapshot}

/-! ## One name -/

@[simp] theorem entry?_root (s : Snapshot) : s.entry? (.inside []) = some .directory := rfl

/-- A name that is not two dots leads to an entry of a directory. -/
theorem step_eq_ok_iff {n : Text} (hn : n ≠ Path.parentName) (base : List Text) (p : Place) :
    s.step (.inside base) n = .ok p ↔
      s.entry? (.inside base) = some .directory ∧ isTooLong n = false ∧
        (s.entry? (.inside (base ++ [n]))).isSome ∧ p = .inside (base ++ [n]) := by
  rw [step]
  cases hbase : s.entry? (.inside base) with
  | none => simp
  | some e =>
      cases e with
      | file content => simp
      | directory =>
          cases hlong : isTooLong n with
          | true => simp
          | false =>
              simp only [hn, if_false, Bool.false_eq_true, Place.enter_inside hn]
              split
              · rename_i hsome
                simp [hsome, eq_comm]
              · rename_i hnone
                simp [hnone]

/-! ## Many names -/

theorem walk_cons (s : Snapshot) (p : Place) (n : Text) (ns : List Text) :
    s.walk p (n :: ns) = s.step p n >>= fun q => s.walk q ns :=
  List.foldlM_cons ..

theorem walk_append (s : Snapshot) (p : Place) (ms ns : List Text) :
    s.walk p (ms ++ ns) = s.walk p ms >>= fun q => s.walk q ns :=
  List.foldlM_append ..

/-- Walking on from where a walk has led. -/
theorem walk_append_of_walk {p q : Place} {ms : List Text} (h : s.walk p ms = .ok q)
    (ns : List Text) : s.walk p (ms ++ ns) = s.walk q ns := by
  rw [walk_append, h]
  rfl

/-- **Plain names lead straight down**, through directories only. -/
theorem walk_eq_ok {base names : List Text} (hplain : Path.Plain names) {p : Place}
    (h : s.walk (.inside base) names = .ok p) :
    p = .inside (base ++ names) ∧ ∀ pre, pre <+: names → pre ≠ names →
      s.entry? (.inside (base ++ pre)) = some .directory := by
  induction names generalizing base with
  | nil =>
      obtain rfl := Except.ok.inj h
      refine ⟨by rw [List.append_nil], fun pre hpre hne => ?_⟩
      exact absurd (List.prefix_nil.mp hpre) hne
  | cons n ns ih =>
      rw [Path.Plain.cons_iff] at hplain
      rw [walk_cons, bind_eq_ok_iff] at h
      obtain ⟨q, hstep, hwalk⟩ := h
      obtain ⟨hdirectory, -, -, rfl⟩ := (step_eq_ok_iff hplain.1 base q).mp hstep
      obtain ⟨rfl, hbelow⟩ := ih hplain.2 hwalk
      refine ⟨by rw [List.append_assoc, List.singleton_append], fun pre hpre hne => ?_⟩
      cases pre with
      | nil => rwa [List.append_nil]
      | cons m ms =>
          obtain ⟨rfl, hms⟩ := List.cons_prefix_cons.mp hpre
          have hne' : ms ≠ ns := fun he => hne (he ▸ rfl)
          have hentry := hbelow ms hms hne'
          rwa [List.append_assoc, List.singleton_append] at hentry

/-! ## What is found -/

/-- What stands at a place that is reached. -/
theorem lookAt_of_walk {names : List Text} {p : Place} (h : s.walk (.inside s.home) names = .ok p)
    {e : Entry} : s.lookAt names = .ok e ↔ s.entry? p = some e := by
  rw [lookAt, h]
  simp only [bind, Except.bind]
  cases s.entry? p with
  | none => simp
  | some entry => simp

/-- Whether names lead to the directory at a place. -/
structure LeadsTo (s : Snapshot) (names home : List Text) : Prop where
  walk : s.walk (.inside s.home) names = .ok (.inside home)
  directory : s.entry? (.inside home) = some .directory

instance (s : Snapshot) (names home : List Text) : Decidable (s.LeadsTo names home) :=
  decidable_of_iff
    ((s.walk (.inside s.home) names).toOption = some (.inside home) ∧
      s.entry? (.inside home) = some .directory)
    ⟨fun h => ⟨eq_ok_of_toOption h.1, h.2⟩, fun h => ⟨by rw [h.walk]; rfl, h.directory⟩⟩

/-- Plain names under which something is found below a directory lead to the place under them. -/
theorem LeadsTo.walk_of_lookAt {base home names : List Text} (hbase : s.LeadsTo base home)
    (hplain : Path.Plain names) {e : Entry} (h : s.lookAt (base ++ names) = .ok e) :
    s.walk (.inside home) names = .ok (.inside (home ++ names)) := by
  cases hrest : s.walk (.inside home) names with
  | error fault =>
      rw [lookAt, walk_append_of_walk hbase.walk, hrest] at h
      cases h
  | ok p => rw [(walk_eq_ok hplain hrest).1]

/-- What is found under plain names below a directory stands there, and on the way there are
directories only. -/
theorem LeadsTo.lookAt_eq_ok {base home names : List Text} (hbase : s.LeadsTo base home)
    (hplain : Path.Plain names) {e : Entry} (h : s.lookAt (base ++ names) = .ok e) :
    s.entry? (.inside (home ++ names)) = some e ∧ ∀ pre, pre <+: names → pre ≠ names →
      s.entry? (.inside (home ++ pre)) = some .directory := by
  have hrest := hbase.walk_of_lookAt hplain h
  have hwalk := (walk_append_of_walk hbase.walk names).trans hrest
  exact ⟨(lookAt_of_walk hwalk).mp h, (walk_eq_ok hplain hrest).2⟩

/-- A walk down from a directory depends on the entries below it alone. -/
theorem walk_congr {base names : List Text} (hplain : Path.Plain names)
    (h : ∀ rest, s.entry? (.inside (base ++ rest)) = s'.entry? (.inside (base ++ rest))) :
    s.walk (.inside base) names = s'.walk (.inside base) names := by
  induction names generalizing base with
  | nil => rfl
  | cons n ns ih =>
      rw [Path.Plain.cons_iff] at hplain
      have hhere := h []
      have hnext := h [n]
      rw [List.append_nil] at hhere
      have hstep : s.step (.inside base) n = s'.step (.inside base) n := by
        simp only [step, hhere, Place.enter_inside hplain.1, hnext]
      have hrest : s.walk (.inside (base ++ [n])) ns = s'.walk (.inside (base ++ [n])) ns := by
        refine ih hplain.2 fun rest => ?_
        rw [List.append_assoc]
        exact h ([n] ++ rest)
      rw [walk_cons, walk_cons, hstep]
      cases hs : s'.step (.inside base) n with
      | error fault => rfl
      | ok q =>
          obtain ⟨-, -, -, rfl⟩ := (step_eq_ok_iff hplain.1 base q).mp hs
          exact hrest

/-- **What is found below a directory** depends on the entries below it alone. -/
theorem lookAt_append_congr {base home names : List Text} (hbase : s.LeadsTo base home)
    (hbase' : s'.LeadsTo base home) (hplain : Path.Plain names)
    (h : ∀ rest, s.entry? (.inside (home ++ rest)) = s'.entry? (.inside (home ++ rest))) :
    s.lookAt (base ++ names) = s'.lookAt (base ++ names) := by
  have hwalk := walk_congr hplain h
  rw [lookAt, lookAt, walk_append_of_walk hbase.walk, walk_append_of_walk hbase'.walk, hwalk]
  cases hw : s'.walk (.inside home) names with
  | error fault => rfl
  | ok p =>
      obtain ⟨rfl, -⟩ := walk_eq_ok hplain hw
      simp only [bind, Except.bind, h names]

/-! ## More entries -/

/-- Whether what stands in a snapshot still stands in another one, directories as directories. -/
structure Extends (s s' : Snapshot) : Prop where
  home : s'.home = s.home
  directory : ∀ p, s.entry? p = some .directory → s'.entry? p = some .directory
  present : ∀ p, (s.entry? p).isSome → (s'.entry? p).isSome

theorem Extends.refl (s : Snapshot) : s.Extends s := ⟨rfl, fun _ h => h, fun _ h => h⟩

theorem Extends.trans {s'' : Snapshot} (h : s.Extends s') (h' : s'.Extends s'') : s.Extends s'' :=
  ⟨h'.home.trans h.home, fun p hp => h'.directory p (h.directory p hp),
    fun p hp => h'.present p (h.present p hp)⟩

/-- Nothing is lost where an entry changes only if it is no directory, and into some entry. -/
theorem Extends.of_changes (hhome : s'.home = s.home)
    (h : ∀ p, s'.entry? p = s.entry? p ∨
      (s.entry? p ≠ some .directory ∧ (s'.entry? p).isSome)) : s.Extends s' := by
  refine ⟨hhome, ?_, ?_⟩
  · intro p hp
    rcases h p with he | ⟨hne, -⟩
    · rw [he, hp]
    · exact absurd hp hne
  · intro p hp
    rcases h p with he | ⟨-, hsome⟩
    · rwa [he]
    · exact hsome

theorem Extends.step (h : s.Extends s') {p q : Place} {n : Text} (hstep : s.step p n = .ok q) :
    s'.step p n = .ok q := by
  unfold Snapshot.step at hstep ⊢
  cases hp : s.entry? p with
  | none =>
      rw [hp] at hstep
      cases hstep
  | some e =>
      rw [hp] at hstep
      cases e with
      | file content => cases hstep
      | directory =>
          rw [h.directory p hp]
          simp only at hstep ⊢
          split at hstep
          · cases hstep
          · rename_i hlong
            rw [if_neg hlong]
            split at hstep
            · rename_i hup
              rw [if_pos hup]
              exact hstep
            · rename_i hname
              rw [if_neg hname]
              -- the entry under the name is still there
              split at hstep
              · rename_i hsome
                rw [if_pos (h.present _ hsome)]
                exact hstep
              · cases hstep

/-- A way that can be walked can still be walked when there are more entries. -/
theorem Extends.walk (h : s.Extends s') {p q : Place} {names : List Text}
    (hwalk : s.walk p names = .ok q) : s'.walk p names = .ok q := by
  induction names generalizing p with
  | nil => exact hwalk
  | cons n ns ih =>
      rw [walk_cons, bind_eq_ok_iff] at hwalk
      obtain ⟨r, hstep, hrest⟩ := hwalk
      rw [walk_cons, h.step hstep]
      exact ih hrest

/-- What is found as a directory is still found as one when there are more entries. -/
theorem Extends.lookAt_directory (h : s.Extends s') {names : List Text}
    (hlook : s.lookAt names = .ok .directory) : s'.lookAt names = .ok .directory := by
  have hfirst := hlook
  rw [lookAt, bind_eq_ok_iff] at hfirst
  obtain ⟨p, hwalk, -⟩ := hfirst
  rw [lookAt_of_walk hwalk] at hlook
  have hwalk' : s'.walk (.inside s'.home) names = .ok p := by rw [h.home, h.walk hwalk]
  exact (lookAt_of_walk hwalk').mpr (h.directory p hlook)

theorem LeadsTo.of_extends {names home : List Text} (h : s.LeadsTo names home)
    (hs : s.Extends s') : s'.LeadsTo names home :=
  ⟨by rw [hs.home, hs.walk h.walk], hs.directory _ h.directory⟩

end Snapshot

end SqlTemplate
