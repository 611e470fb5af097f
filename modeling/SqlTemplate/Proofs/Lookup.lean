import Mathlib.Data.List.Nodup
import SqlTemplate.Lookup

set_option autoImplicit false

/-! # What arguments stand for

The lookup table of arguments is built entry by entry. Here it is compared with the names and values
that the arguments hold: a word that is a name with the marker in front stands for the value that
was given last under this name (`valueOf?`), and any other word stands for no value. So the form of
a word in an expanded template is the text of this value (`valueText?`), and else the word itself
(`formatted`). A value that has no text leaves its word as it is, and the expansion fails.
-/

namespace SqlTemplate

/-- The value that a word stands for under a marker, if it stands for one. -/
def valueOf? (marker : Text) (named : List (Text × Value)) (w : Text) : Option Value :=
  (named.reverse.find? fun entry => marker ++ entry.1 == w).map Prod.snd

/-- The text of the value that a word stands for under a marker, if it stands for one that has a
text. -/
def valueText? (marker : Text) (named : List (Text × Value)) (w : Text) : Option Text :=
  (valueOf? marker named w).bind fun v => v.format.toOption

/-- The form of a word in an expanded template: the text of the value that it stands for, and
else the word itself. -/
def formatted (marker : Text) (named : List (Text × Value)) (w : Text) : Text :=
  (valueText? marker named w).getD w

/-- A word stands for no value when it is none of the names with the marker in front. -/
theorem valueOf?_eq_none_iff (marker : Text) (named : List (Text × Value)) (w : Text) :
    valueOf? marker named w = none ↔ ∀ name ∈ named.map Prod.fst, marker ++ name ≠ w := by
  rw [valueOf?, Option.map_eq_none_iff, List.find?_eq_none]
  simp

/-- The value that a word stands for is one of the values. -/
theorem exists_mem_of_valueOf? {marker : Text} {named : List (Text × Value)} {w : Text} {v : Value}
    (h : valueOf? marker named w = some v) : ∃ name, (name, v) ∈ named := by
  rw [valueOf?, Option.map_eq_some_iff] at h
  obtain ⟨⟨name, v'⟩, hfind, rfl⟩ := h
  exact ⟨name, List.mem_reverse.mp (List.mem_of_find?_eq_some hfind)⟩

namespace Lookup

theorem find?_cons (key word : Text) (value : Value) (rest : Lookup) :
    find? ((key, value) :: rest) word = if key = word then some value else rest.find? word := by
  by_cases h : key = word
  · simp [find?, h]
  · have h' : (word == key) = false := beq_false_of_ne fun he => h he.symm
    rw [if_neg h, find?, List.lookup_cons, h']
    rfl

theorem find?_set (table : Lookup) (key word : Text) (value : Value) :
    (table.set key value).find? word = if key = word then some value else table.find? word := by
  simp only [set]
  induction table with
  | nil => rw [Value.setNamed, find?_cons]
  | cons entry rest ih =>
      obtain ⟨k, v⟩ := entry
      rw [Value.setNamed]
      -- the key is replaced where it stands
      by_cases hk : k = key
      · rw [if_pos hk, find?_cons, find?_cons, hk]
        split <;> rfl
      · rw [if_neg hk, find?_cons, find?_cons, ih]
        by_cases hw : k = word
        · have hne : key ≠ word := fun h => hk (hw.trans h.symm)
          simp [hw, hne]
        · simp [hw]

/-- The value of a key is the one that was set last. -/
theorem find?_foldl_set (entries : List (Text × Value)) (table : Lookup) (word : Text) :
    (entries.foldl (fun table (key, value) => table.set key value) table).find? word =
      ((entries.reverse.find? fun entry => entry.1 == word).map Prod.snd).or
        (table.find? word) := by
  induction entries generalizing table with
  | nil => rfl
  | cons entry entries ih =>
      rw [List.foldl_cons, ih, find?_set, List.reverse_cons, List.find?_append, Option.map_or,
        Option.or_assoc]
      refine congrArg _ ?_
      by_cases h : entry.1 = word <;> simp [h]

/-- The value of a key in a table is the one that is given last. -/
theorem find?_ofList (entries : List (Text × Value)) (word : Text) :
    (ofList entries).find? word = valueOf? [] entries word := by
  rw [ofList, find?_foldl_set, find?, List.lookup_nil, Option.or_none]
  rfl

/-- The value of a key in a table made of names and values behind a marker. -/
theorem find?_ofList_map (marker : Text) (named : List (Text × Value)) (word : Text) :
    (ofList (named.map fun (name, v) => (marker ++ name, v))).find? word =
      valueOf? marker named word := by
  rw [ofList, find?_foldl_set, ← List.map_reverse, List.find?_map, find?, List.lookup_nil,
    Option.or_none, valueOf?, Option.map_map]
  rfl

/-! ## Tables of different keys -/

theorem set_of_not_mem {table : Lookup} {key : Text} (h : key ∉ table.map Prod.fst)
    (value : Value) : table.set key value = table ++ [(key, value)] := by
  simp only [set]
  induction table with
  | nil => rfl
  | cons entry rest ih =>
      obtain ⟨k, v⟩ := entry
      rw [List.map_cons, List.mem_cons, not_or] at h
      rw [Value.setNamed, if_neg (Ne.symm h.1), ih h.2, List.cons_append]

theorem foldl_set_of_nodup {table : Lookup} {entries : List (Text × Value)}
    (h : ((table ++ entries).map Prod.fst).Nodup) :
    entries.foldl (fun table (key, value) => table.set key value) table = table ++ entries := by
  induction entries generalizing table with
  | nil => rw [List.foldl_nil, List.append_nil]
  | cons entry entries ih =>
      obtain ⟨key, value⟩ := entry
      have hnew : key ∉ table.map Prod.fst := by
        rw [List.map_append, List.map_cons] at h
        exact fun hmem => List.disjoint_of_nodup_append h hmem List.mem_cons_self
      rw [List.append_cons] at h
      simp only [List.foldl_cons]
      rw [set_of_not_mem hnew, ih h, ← List.append_cons]

/-- Entries with different keys are a table as they are. -/
theorem ofList_of_nodup {entries : List (Text × Value)} (h : (entries.map Prod.fst).Nodup) :
    ofList entries = entries :=
  @foldl_set_of_nodup [] entries h

theorem find?_eq_some_iff {table : Lookup} (h : (table.map Prod.fst).Nodup) (word : Text)
    (value : Value) : table.find? word = some value ↔ (word, value) ∈ table := by
  induction table with
  | nil => simp [find?]
  | cons entry rest ih =>
      obtain ⟨k, v⟩ := entry
      obtain ⟨hnew, hrest⟩ := List.nodup_cons.mp h
      rw [find?_cons, List.mem_cons]
      by_cases hk : k = word
      · subst hk
        have hother : (k, value) ∉ rest := fun hmem => hnew (List.mem_map.mpr ⟨_, hmem, rfl⟩)
        simp [hother, eq_comm]
      · have hne : ¬ (word, value) = (k, v) := fun he => hk (Prod.mk.inj he).1.symm
        rw [if_neg hk, ih hrest, or_iff_right hne]

/-! ## What replaces a word -/

theorem resolve_of_find? {table : Lookup} {word : Text} {v : Value}
    (h : table.find? word = some v) : table.resolve word = v.write := by
  rw [resolve, h]

theorem resolve_of_find?_eq_none {table : Lookup} {word : Text} (h : table.find? word = none) :
    table.resolve word = pure word := by
  rw [resolve, h]

/-- What becomes of a word depends on the value that it stands for alone. -/
theorem resolve_congr {table table' : Lookup} {word : Text}
    (h : table.find? word = table'.find? word) : table.resolve word = table'.resolve word := by
  rw [resolve, resolve, h]

theorem replace_of_ok {table : Lookup} {word t : Text} (h : (table.resolve word).result = .ok t) :
    table.replace word = t := by
  rw [replace, h]

theorem replace_of_error {table : Lookup} {word : Text} {fault : FormatFault}
    (h : (table.resolve word).result = .error fault) : table.replace word = word := by
  rw [replace, h]

theorem fault?_eq_none_iff (table : Lookup) (word : Text) :
    table.fault? word = none ↔ ∃ t, (table.resolve word).result = .ok t := by
  rw [fault?]
  cases (table.resolve word).result <;> simp

theorem fault?_eq_some_iff (table : Lookup) (word : Text) (fault : FormatFault) :
    table.fault? word = some fault ↔ (table.resolve word).result = .error fault := by
  rw [fault?]
  cases (table.resolve word).result <;> simp

/-- A word that is no key can be replaced. -/
theorem fault?_of_find?_eq_none {table : Lookup} {word : Text} (h : table.find? word = none) :
    table.fault? word = none := by
  rw [fault?, resolve_of_find?_eq_none h]
  rfl

/-- A word can be replaced when the value that it stands for, if it stands for one, has a text. -/
theorem fault?_eq_none_iff_of_find? (table : Lookup) (word : Text) :
    table.fault? word = none ↔ ∀ v, table.find? word = some v → ∃ t, v.format = .ok t := by
  rw [fault?_eq_none_iff]
  cases h : table.find? word with
  | none => simp [resolve_of_find?_eq_none h]
  | some v => simp [resolve_of_find? h, Value.format]

/-- A word that cannot be replaced stands for a value that has no text, and it stays. -/
theorem exists_of_fault? {table : Lookup} {word : Text} {fault : FormatFault}
    (h : table.fault? word = some fault) :
    (∃ v, table.find? word = some v ∧ v.format = .error fault) ∧ table.replace word = word := by
  rw [fault?_eq_some_iff] at h
  refine ⟨?_, replace_of_error h⟩
  cases hkey : table.find? word with
  | none =>
      rw [resolve_of_find?_eq_none hkey] at h
      cases h
  | some v => exact ⟨v, rfl, by rwa [resolve_of_find? hkey] at h⟩

theorem replace_eq_getD (table : Lookup) (word : Text) :
    table.replace word =
      ((table.find? word).bind fun v => v.format.toOption).getD word := by
  unfold replace
  cases h : table.find? word with
  | none =>
      rw [resolve_of_find?_eq_none h]
      rfl
  | some v =>
      rw [resolve_of_find? h, Option.bind_some, Value.format]
      cases v.write.result <;> rfl

/-- A table in which each word has the value that it stands for replaces each word by its form. -/
theorem replace_eq_formatted {table : Lookup} {marker : Text} {named : List (Text × Value)}
    (h : table.find? = valueOf? marker named) : table.replace = formatted marker named := by
  funext word
  rw [replace_eq_getD, h]
  rfl

/-- **The table of arguments** has for each word the value that it stands for. -/
theorem exists_ofArgs_eq {args : Value} {named : List (Text × Value)}
    (h : args.namedValues = .ok named) (marker : Text) :
    ∃ table, ofArgs marker args = .ok table ∧ table.find? = valueOf? marker named := by
  refine ⟨ofList (named.map fun (name, v) => (marker ++ name, v)), by rw [ofArgs, h]; rfl, ?_⟩
  funext word
  exact find?_ofList_map marker named word

end Lookup

end SqlTemplate
