import SqlTemplate.Proofs.Lookup
import SqlTemplate.Proofs.Outcome

set_option autoImplicit false

/-! # Names with values

Arguments hold names with values (`Value.Holds`): a mapping whose keys are texts holds its entries,
and a record its fields. Each kind of records is asked for its fields in its own way, and every way
leads to the same values (`Value.exists_namedValues_record`). Keys are told apart in every mapping
that is made from entries, and so are the fields of a record whose attributes are set
(`Value.Distinct`). Setting an attribute changes the value of the field with this name, and nothing
else that the record holds (`Value.setAttribute_holds`).
-/

namespace SqlTemplate

namespace Value

/-! ## What arguments hold -/

/-- Whether arguments hold these names with these values, in this order. -/
inductive Holds : Value → List (Text × Value) → Prop where
  | map (readOnly : Bool) (named : List (Text × Value)) :
      Holds (.map readOnly (named.map fun (name, v) => (.text name, v))) named
  -- the other attributes of a record are no fields
  | record (kind : RecordKind) (name : Text) (fields others : List (Text × Value))
      (own : Option OwnTexts) : Holds (.record kind name fields others own) fields

theorem namedEntries_eq_ok_iff (entries : List (Value × Value)) (named : List (Text × Value)) :
    namedEntries entries = .ok named ↔ entries = named.map fun (name, v) => (.text name, v) := by
  induction entries generalizing named with
  | nil => cases named <;> simp [namedEntries]
  | cons entry rest ih =>
      obtain ⟨k, v⟩ := entry
      cases k with
      | text name =>
          simp only [namedEntries, bind_eq_ok_iff, pure_eq_ok_iff, ih]
          constructor
          · rintro ⟨rest, rfl, rfl⟩
            rfl
          · intro h
            cases named with
            | nil => cases h
            | cons first named =>
                obtain ⟨hentry, hrest⟩ := List.cons.inj h
                obtain ⟨hname, rfl⟩ := Prod.mk.inj hentry
                obtain rfl := Value.text.inj hname
                exact ⟨named, hrest, rfl⟩
      | _ => cases named <;> simp [namedEntries]

/-! ## The fields of a record -/

/-- An attribute that is a field has the value that is given last under its name. -/
theorem attribute?_of_mem {fields : List (Text × Value)} {field : Text × Value}
    (h : field ∈ fields) (kind : RecordKind) (name : Text) (others : List (Text × Value))
    (own : Option OwnTexts) :
    (record kind name fields others own).attribute? field.1 = valueOf? [] fields field.1 ∧
      (valueOf? [] fields field.1).isSome := by
  have hmem : (valueOf? [] fields field.1).isSome := by
    rw [Option.isSome_iff_ne_none, Ne, valueOf?_eq_none_iff]
    exact fun hnone => hnone field.1 (List.mem_map_of_mem h) rfl
  refine ⟨?_, hmem⟩
  obtain ⟨v, hv⟩ := Option.isSome_iff_exists.mp hmem
  rw [attribute?, Lookup.find?_ofList, hv]
  rw [valueOf?, Option.map_eq_some_iff] at hv
  obtain ⟨entry, hentry, rfl⟩ := hv
  rw [valueOf?, List.reverse_append, List.find?_append, hentry]
  rfl

/-- Under every marker, the values that are given last are given when they take the places of those
in front of them. -/
theorem valueOf?_map_last (marker : Text) (fields : List (Text × Value)) :
    valueOf? marker (fields.map fun f => (f.1, (valueOf? [] fields f.1).getD f.2)) =
      valueOf? marker fields := by
  funext w
  rw [valueOf?, valueOf?, ← List.map_reverse, List.find?_map, Option.map_map]
  refine Option.map_congr fun f hf => ?_
  have hname : marker ++ f.1 = w := by simpa using List.find?_some hf
  have hlast : valueOf? [] fields f.1 = some f.2 := by
    have hsame : (fun entry : Text × Value => [] ++ entry.1 == f.1) =
        fun entry => marker ++ entry.1 == w := by
      funext entry
      rw [← hname, Bool.eq_iff_iff, beq_iff_eq, beq_iff_eq, List.append_cancel_left_eq]
      rfl
    have hfound : fields.reverse.find? (fun entry => marker ++ entry.1 == w) = some f := hf
    rw [valueOf?, hsame, hfound]
    rfl
  simp [hlast]

/-- **What a record gives**, of whatever kind it is: its fields, if their names differ, and else
names with the values that the last of them has. -/
theorem exists_namedValues_record (kind : RecordKind) (name : Text)
    (fields others : List (Text × Value)) (own : Option OwnTexts) :
    ∃ named, (record kind name fields others own).namedValues = .ok named ∧
      (∀ marker, valueOf? marker named = valueOf? marker fields) ∧
      ((fields.map Prod.fst).Nodup → named = fields) := by
  have hasked : ∀ kind', kind' ≠ .namedTuple →
      (record kind' name fields others own).fields =
        .ok (fields.map fun f => (f.1, (valueOf? [] fields f.1).getD f.2)) := by
    intro kind' hkind
    have hattributes : (fields.map Prod.fst).filterMap (fun attr =>
          ((record kind' name fields others own).attribute? attr).map (attr, ·)) =
        fields.map fun f => (f.1, (valueOf? [] fields f.1).getD f.2) := by
      rw [List.filterMap_map, ← List.filterMap_eq_map]
      refine List.filterMap_congr fun f hf => ?_
      obtain ⟨hattr, hsome⟩ := attribute?_of_mem hf kind' name others own
      obtain ⟨v, hv⟩ := Option.isSome_iff_exists.mp hsome
      simp [hattr, hv]
    cases kind' with
    | namedTuple => exact absurd rfl hkind
    | plain => exact congrArg _ hattributes
    | model => exact congrArg _ hattributes
  have hlast : (fields.map Prod.fst).Nodup →
      (fields.map fun f => (f.1, (valueOf? [] fields f.1).getD f.2)) = fields := by
    intro hdistinct
    refine (List.map_congr_left fun f hf => ?_).trans (List.map_id fields)
    have hvalue := (Lookup.find?_eq_some_iff hdistinct f.1 f.2).mpr hf
    rw [← Lookup.find?_ofList, Lookup.ofList_of_nodup hdistinct, hvalue]
    rfl
  cases kind with
  | namedTuple =>
      refine ⟨fields, ?_, fun _ => rfl, fun _ => rfl⟩
      exact congrArg Except.ok (List.zip_of_prod rfl rfl).symm
  | plain => exact ⟨_, hasked .plain nofun, fun marker => valueOf?_map_last marker fields, hlast⟩
  | model => exact ⟨_, hasked .model nofun, fun marker => valueOf?_map_last marker fields, hlast⟩

/-- What arguments hold stands for values as what they give does. -/
theorem Holds.exists_namedValues {args : Value} {named : List (Text × Value)}
    (h : args.Holds named) :
    ∃ given, args.namedValues = .ok given ∧
      ∀ marker, valueOf? marker given = valueOf? marker named := by
  cases h with
  | map readOnly => exact ⟨named, (namedEntries_eq_ok_iff _ _).mpr rfl, fun _ => rfl⟩
  | record kind name =>
      obtain ⟨given, hgiven, hvalue, -⟩ := exists_namedValues_record kind name named _ _
      exact ⟨given, hgiven, hvalue⟩

/-! ## Names that are told apart -/

/-- Whether the names in arguments are told apart: no key of a mapping is the same as a later one,
and no two fields of a record have one name. -/
def Distinct : Value → Prop
  | .map _ entries => (entries.map Prod.fst).Pairwise fun k l => k.sameKey l = false
  | .record _ _ fields _ _ => (fields.map Prod.fst).Nodup
  | _ => True

theorem sameKey_text (s t : Text) : (Value.text s).sameKey (.text t) = (s == t) := by
  simp [sameKey, asInt?]

theorem Distinct.nodup {args : Value} (h : args.Distinct) {named : List (Text × Value)}
    (hnamed : args.Holds named) : (named.map Prod.fst).Nodup := by
  cases hnamed with
  | map readOnly =>
      rw [Distinct, List.map_map, List.pairwise_map] at h
      rw [List.Nodup, List.pairwise_map]
      refine h.imp fun hdiffer hsame => ?_
      simp [sameKey_text, hsame] at hdiffer
  | record => exact h

/-- Arguments whose names are told apart give what they hold. -/
theorem Holds.namedValues_eq {args : Value} {named : List (Text × Value)} (h : args.Holds named)
    (hdistinct : args.Distinct) : args.namedValues = .ok named := by
  cases h with
  | map readOnly => exact (namedEntries_eq_ok_iff _ _).mpr rfl
  | record kind name =>
      obtain ⟨given, hgiven, -, hsame⟩ := exists_namedValues_record kind name named _ _
      rw [hgiven, hsame hdistinct]

/-- The keys after an entry was added: a key that is there already is not added again. -/
theorem keys_insertEntry (entries : List (Value × Value)) (key value : Value) :
    (insertEntry entries key value).map Prod.fst =
      if entries.any fun entry => entry.1.sameKey key then entries.map Prod.fst
      else entries.map Prod.fst ++ [key] := by
  induction entries with
  | nil => rfl
  | cons entry rest ih =>
      obtain ⟨k, v⟩ := entry
      rw [insertEntry]
      by_cases hk : k.sameKey key = true
      · simp [hk]
      · rw [if_neg hk, List.map_cons, ih, List.any_cons, Bool.eq_false_iff.mpr hk,
          Bool.false_or]
        split <;> rfl

theorem pairwise_keys_insertEntry {entries : List (Value × Value)} (key value : Value)
    (h : (entries.map Prod.fst).Pairwise fun k l => k.sameKey l = false) :
    ((insertEntry entries key value).map Prod.fst).Pairwise fun k l => k.sameKey l = false := by
  rw [keys_insertEntry]
  split
  · exact h
  · rename_i hnew
    refine List.pairwise_append.mpr ⟨h, List.pairwise_singleton _ _, ?_⟩
    intro k hk l hl
    obtain ⟨entry, hentry, rfl⟩ := List.mem_map.mp hk
    rw [List.mem_singleton.mp hl]
    simp only [List.any_eq_true, not_exists, not_and] at hnew
    exact Bool.eq_false_iff.mpr (hnew entry hentry)

/-- **A mapping that is made from entries** has each key once. -/
theorem distinct_mapOf (readOnly : Bool) (entries : List (Value × Value)) :
    (mapOf readOnly entries).Distinct := by
  have hfold : ∀ table : List (Value × Value),
      (table.map Prod.fst).Pairwise (fun k l => k.sameKey l = false) →
      ((entries.foldl (fun es e => insertEntry es e.1 e.2) table).map Prod.fst).Pairwise
        fun k l => k.sameKey l = false := by
    induction entries with
    | nil => exact fun _ h => h
    | cons entry entries ih =>
        exact fun _ h => ih _ (pairwise_keys_insertEntry entry.1 entry.2 h)
  exact hfold [] .nil

/-! ## Attributes -/

/-- The same names with their values, but one name, if it is there, with another value. -/
def assigned (named : List (Text × Value)) (name : Text) (value : Value) : List (Text × Value) :=
  named.map fun (n, v) => (n, if n = name then value else v)

theorem assigned_of_not_mem {named : List (Text × Value)} {name : Text}
    (h : name ∉ named.map Prod.fst) (value : Value) : assigned named name value = named := by
  refine (List.map_congr_left fun entry hentry => ?_).trans (List.map_id named)
  have hne : entry.1 ≠ name := fun he => h (he ▸ List.mem_map_of_mem hentry)
  simp [hne]

theorem setNamed_eq_assigned {named : List (Text × Value)} (h : (named.map Prod.fst).Nodup)
    {name : Text} (hmem : name ∈ named.map Prod.fst) (value : Value) :
    setNamed named name value = assigned named name value := by
  induction named with
  | nil => cases hmem
  | cons entry rest ih =>
      obtain ⟨n, v⟩ := entry
      obtain ⟨hnew, hrest⟩ := List.nodup_cons.mp h
      rw [setNamed, assigned, List.map_cons, ← assigned]
      by_cases hn : n = name
      · -- no later entry has the name
        subst hn
        rw [if_pos rfl, assigned_of_not_mem hnew]
        simp
      · have hmem' : name ∈ rest.map Prod.fst := by
          rcases List.mem_cons.mp hmem with he | hmem'
          · exact absurd he.symm hn
          · exact hmem'
        rw [if_neg hn, ih hrest hmem']
        simp [hn]

/-- **Setting an attribute** of a record gives the field with this name another value, if there is
one. Any other attribute is nothing that the record holds. -/
theorem setAttribute_holds {fields : List (Text × Value)} (h : (fields.map Prod.fst).Nodup)
    (kind : RecordKind) (name : Text) (others : List (Text × Value)) (own own' : Option OwnTexts)
    (attr : Text) (value : Value) :
    ((Value.record kind name fields others own).setAttribute attr value own').Holds
      (assigned fields attr value) := by
  have hany : (fields.any fun f => f.1 = attr) = true ↔ attr ∈ fields.map Prod.fst := by
    simp
  rw [setAttribute]
  split
  · rename_i hfield
    rw [setNamed_eq_assigned h (hany.mp hfield)]
    exact .record kind name _ others own'
  · rename_i hfield
    rw [hany] at hfield
    rw [assigned_of_not_mem hfield]
    exact .record kind name fields _ own'

end Value

end SqlTemplate
