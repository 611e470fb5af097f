import Mathlib.Data.List.Nodup
import SqlTemplate.Proofs.Expander.Failures
import SqlTemplate.Proofs.Expander.TwoRuns
import SqlTemplate.Proofs.Value.Names

set_option autoImplicit false

/-! # The lookup table of arguments

Arguments whose names are told apart have a table with exactly one entry for each name, in the same
order and with the same value (`Lookup.IsTableOf`): no two names are merged, and a word is a key
just if it is the marker with a name behind it. A record and the mapping from its fields to their
values have the same table, so every template is expanded alike with both.

The main statement is `Expander.arguments_interchangeable`.
-/

namespace SqlTemplate

namespace Lookup

/-! ## The table of names with values -/

/-- Whether a table has an entry for each name, in the same order and with the same value, and no
other entries. -/
structure IsTableOf (table : Lookup) (marker : Text) (named : List (Text × Value)) : Prop where
  entries : table = named.map fun (name, v) => (marker ++ name, v)
  -- no two names have one entry
  keysDiffer : (table.map Prod.fst).Nodup
  isKey_iff : ∀ w, (table.find? w).isSome ↔ ∃ name ∈ named.map Prod.fst, w = marker ++ name
  value_iff : ∀ w v, table.find? w = some v ↔ ∃ name, (name, v) ∈ named ∧ w = marker ++ name

theorem isTableOf_ofList {named : List (Text × Value)} (h : (named.map Prod.fst).Nodup)
    (marker : Text) :
    (ofList (named.map fun (name, v) => (marker ++ name, v))).IsTableOf marker named := by
  have hkeys : ((named.map fun (name, v) => (marker ++ name, v)).map Prod.fst).Nodup := by
    have hmap : (named.map fun (name, v) => (marker ++ name, v)).map Prod.fst =
        (named.map Prod.fst).map (marker ++ ·) := by
      rw [List.map_map, List.map_map]
      rfl
    rw [hmap]
    exact h.map (List.append_right_injective marker)
  rw [ofList_of_nodup hkeys]
  have hvalue : ∀ w v, find? (named.map fun (name, v) => (marker ++ name, v)) w = some v ↔
      ∃ name, (name, v) ∈ named ∧ w = marker ++ name := by
    intro w v
    rw [find?_eq_some_iff hkeys]
    simp [eq_comm]
  refine ⟨rfl, hkeys, fun w => ?_, hvalue⟩
  rw [Option.isSome_iff_exists]
  simp only [hvalue]
  constructor
  · rintro ⟨v, name, hmem, he⟩
    exact ⟨name, List.mem_map.mpr ⟨_, hmem, rfl⟩, he⟩
  · rintro ⟨name, hname, he⟩
    obtain ⟨⟨n, v⟩, hentry, rfl⟩ := List.mem_map.mp hname
    exact ⟨v, n, hentry, he⟩

/-- Arguments whose names are told apart have a table of them. -/
theorem ofArgs_of_holds {args : Value} {named : List (Text × Value)} (h : args.Holds named)
    (hdistinct : args.Distinct) (marker : Text) :
    ofArgs marker args = .ok (ofList (named.map fun (name, v) => (marker ++ name, v))) := by
  rw [ofArgs, h.namedValues_eq hdistinct]
  rfl

theorem exists_ofArgs_eq_ok_iff (marker : Text) (args : Value) :
    (∃ table, ofArgs marker args = .ok table) ↔ args.AreArguments := by
  rw [← Value.exists_namedValues_iff]
  simp only [ofArgs, bind_eq_ok_iff, pure_eq_ok_iff]
  exact ⟨fun ⟨_, named, h, _⟩ => ⟨named, h⟩, fun ⟨named, h⟩ => ⟨_, named, h, rfl⟩⟩

end Lookup

namespace Expander

/-- Arguments that hold the same names with the same values expand every template alike. -/
theorem apply_congr_holds (p : Expander) (template : Text) {argsA argsB : Value}
    {named : List (Text × Value)} (hA : argsA.Holds named) (hB : argsB.Holds named) :
    p.apply template argsA = p.apply template argsB := by
  obtain ⟨givenA, hgivenA, hvalueA⟩ := hA.exists_namedValues
  obtain ⟨givenB, hgivenB, hvalueB⟩ := hB.exists_namedValues
  refine (apply_two_runs p template hgivenA hgivenB).2 fun w _ => ?_
  rw [hvalueA, hvalueB]

/-- **Arguments are interchangeable.** There is a table for a mapping whose keys are all texts and
for a record, and for nothing else. The table has exactly one entry for each name that the arguments
hold. A record expands every template as the mapping from its fields to their values does, also
after one of its attributes has been set, whatever texts its type writes for it then. -/
theorem arguments_interchangeable (marker : Text) (args : Value) :
    ((∃ table, Lookup.ofArgs marker args = .ok table) ↔ args.AreArguments) ∧
    (args.Distinct → ∀ named, args.Holds named →
      ∃ table, Lookup.ofArgs marker args = .ok table ∧ table.IsTableOf marker named) ∧
    ∀ kind name fields others own, args = .record kind name fields others own →
      ∀ (p : Expander) (template : Text) (readOnly : Bool),
        let mapping (named : List (Text × Value)) : Value :=
          .map readOnly (named.map fun (name, v) => (.text name, v))
        p.apply template args = p.apply template (mapping fields) ∧
        (args.Distinct → ∀ attr value own', p.apply template (args.setAttribute attr value own') =
          p.apply template (mapping (Value.assigned fields attr value))) := by
  refine ⟨Lookup.exists_ofArgs_eq_ok_iff marker args, ?_, ?_⟩
  · intro hdistinct named hnamed
    exact ⟨_, Lookup.ofArgs_of_holds hnamed hdistinct marker,
      Lookup.isTableOf_ofList (hdistinct.nodup hnamed) marker⟩
  · rintro kind name fields others own rfl p template readOnly mapping
    refine ⟨apply_congr_holds p template (.record kind name fields others own)
      (.map readOnly fields), fun hdistinct attr value own' => ?_⟩
    exact apply_congr_holds p template
      (Value.setAttribute_holds hdistinct kind name others own own' attr value) (.map readOnly _)

/-- A mapping that is given one key twice, and a record with two fields and one attribute more: each
has a table of two entries. With its second field set again, the record expands a template as a
mapping does. -/
theorem arguments_interchangeable_of_record :
    let dict : Value := .mapOf false [(.text "id".toList, .int 1),
      (.text "name".toList, .text "a".toList), (.text "id".toList, .int 2)]
    let row : Value := .record .model "Row".toList
      [("id".toList, .int 1), ("name".toList, .text "a".toList)] [("extra".toList, .bool true)]
      none
    let p : Expander := { marker := "$".toList }
    (∃ table, Lookup.ofArgs "$".toList dict = .ok table ∧
      table.IsTableOf "$".toList [("id".toList, .int 2), ("name".toList, .text "a".toList)]) ∧
    (∃ table, Lookup.ofArgs "$".toList row = .ok table ∧
      table.IsTableOf "$".toList [("id".toList, .int 1), ("name".toList, .text "a".toList)]) ∧
    p.apply "{ $id $name $extra }".toList (row.setAttribute "name".toList (.text "b".toList) none) =
      p.apply "{ $id $name $extra }".toList
        (.map false [(.text "id".toList, .int 1), (.text "name".toList, .text "b".toList)]) := by
  intro dict row p
  have hdict : dict.Holds [("id".toList, .int 2), ("name".toList, .text "a".toList)] := by
    have hmap : dict = .map false
        [(.text "id".toList, .int 2), (.text "name".toList, .text "a".toList)] := by
      simp [dict, Value.mapOf, Value.insertEntry, Value.sameKey_text]
    rw [hmap]
    exact .map false [("id".toList, .int 2), ("name".toList, .text "a".toList)]
  have hdistinct : row.Distinct := by simp [row, Value.Distinct]
  obtain ⟨-, htable, -⟩ := arguments_interchangeable "$".toList dict
  obtain ⟨-, htable', hrecord⟩ := arguments_interchangeable "$".toList row
  refine ⟨htable (Value.distinct_mapOf false _) _ hdict,
    htable' hdistinct _ (.record _ _ _ _ _), ?_⟩
  exact (hrecord _ _ _ _ _ rfl p _ false).2 hdistinct "name".toList (.text "b".toList) none

end Expander

end SqlTemplate
