import SqlTemplate.Proofs.Lookup
import SqlTemplate.Proofs.Node.Interpretation

set_option autoImplicit false

/-! # Substituting twice

A successful substitution has replaced every word of a tree, and a second one looks up what was put
in their places. Whether it changes anything depends on the table alone: it changes no tree exactly
when the table replaces each of its own replacements by itself (`Node.substitute_twice_iff`). A
table in which no value is written like a key has no replacement that is looked up with success, so
that a second substitution leaves every tree as it is (`Node.substitute_twice`).
-/

namespace SqlTemplate

namespace Lookup

/-- Whether a replacement that is looked up again stays what it is. -/
def Idempotent (table : Lookup) : Prop :=
  ∀ w, table.fault? w = none → table.fault? (table.replace w) = none ∧
    table.replace (table.replace w) = table.replace w

theorem replace_of_find?_eq_none {table : Lookup} {word : Text} (h : table.find? word = none) :
    table.replace word = word :=
  replace_of_ok (by rw [resolve_of_find?_eq_none h]; rfl)

/-- What replaces a word is no key when no value is written like one. -/
theorem idempotent_of_no_key {table : Lookup}
    (h : ∀ key v t, table.find? key = some v → v.format = .ok t → table.find? t = none) :
    table.Idempotent := by
  intro w hfault
  have hkey : table.find? (table.replace w) = none := by
    cases hw : table.find? w with
    | none => rwa [replace_of_find?_eq_none hw]
    | some v =>
        obtain ⟨t, ht⟩ := (fault?_eq_none_iff table w).mp hfault
        rw [replace_of_ok ht]
        rw [resolve_of_find? hw] at ht
        exact h w v t hw ht
  exact ⟨fault?_of_find?_eq_none hkey, replace_of_find?_eq_none hkey⟩

/-- A predicate that was replaced reads as it did before. -/
theorem Idempotent.truthOf?_map {table : Lookup} (h : table.Idempotent) {predicate : List Text}
    (hfault : ∀ w ∈ predicate, table.fault? w = none) :
    table.truthOf? (predicate.map table.replace) = table.truthOf? predicate := by
  match predicate with
  | [] => rfl
  | [w] => exact congrArg Text.truth? (h w (hfault w List.mem_cons_self)).2
  | v :: w :: ws => rfl

end Lookup

namespace Node

/-- A successful substitution replaces every word of the tree and reports nothing. -/
theorem substitute_eq_mapWords {table : Lookup} {n : Node Empty}
    (h : (n.substitute table).2 = none) :
    n.substitute table = (n.mapWords table.replace, none) :=
  Prod.ext (substitute_fst table h) h

/-- **A second substitution** changes no tree that a first one went through when the table replaces
its own replacements by themselves, and only then. -/
theorem substitute_twice_iff (table : Lookup) :
    (∀ n : Node Empty, (n.substitute table).2 = none →
      (n.substitute table).1.substitute table = ((n.substitute table).1, none)) ↔
        table.Idempotent := by
  constructor
  · intro h w hfault
    -- the tree that is the word `w` alone
    have hword : (literal (table.replace w) : Node Empty).substitute table =
        (literal (table.replace w), none) := h (.literal w) (by rw [substitute, hfault]; rfl)
    rw [substitute, Prod.mk.injEq, literal.injEq, Option.map_eq_none_iff] at hword
    exact hword.symm
  · intro h n hn
    rw [substitute_eq_mapWords hn]
    rw [substitute_snd_eq_none_iff] at hn
    -- every predicate reads as in the first substitution, and every word that is now in the tree
    -- can be looked up
    have hagain : ((n.mapWords table.replace).substitute table).2 = none := by
      rw [substitute_snd_eq_none_iff]
      constructor
      · intro q hq
        rw [predicates_mapWords, List.mem_map] at hq
        obtain ⟨q, hq, rfl⟩ := hq
        rw [h.truthOf?_map fun w hw => hn.2 w (mem_words_of_mem_predicates hq hw)]
        exact hn.1 q hq
      · intro w hw
        rw [words_mapWords, List.mem_map] at hw
        obtain ⟨w, hw, rfl⟩ := hw
        exact (h w (hn.2 w hw)).1
    have hreplace : (n.mapWords table.replace).mapWords table.replace =
        n.mapWords table.replace := by
      rw [mapWords_mapWords]
      exact mapWords_congr fun w hw => (h w (hn.2 w hw)).2
    rw [substitute_eq_mapWords hagain, hreplace]

/-- **Substituting twice is substituting once** when the text of no value is a key of the table: a
second substitution in a tree succeeds as the first one did and leaves every word and every
predicate of the tree as it is. -/
theorem substitute_twice {table : Lookup}
    (htable : ∀ key v t, table.find? key = some v → v.format = .ok t → table.find? t = none)
    {n : Node Empty} (h : (n.substitute table).2 = none) :
    (n.substitute table).1.substitute table = ((n.substitute table).1, none) :=
  (substitute_twice_iff table).mpr (Lookup.idempotent_of_no_key htable) n h

/-- The key `.c` is in the value of `.x`, which is no key for all that. The second conditional
stands in a branch that is not taken. -/
theorem substitute_twice_of_untaken :
    let table : Lookup := [(".c".toList, .bool false), (".x".toList, .text ".c .d".toList)]
    let n : Node Empty := .sequence [.literal ".x".toList, .conditional [".c".toList]
      (.sequence [.conditional [".c".toList] (.literal ".x".toList) none]) none]
    let n' : Node Empty := .sequence [.literal ".c .d".toList, .conditional ["false".toList]
      (.sequence [.conditional ["false".toList] (.literal ".c .d".toList) none]) none]
    (∀ key v t, table.find? key = some v → v.format = .ok t → table.find? t = none) ∧
      n.substitute table = (n', none) ∧ n'.substitute table = (n', none) := by
  intro table n n'
  have htable : ∀ key v t, table.find? key = some v → v.format = .ok t →
      table.find? t = none := by
    intro key v t h ht
    rw [Lookup.find?_cons, Lookup.find?_cons] at h
    split at h
    · cases h
      cases ht
      rfl
    · split at h
      · cases h
        cases ht
        rfl
      · cases h
  have hn : n.substitute table = (n', none) := rfl
  have hagain := substitute_twice htable (n := n) rfl
  rw [hn] at hagain
  exact ⟨htable, hn, hagain⟩

/-- The value of `.x` is the key `.y`, and a second substitution looks it up. -/
example : (((literal ".x".toList : Node Empty).substitute
    [(".x".toList, .text ".y".toList), (".y".toList, .int 1)]).1.substitute
    [(".x".toList, .text ".y".toList), (".y".toList, .int 1)]).1 = .literal "1".toList := rfl

end Node

end SqlTemplate
