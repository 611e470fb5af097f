import SqlTemplate.Node.Evaluation
import SqlTemplate.Proofs.Lookup
import SqlTemplate.Proofs.Value.Texts

set_option autoImplicit false

/-! # Substitution and evaluation as one reading

Substitution changes a tree and evaluation reads the changed tree. Here both are compared with an
interpretation that leaves the tree as it is and asks the lookup table once for each word it
meets (`Node.interpret`).

Whether substitution succeeds is decided node by node, by the predicates and the words of the tree,
those in branches that are never taken included: the error is that of the first node, in the order
of the template, whose predicate is no truth value or whose word stands for a value without a text
(`Node.substitute_snd`). When there is none, every word of the tree is replaced and nothing else
changes (`Node.substitute_fst`), and the text of the changed tree is the interpretation of the
original one (`Node.evaluate_mapWords`).
-/

namespace SqlTemplate

/-! ## Predicates under a table -/

/-- The truth value that a predicate reads as: that of its word, replaced if it is a key. A
predicate of any other number of words reads as none. -/
def Lookup.truthOf? (table : Lookup) : List Text → Option Bool
  | [w] => (table.replace w).truth?
  | _ => none

theorem Text.isSome_truth?_iff (t : Text) :
    (Text.truth? t).isSome ↔ Text.lower t = "true".toList ∨ Text.lower t = "false".toList := by
  rw [← Text.truth?_eq_some_true_iff, ← Text.truth?_eq_some_false_iff]
  match Text.truth? t with
  | none => simp
  | some true => simp
  | some false => simp

theorem isSome_truthOf?_iff (table : Lookup) (predicate : List Text) :
    (table.truthOf? predicate).isSome ↔
      ∃ w, predicate = [w] ∧ (Text.lower (table.replace w) = "true".toList ∨
        Text.lower (table.replace w) = "false".toList) := by
  match predicate with
  | [] => simp [Lookup.truthOf?]
  | [w] => simp [Lookup.truthOf?, Text.isSome_truth?_iff]
  | v :: w :: ws => simp [Lookup.truthOf?]

/-- A predicate is accepted when it reads as a truth value and its word does not stand for a value
without a text. -/
theorem substitutePredicate_snd_eq_none_iff {Foreign : Type} (table : Lookup)
    (predicate : List Text) :
    (substitutePredicate table predicate : Substituted (List Text) Foreign).2 = none ↔
      (table.truthOf? predicate).isSome ∧ ∀ w ∈ predicate, table.fault? w = none := by
  match predicate with
  | [] => simp [substitutePredicate, Lookup.truthOf?]
  | [w] =>
      simp only [substitutePredicate, Lookup.truthOf?, List.forall_mem_singleton]
      cases table.fault? w with
      | some fault => simp
      | none => simp [Option.isSome_iff_ne_none]
  | v :: w :: ws => simp [substitutePredicate, Lookup.truthOf?]

theorem exists_word_of_substitutePredicate {Foreign : Type} {table : Lookup} {predicate : List Text}
    {fault : FormatFault}
    (h : (substitutePredicate table predicate : Substituted (List Text) Foreign).2 =
      some (.noText fault)) : ∃ w ∈ predicate, table.fault? w = some fault := by
  match predicate with
  | [] => simp [substitutePredicate] at h
  | v :: w :: ws => simp [substitutePredicate] at h
  | [w] =>
      refine ⟨w, List.mem_cons_self .., ?_⟩
      simp only [substitutePredicate] at h
      cases hfault : table.fault? w with
      | some fault' =>
          rw [hfault] at h
          simpa using h
      | none =>
          rw [hfault] at h
          dsimp only at h
          split at h <;> simp at h

theorem substitutePredicate_fst {Foreign : Type} (table : Lookup) {predicate : List Text}
    (h : (substitutePredicate table predicate : Substituted (List Text) Foreign).2 = none) :
    (substitutePredicate table predicate : Substituted (List Text) Foreign).1 =
      predicate.map table.replace := by
  match predicate with
  | [] => rfl
  | [w] =>
      simp only [substitutePredicate]
      split <;> rfl
  -- with several words the predicate is refused
  | v :: w :: ws => simp [substitutePredicate] at h

namespace Node

variable {Foreign : Type}

/-! ## The predicates and the words of a tree -/

mutual

/-- The predicates of a tree in the order of the template, that of a conditional before those in
its branches. -/
def predicates : Node Foreign → List (List Text)
  | .literal _ => []
  | .conditional predicate a b => predicate :: (a.predicates ++ elsePredicates b)
  | .sequence children => predicatesAll children
  | .foreign _ => []

/-- The predicates of a branch that may be missing. -/
def elsePredicates : Option (Node Foreign) → List (List Text)
  | none => []
  | some n => n.predicates

/-- The predicates of trees one after another. -/
def predicatesAll : List (Node Foreign) → List (List Text)
  | [] => []
  | n :: ns => n.predicates ++ predicatesAll ns

end

mutual

/-- The nodes of a tree in the order of the template: a node before those inside it, the then branch
of a conditional before its else branch, and the nodes of a sequence one after another. -/
def nodes : Node Foreign → List (Node Foreign)
  | .literal t => [.literal t]
  | .conditional predicate a b => .conditional predicate a b :: (a.nodes ++ elseNodes b)
  | .sequence children => .sequence children :: nodesAll children
  | .foreign x => [.foreign x]

/-- The nodes of a branch that may be missing. -/
def elseNodes : Option (Node Foreign) → List (Node Foreign)
  | none => []
  | some n => n.nodes

/-- The nodes of trees one after another. -/
def nodesAll : List (Node Foreign) → List (Node Foreign)
  | [] => []
  | n :: ns => n.nodes ++ nodesAll ns

end

theorem nodesAll_append (xs ys : List (Node Foreign)) :
    nodesAll (xs ++ ys) = nodesAll xs ++ nodesAll ys := by
  induction xs with
  | nil => rfl
  | cons n ns ih => rw [List.cons_append, nodesAll, nodesAll, ih, List.append_assoc]

/-- The predicates of a tree are those of the conditionals among its nodes. -/
theorem mem_predicates_iff (q : List Text) (n : Node Foreign) :
    q ∈ n.predicates ↔ ∃ a b, .conditional q a b ∈ n.nodes := by
  induction n using parts_induction
    (fun c => q ∈ elsePredicates c ↔ ∃ a b, Node.conditional q a b ∈ elseNodes c)
    (fun ns => q ∈ predicatesAll ns ↔ ∃ a b, Node.conditional q a b ∈ nodesAll ns) with
  | literal t => simp [predicates, nodes]
  | conditional predicate a b iha ihb =>
      simp only [predicates, nodes, List.mem_cons, List.mem_append, iha, ihb, exists_or]
      refine or_congr_left ?_
      constructor
      · rintro rfl
        exact ⟨a, b, rfl⟩
      · rintro ⟨a', b', h⟩
        injection h
  | sequence children ih =>
      simp only [predicates, nodes, List.mem_cons, reduceCtorEq, false_or]
      exact ih
  | foreign x => simp [predicates, nodes]
  | none => simp [elsePredicates, elseNodes]
  | some n ih => exact ih
  | nil => simp [predicatesAll, nodesAll]
  | cons n ns ihn ihns => simp only [predicatesAll, nodesAll, List.mem_append, ihn, ihns, exists_or]

/-- The words of a node itself, apart from those in its branches or its children. -/
def ownWords : Node Foreign → List Text
  | .literal t => [t]
  | .conditional predicate _ _ => predicate
  | .sequence _ => []
  | .foreign _ => []

/-- The words of a tree, those of its predicates included, in the order of the template. -/
def words (n : Node Foreign) : List Text := n.nodes.flatMap ownWords

mutual

/-- The tree with other words in the same places. -/
def mapWords (f : Text → Text) : Node Foreign → Node Foreign
  | .literal t => .literal (f t)
  | .conditional predicate a b =>
      .conditional (predicate.map f) (a.mapWords f) (mapElseWords f b)
  | .sequence children => .sequence (mapAllWords f children)
  | .foreign x => .foreign x

/-- The branch with other words in the same places, if there is one. -/
def mapElseWords (f : Text → Text) : Option (Node Foreign) → Option (Node Foreign)
  | none => none
  | some n => some (n.mapWords f)

/-- The trees with other words in the same places. -/
def mapAllWords (f : Text → Text) : List (Node Foreign) → List (Node Foreign)
  | [] => []
  | n :: ns => n.mapWords f :: mapAllWords f ns

end

/-- Whether two trees differ in their words only: they have the same nodes with the same
children, the same branches, and predicates of the same lengths. -/
def SameShape (m n : Node Foreign) : Prop :=
  m.mapWords (fun _ => []) = n.mapWords (fun _ => [])

mutual

/-- The text of a tree under a lookup table, read off the tree as it is. A literal gives what
replaces its word, a conditional the branch that its predicate selects, and a sequence the texts
of its nodes, spaced. -/
def interpret (table : Lookup) : Node Foreign → Text
  | .literal t => table.replace t
  | .conditional predicate a b =>
      if table.truthOf? predicate = some true then a.interpret table else interpretElse table b
  | .sequence children => Text.spaced (interpretAll table children)
  | .foreign _ => []

/-- The text of a branch under a lookup table, empty when the branch is missing. -/
def interpretElse (table : Lookup) : Option (Node Foreign) → Text
  | none => []
  | some n => n.interpret table

/-- The texts of trees under a lookup table. -/
def interpretAll (table : Lookup) : List (Node Foreign) → List Text
  | [] => []
  | n :: ns => n.interpret table :: interpretAll table ns

end

/-! ## What substitution does -/

/-- The first error of a predicate and what comes after it. -/
theorem substitute_conditional_snd (table : Lookup) (predicate : List Text) (a : Node Foreign)
    (b : Option (Node Foreign)) :
    ((Node.conditional predicate a b).substitute table).2 =
      (substitutePredicate table predicate).2.or
        ((a.substitute table).2.or (substituteOption table b).2) := by
  simp only [substitute]
  rcases substitutePredicate table predicate with ⟨p, _ | e⟩
  · rcases a.substitute table with ⟨a', _ | e⟩ <;> simp
  · simp

theorem substituteAll_cons_snd (table : Lookup) (n : Node Foreign) (ns : List (Node Foreign)) :
    (substituteAll table (n :: ns)).2 = (n.substitute table).2.or (substituteAll table ns).2 := by
  simp only [substituteAll]
  rcases n.substitute table with ⟨n', _ | e⟩ <;> simp

/-- Why a substitution stops at a node, whatever stands in its branches or its children. -/
def ownStop? (table : Lookup) : Node Foreign → Option (SubstitutionError Foreign)
  | .literal t => (table.fault? t).map .noText
  | .conditional predicate _ _ => (substitutePredicate table predicate).2
  | .sequence _ => none
  | .foreign x => some (.foreign x)

/-- Why a substitution in a tree stops: for the first node that gives a reason to. -/
def stop? (table : Lookup) (n : Node Foreign) : Option (SubstitutionError Foreign) :=
  n.nodes.findSome? (ownStop? table)

/-- **The error of a substitution** is that of the first node at which it has to stop. -/
theorem substitute_snd (table : Lookup) (n : Node Foreign) :
    (n.substitute table).2 = n.stop? table := by
  unfold stop?
  induction n using parts_induction
    (fun b => (substituteOption table b).2 = (elseNodes b).findSome? (ownStop? table))
    (fun ns => (substituteAll table ns).2 = (nodesAll ns).findSome? (ownStop? table)) with
  | literal t => cases h : table.fault? t <;> simp [substitute, nodes, ownStop?, h]
  | conditional predicate a b iha ihb =>
      rw [substitute_conditional_snd, iha, ihb, nodes, List.findSome?_cons, List.findSome?_append,
        ownStop?]
      cases (substitutePredicate table predicate : Substituted (List Text) Foreign).2 with
      | none => rfl
      | some e => rfl
  | sequence children ih => exact ih
  | foreign x => rfl
  | none => rfl
  | some n ih => exact ih
  | nil => rfl
  | cons n ns ihn ihns =>
      rw [substituteAll_cons_snd, ihn, ihns, nodesAll, List.findSome?_append]

/-- A substitution that stops for a value without a text has met a word that stands for it. -/
theorem exists_word_of_stop? {table : Lookup} {n : Node Foreign} {fault : FormatFault}
    (h : n.stop? table = some (.noText fault)) : ∃ w ∈ n.words, table.fault? w = some fault := by
  obtain ⟨m, hm, hown⟩ := List.exists_of_findSome?_eq_some h
  have hword : ∃ w ∈ m.ownWords, table.fault? w = some fault := by
    cases m with
    | literal t => simpa [ownStop?, ownWords] using hown
    | conditional predicate a b => exact exists_word_of_substitutePredicate hown
    | sequence children => cases hown
    | foreign x => cases hown
  obtain ⟨w, hw, hfault⟩ := hword
  exact ⟨w, List.mem_flatMap.mpr ⟨m, hm, hw⟩, hfault⟩

theorem ownStop?_eq_none_iff (table : Lookup) (n : Node Empty) :
    n.ownStop? table = none ↔
      (∀ q a b, n = .conditional q a b → (table.truthOf? q).isSome) ∧
        ∀ w ∈ n.ownWords, table.fault? w = none := by
  cases n with
  | literal t => simp [ownStop?, ownWords]
  | conditional predicate a b =>
      rw [ownStop?, substitutePredicate_snd_eq_none_iff, ownWords]
      refine and_congr_left fun _ => ⟨?_, fun h => h predicate a b rfl⟩
      intro h q a' b' he
      injection he with hq
      exact hq ▸ h
  | sequence children => simp [ownStop?, ownWords]
  | foreign x => exact x.elim

/-- **A substitution goes through** when every predicate of the tree reads as a truth value and no
word of the tree stands for a value without a text. -/
theorem stop?_eq_none_iff (table : Lookup) (n : Node Empty) :
    n.stop? table = none ↔ (∀ q ∈ n.predicates, (table.truthOf? q).isSome) ∧
      ∀ w ∈ n.words, table.fault? w = none := by
  simp only [stop?, List.findSome?_eq_none_iff, ownStop?_eq_none_iff, words, List.mem_flatMap,
    mem_predicates_iff]
  constructor
  · intro h
    refine ⟨?_, ?_⟩
    · rintro q ⟨a, b, hmem⟩
      exact (h _ hmem).1 q a b rfl
    · rintro w ⟨m, hm, hw⟩
      exact (h m hm).2 w hw
  · rintro ⟨hpredicates, hwords⟩ m hm
    refine ⟨?_, fun w hw => hwords w ⟨m, hm, hw⟩⟩
    rintro q a b rfl
    exact hpredicates q ⟨a, b, hm⟩

theorem substitute_snd_eq_none_iff (table : Lookup) (n : Node Empty) :
    (n.substitute table).2 = none ↔ (∀ q ∈ n.predicates, (table.truthOf? q).isSome) ∧
      ∀ w ∈ n.words, table.fault? w = none := by
  rw [substitute_snd, stop?_eq_none_iff]

/-- **A successful substitution** replaces every word of the tree. -/
theorem substitute_fst (table : Lookup) {n : Node Empty} (h : (n.substitute table).2 = none) :
    (n.substitute table).1 = n.mapWords table.replace := by
  induction n using parts_induction
    (fun b => (substituteOption table b).2 = none →
      (substituteOption table b).1 = mapElseWords table.replace b)
    (fun ns => (substituteAll table ns).2 = none →
      (substituteAll table ns).1 = mapAllWords table.replace ns) with
  | literal t => rfl
  | conditional predicate a b iha ihb =>
      rw [substitute_conditional_snd, Option.or_eq_none_iff, Option.or_eq_none_iff] at h
      obtain ⟨hq, ha, hb⟩ := h
      have hq' := substitutePredicate_fst table hq
      have ha' := iha ha
      have hb' := ihb hb
      simp only [substitute, mapWords]
      -- no part has an error, so substitution goes through all three
      generalize (substitutePredicate table predicate :
        Substituted (List Text) Empty) = rq at *
      generalize a.substitute table = ra at *
      obtain ⟨q', eq⟩ := rq
      obtain ⟨a', ea⟩ := ra
      subst hq ha
      simp only at hq' ha'
      rw [hq', ha', hb']
  | sequence children ih => exact congrArg sequence (ih h)
  | foreign x => exact x.elim
  | none => rfl
  | some n ih h => exact congrArg some (ih h)
  | nil => rfl
  | cons n ns ihn ihns h =>
      rw [substituteAll_cons_snd, Option.or_eq_none_iff] at h
      have hn := ihn h.1
      have hns := ihns h.2
      simp only [substituteAll, mapAllWords]
      generalize n.substitute table = r at *
      obtain ⟨n', e⟩ := r
      obtain rfl : e = none := h.1
      rw [← hn, ← hns]

/-! ## What the changed tree evaluates to -/

/-- A predicate that reads as a truth value is one word. -/
theorem exists_eq_singleton {table : Lookup} {predicate : List Text}
    (h : (table.truthOf? predicate).isSome) : ∃ w, predicate = [w] := by
  obtain ⟨w, rfl, -⟩ := (isSome_truthOf?_iff table predicate).mp h
  exact ⟨w, rfl⟩

/-- Evaluation of the changed tree asks nothing that interpretation of the original one does not
ask the table. -/
theorem evaluate_mapWords (table : Lookup) {n : Node Empty}
    (h : ∀ q ∈ n.predicates, (table.truthOf? q).isSome) :
    (n.mapWords table.replace).evaluate = .ok (n.interpret table) := by
  induction n using parts_induction
    (fun b => (∀ q ∈ elsePredicates b, (table.truthOf? q).isSome) →
      evaluateOption (mapElseWords table.replace b) = .ok (interpretElse table b))
    (fun ns => (∀ q ∈ predicatesAll ns, (table.truthOf? q).isSome) →
      evaluateAll (mapAllWords table.replace ns) = .ok (interpretAll table ns)) with
  | literal t => rfl
  | conditional predicate a b iha ihb =>
      simp only [predicates, List.mem_cons, List.mem_append] at h
      obtain ⟨w, rfl⟩ := exists_eq_singleton (h predicate (Or.inl rfl))
      have ha := iha fun q hq => h q (Or.inr (Or.inl hq))
      have hb := ihb fun q hq => h q (Or.inr (Or.inr hq))
      -- the first word of the changed predicate is the one that the table was asked for
      simp only [mapWords, List.map_cons, evaluate, interpret, Lookup.truthOf?, ha, hb]
      exact (apply_ite Except.ok _ _ _).symm
  | sequence children ih =>
      simp only [mapWords, evaluate, interpret, ih h]
      rfl
  | foreign x => exact x.elim
  | none => rfl
  | some n ih h => exact ih h
  | nil => rfl
  | cons n ns ihn ihns h =>
      rw [predicatesAll] at h
      have hn := ihn fun q hq => h q (List.mem_append_left _ hq)
      have hns := ihns fun q hq => h q (List.mem_append_right _ hq)
      simp only [mapAllWords, evaluateAll, interpretAll, hn, hns]
      rfl

/-! ## The shape of the changed tree -/

theorem mapWords_mapWords (f g : Text → Text) (n : Node Foreign) :
    (n.mapWords f).mapWords g = n.mapWords (g ∘ f) := by
  induction n using parts_induction
    (fun b => mapElseWords g (mapElseWords f b) = mapElseWords (g ∘ f) b)
    (fun ns => mapAllWords g (mapAllWords f ns) = mapAllWords (g ∘ f) ns) with
  | literal t => rfl
  | conditional predicate a b iha ihb => simp only [mapWords, List.map_map, iha, ihb]
  | sequence children ih => simp only [mapWords, ih]
  | foreign x => rfl
  | none => rfl
  | some n ih => simp only [mapElseWords, ih]
  | nil => rfl
  | cons n ns ihn ihns => simp only [mapAllWords, ihn, ihns]

theorem sameShape_mapWords (f : Text → Text) (n : Node Foreign) : (n.mapWords f).SameShape n := by
  rw [SameShape, mapWords_mapWords]
  rfl

theorem predicates_mapWords (f : Text → Text) (n : Node Foreign) :
    (n.mapWords f).predicates = n.predicates.map (List.map f) := by
  induction n using parts_induction
    (fun b => elsePredicates (mapElseWords f b) = (elsePredicates b).map (List.map f))
    (fun ns => predicatesAll (mapAllWords f ns) = (predicatesAll ns).map (List.map f)) with
  | literal t => rfl
  | conditional predicate a b iha ihb =>
      simp only [mapWords, predicates, iha, ihb, List.map_cons, List.map_append]
  | sequence children ih => simp only [mapWords, predicates, ih]
  | foreign x => rfl
  | none => rfl
  | some n ih => exact ih
  | nil => rfl
  | cons n ns ihn ihns => simp only [mapAllWords, predicatesAll, List.map_append, ihn, ihns]

/-! ## The words of a tree -/

theorem ownWords_mapWords (f : Text → Text) (n : Node Foreign) :
    (n.mapWords f).ownWords = n.ownWords.map f := by
  cases n <;> rfl

/-- With other words in the same places, the nodes are the same with other words. -/
theorem nodes_mapWords (f : Text → Text) (n : Node Foreign) :
    (n.mapWords f).nodes = n.nodes.map (mapWords f) := by
  induction n using parts_induction
    (fun b => elseNodes (mapElseWords f b) = (elseNodes b).map (mapWords f))
    (fun ns => nodesAll (mapAllWords f ns) = (nodesAll ns).map (mapWords f)) with
  | literal t => rfl
  | conditional predicate a b iha ihb =>
      simp only [mapWords, nodes, List.map_cons, List.map_append, iha, ihb]
  | sequence children ih => simp only [mapWords, nodes, List.map_cons, ih]
  | foreign x => rfl
  | none => rfl
  | some n ih => exact ih
  | nil => rfl
  | cons n ns ihn ihns => rw [mapAllWords, nodesAll, nodesAll, List.map_append, ihn, ihns]

theorem words_mapWords (f : Text → Text) (n : Node Foreign) :
    (n.mapWords f).words = n.words.map f := by
  rw [words, words, nodes_mapWords, List.flatMap_map, List.map_flatMap]
  simp only [ownWords_mapWords]

theorem mem_words_of_mem_predicates {n : Node Foreign} {q : List Text} (hq : q ∈ n.predicates)
    {w : Text} (hw : w ∈ q) : w ∈ n.words := by
  obtain ⟨a, b, hmem⟩ := (mem_predicates_iff q n).mp hq
  exact List.mem_flatMap.mpr ⟨_, hmem, hw⟩

/-- The words that are put in the places matter only where there are places. -/
theorem mapWords_congr {f g : Text → Text} {n : Node Foreign} (h : ∀ w ∈ n.words, f w = g w) :
    n.mapWords f = n.mapWords g := by
  unfold words at h
  induction n using parts_induction
    (fun b => (∀ w ∈ (elseNodes b).flatMap ownWords, f w = g w) →
      mapElseWords f b = mapElseWords g b)
    (fun ns => (∀ w ∈ (nodesAll ns).flatMap ownWords, f w = g w) →
      mapAllWords f ns = mapAllWords g ns) with
  | literal t => exact congrArg literal (h t (by simp [nodes, ownWords]))
  | conditional predicate a b iha ihb =>
      simp only [nodes, List.flatMap_cons, List.flatMap_append, List.mem_append, ownWords] at h
      rw [mapWords, mapWords, iha fun w hw => h w (Or.inr (Or.inl hw)),
        ihb fun w hw => h w (Or.inr (Or.inr hw)),
        List.map_congr_left fun w hw => h w (Or.inl hw)]
  | sequence children ih =>
      rw [mapWords, mapWords, ih fun w hw => h w (by simpa [nodes, ownWords] using hw)]
  | foreign x => rfl
  | none => rfl
  | some n ih h => exact congrArg some (ih h)
  | nil => rfl
  | cons n ns ihn ihns h =>
      simp only [nodesAll, List.flatMap_append, List.mem_append] at h
      rw [mapAllWords, mapAllWords, ihn fun w hw => h w (Or.inl hw),
        ihns fun w hw => h w (Or.inr hw)]

/-- **Substitution and evaluation refine an interpretation that changes nothing.** Substitution
succeeds exactly when each predicate of the tree, in branches taken or not, is one word that is
replaced by a word for true or false, and each value that a word of the tree stands for has a text.
The tree then keeps its shape, each predicate is one word, and its text is the interpretation of the
original tree. -/
theorem substitute_refines_interpret (table : Lookup) (n : Node Empty) :
    ((n.substitute table).2 = none ↔
      (∀ q ∈ n.predicates, ∃ w, q = [w] ∧ (Text.lower (table.replace w) = "true".toList ∨
        Text.lower (table.replace w) = "false".toList)) ∧
      ∀ w ∈ n.words, ∀ v, table.find? w = some v → ∃ t, v.format = .ok t) ∧
    ((n.substitute table).2 = none →
      (n.substitute table).1.SameShape n ∧
      (∀ q ∈ (n.substitute table).1.predicates, ∃ w, q = [w]) ∧
      (n.substitute table).1.evaluate = .ok (n.interpret table)) := by
  refine ⟨?_, fun h => ?_⟩
  · rw [substitute_snd_eq_none_iff]
    simp only [isSome_truthOf?_iff, Lookup.fault?_eq_none_iff_of_find?]
  · have hq := ((substitute_snd_eq_none_iff table n).mp h).1
    rw [substitute_fst table h]
    refine ⟨sameShape_mapWords _ n, fun q hmem => ?_, evaluate_mapWords table hq⟩
    rw [predicates_mapWords, List.mem_map] at hmem
    obtain ⟨q, hmem, rfl⟩ := hmem
    obtain ⟨w, rfl⟩ := exists_eq_singleton (hq q hmem)
    exact ⟨table.replace w, rfl⟩

/-- The value of `.x` is the text `.y`, which is a key as well and is not looked up again. The
predicate in the branch that is not taken is checked all the same. -/
theorem substitute_refines_interpret_of_key_as_value :
    let n : Node Empty := .sequence [.conditional [".c".toList] (.sequence [.literal ".x".toList])
      (some (.sequence [.conditional ["TRUE".toList] (.sequence []) none]))]
    let table : Lookup :=
      [(".c".toList, .bool true), (".x".toList, .text ".y".toList), (".y".toList, .int 1)]
    (n.substitute table).2 = none ∧ (n.substitute table).1.evaluate = .ok ".y".toList :=
  ⟨rfl, ((substitute_refines_interpret _ _).2 rfl).2.2⟩

/-- There is no predicate that could be refused, and the value of `.x` has no text. -/
theorem substitute_of_tooManyDigits :
    let n : Node Empty := .literal ".x".toList
    let table : Lookup := [(".x".toList, .int (10 ^ 5000))]
    (∀ q ∈ n.predicates, ∃ w, q = [w] ∧ (Text.lower (table.replace w) = "true".toList ∨
        Text.lower (table.replace w) = "false".toList)) ∧
      (n.substitute table).2 = some (.noText .tooManyDigits) := by
  intro n table
  have hfault : table.fault? ".x".toList = some .tooManyDigits :=
    (Lookup.fault?_eq_some_iff ..).mpr (Value.format_pow_eq_error (by decide))
  refine ⟨by simp [n, predicates], ?_⟩
  rw [substitute, hfault]
  rfl

end Node

end SqlTemplate
