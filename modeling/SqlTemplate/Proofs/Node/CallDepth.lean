import Mathlib.Data.Nat.Basic
import Mathlib.Order.Basic
import SqlTemplate.Expander
import SqlTemplate.Proofs.Node.Calls
import SqlTemplate.Proofs.Node.Grammar
import SqlTemplate.Proofs.Node.Stopping

set_option autoImplicit false

/-! # How deeply substitution and evaluation nest their calls

Substitution and evaluation call themselves for the branches of a conditional and for the nodes of a
sequence. Both are written here once more so that they also count how many of their calls are nested
in one another (`Node.substituteWithDepth`, `Node.evaluateWithDepth`), and both do what they did
before. What they count is the length of a way down the tree (`Node.hasPath_substituteWithDepth`,
`Node.hasPath_evaluateWithDepth`). A substitution that succeeds goes down the longest way
(`Node.substituteWithDepth_snd`), and an evaluation goes down into the branches that it takes.

A scope that is read becomes at most three nodes on such a way: a sequence, and in it a conditional
with a clause. So the limit up to which scopes are read bounds the height of the tree
(`Node.WellFormed.height_le`) and with it both counts (`Node.calls_nested_within_limit`).
-/

namespace SqlTemplate

namespace Node

variable {Foreign : Type}

/-! ## Ways down a tree -/

/-- Whether nodes stand on a way down from a tree: the tree first, and behind a node one of its
branches or one of its children. -/
inductive IsPath : Node Foreign → List (Node Foreign) → Prop where
  | here (n : Node Foreign) : IsPath n [n]
  | thenBranch {predicate : List Text} {a : Node Foreign} {b : Option (Node Foreign)}
      {path : List (Node Foreign)} (h : IsPath a path) :
      IsPath (.conditional predicate a b) (.conditional predicate a b :: path)
  | elseBranch {predicate : List Text} {a b : Node Foreign} {path : List (Node Foreign)}
      (h : IsPath b path) :
      IsPath (.conditional predicate a (some b)) (.conditional predicate a (some b) :: path)
  | child {n : Node Foreign} {children path : List (Node Foreign)} (hmem : n ∈ children)
      (h : IsPath n path) : IsPath (.sequence children) (.sequence children :: path)

theorem height_le_heightAll {n : Node Foreign} {ns : List (Node Foreign)} (h : n ∈ ns) :
    n.height ≤ heightAll ns := by
  induction ns with
  | nil => cases h
  | cons m ms ih =>
      rw [heightAll]
      rcases List.mem_cons.mp h with rfl | h
      · exact Nat.le_max_left _ _
      · exact Nat.le_trans (ih h) (Nat.le_max_right _ _)

/-- No way down a tree is longer than the tree is high. -/
theorem IsPath.length_le {n : Node Foreign} {path : List (Node Foreign)} (h : n.IsPath path) :
    path.length ≤ n.height := by
  induction h with
  | here n => cases n <;> simp [height]
  | thenBranch h ih =>
      rw [List.length_cons, height]
      omega
  | elseBranch h ih =>
      rw [List.length_cons, height, elseHeight]
      omega
  | child hmem h ih =>
      have hle := height_le_heightAll hmem
      rw [List.length_cons, height]
      omega

/-- Whether a way down a tree has the given number of nodes. -/
def HasPath (n : Node Foreign) (length : Nat) : Prop := ∃ path, n.IsPath path ∧ path.length = length

/-- Whether a way down one of some trees has the given number of nodes. Without any way the number
is zero. -/
def HavePath (ns : List (Node Foreign)) (length : Nat) : Prop :=
  length = 0 ∨ ∃ n ∈ ns, n.HasPath length

theorem hasPath_one (n : Node Foreign) : n.HasPath 1 := ⟨[n], .here n, rfl⟩

theorem HasPath.le_height {n : Node Foreign} {k : Nat} (h : n.HasPath k) : k ≤ n.height := by
  obtain ⟨path, hpath, rfl⟩ := h
  exact hpath.length_le

theorem HasPath.thenBranch {a : Node Foreign} {k : Nat} (h : a.HasPath k) (predicate : List Text)
    (b : Option (Node Foreign)) : (Node.conditional predicate a b).HasPath (k + 1) := by
  obtain ⟨path, hpath, rfl⟩ := h
  exact ⟨_, .thenBranch hpath, rfl⟩

theorem HavePath.elseBranch {b : Option (Node Foreign)} {k : Nat} (h : HavePath b.toList k)
    (predicate : List Text) (a : Node Foreign) :
    (Node.conditional predicate a b).HasPath (k + 1) := by
  obtain rfl | ⟨n, hmem, path, hpath, rfl⟩ := h
  · exact hasPath_one _
  · obtain rfl : b = some n := by simpa using hmem
    exact ⟨_, .elseBranch hpath, rfl⟩

theorem HavePath.sequence {children : List (Node Foreign)} {k : Nat} (h : HavePath children k) :
    (Node.sequence children).HasPath (k + 1) := by
  obtain rfl | ⟨n, hmem, path, hpath, rfl⟩ := h
  · exact hasPath_one _
  · exact ⟨_, .child hmem hpath, rfl⟩

theorem HasPath.cons {n : Node Foreign} {k : Nat} (h : n.HasPath k) (ns : List (Node Foreign)) :
    HavePath (n :: ns) k := Or.inr ⟨n, List.mem_cons_self .., h⟩

theorem HavePath.cons {ns : List (Node Foreign)} {k : Nat} (h : HavePath ns k)
    (n : Node Foreign) : HavePath (n :: ns) k := by
  obtain hzero | ⟨m, hmem, hpath⟩ := h
  · exact Or.inl hzero
  · exact Or.inr ⟨m, List.mem_cons_of_mem _ hmem, hpath⟩

/-- The height of a tree does not depend on its words. -/
theorem height_mapWords (f : Text → Text) (n : Node Foreign) :
    (n.mapWords f).height = n.height := by
  induction n using parts_induction
    (fun b => elseHeight (mapElseWords f b) = elseHeight b)
    (fun ns => heightAll (mapAllWords f ns) = heightAll ns) with
  | literal t => rfl
  | conditional predicate a b iha ihb => simp only [mapWords, height, iha, ihb]
  | sequence children ih => simp only [mapWords, height, ih]
  | foreign x => rfl
  | none => rfl
  | some n ih => exact ih
  | nil => rfl
  | cons n ns ihn ihns => simp only [mapAllWords, heightAll, ihn, ihns]

theorem SameShape.height_eq {m n : Node Foreign} (h : m.SameShape n) : m.height = n.height := by
  have hheight := congrArg height h
  rwa [height_mapWords, height_mapWords] at hheight

/-! ## The height of a tree that is read -/

mutual

/-- A conditional in its scope adds a node to each of its clauses. -/
theorem AreScope.heightAll_le :
    ∀ {ns : List (Node Foreign)}, AreScope ns → heightAll ns ≤ 3 * nestingAll ns + 3
  | [], h => h.elim
  | .literal t :: ns, h => by
      have hns := AreItems.heightAll_le h.2
      simp only [heightAll, height, nestingAll_literal]
      omega
  | .conditional predicate a b :: ns, h => by
      obtain ⟨rfl, -, ha, hb⟩ := h
      have ha := IsClause.height_le ha
      have hb := IsElse.elseHeight_le hb
      simp only [heightAll, height, nestingAll, nesting]
      omega
  | .sequence children :: ns, h => by
      have hchildren := AreScope.heightAll_le h.1
      have hns := AreItems.heightAll_le h.2
      simp only [heightAll, height, nestingAll_sequence]
      omega
  | .foreign x :: ns, h => h.elim

/-- A scope among items counts for three nodes, and a word for the one at the end of a way. -/
theorem AreItems.heightAll_le {barred : List Text} :
    ∀ {ns : List (Node Foreign)}, AreItems barred ns → heightAll ns ≤ 3 * nestingAll ns + 1
  | [], h => by simp [heightAll]
  | .literal t :: ns, h => by
      have hns := AreItems.heightAll_le h.2
      simp only [heightAll, height, nestingAll_literal]
      omega
  | .conditional predicate a b :: ns, h => h.elim
  | .sequence children :: ns, h => by
      have hchildren := AreScope.heightAll_le h.1
      have hns := AreItems.heightAll_le h.2
      simp only [heightAll, height, nestingAll_sequence]
      omega
  | .foreign x :: ns, h => h.elim

theorem IsClause.height_le : ∀ {n : Node Foreign}, n.IsClause → n.height ≤ 3 * n.nesting + 2
  | .literal t, h => h.elim
  | .conditional predicate a b, h => h.elim
  | .sequence children, h => by
      have hchildren := AreItems.heightAll_le h
      simp only [height, nesting]
      omega
  | .foreign x, h => h.elim

theorem IsElse.elseHeight_le :
    ∀ {b : Option (Node Foreign)}, IsElse b → elseHeight b ≤ 3 * elseNesting b + 2
  | none, h => by simp [elseHeight]
  | some n, h => by
      have hn := IsClause.height_le h
      simpa only [elseHeight, elseNesting] using hn

end

/-- **A tree that is read** has three nodes for each scope on a way down it, and a word. -/
theorem WellFormed.height_le {n : Node Foreign} (h : n.WellFormed) :
    n.height ≤ 3 * (n.nesting + 1) + 1 := by
  cases n with
  | sequence children =>
      have hchildren := AreScope.heightAll_le h
      simp only [height, nesting_sequence]
      omega
  | _ => exact h.elim

/-! ## Substitution with a count of its calls -/

mutual

/-- Substitutes in a tree and counts the calls that are nested in one another: the one for the tree
itself, and on top of it those for its branches or for its children. -/
def substituteWithDepth (table : Lookup) : Node Foreign → Substituted (Node Foreign) Foreign × Nat
  | .literal t => ((.literal (table.replace t), (table.fault? t).map .noText), 1)
  | .conditional predicate a b =>
      match substitutePredicate table predicate with
      | (p, some e) => ((.conditional p a b, some e), 1)
      | (p, none) =>
          match a.substituteWithDepth table with
          | ((a', some e), k) => ((.conditional p a' b, some e), k + 1)
          | ((a', none), k) =>
              let ((b', e), l) := substituteOptionWithDepth table b
              ((.conditional p a' b', e), max k l + 1)
  | .sequence children =>
      let ((cs, e), k) := substituteAllWithDepth table children
      ((.sequence cs, e), k + 1)
  | .foreign x => ((.foreign x, some (.foreign x)), 1)

/-- Substitutes in a branch that may be missing and counts the calls for it. -/
def substituteOptionWithDepth (table : Lookup) :
    Option (Node Foreign) → Substituted (Option (Node Foreign)) Foreign × Nat
  | none => ((none, none), 0)
  | some n =>
      let ((n', e), k) := n.substituteWithDepth table
      ((some n', e), k)

/-- Substitutes in trees one after another, up to the first error, and counts the calls that are
nested in one another. -/
def substituteAllWithDepth (table : Lookup) :
    List (Node Foreign) → Substituted (List (Node Foreign)) Foreign × Nat
  | [] => (([], none), 0)
  | n :: ns =>
      match n.substituteWithDepth table with
      | ((n', some e), k) => ((n' :: ns, some e), k)
      | ((n', none), k) =>
          let ((ns', e), l) := substituteAllWithDepth table ns
          ((n' :: ns', e), max k l)

end

/-- **Counting changes nothing** about a substitution. -/
theorem substituteWithDepth_fst (table : Lookup) (n : Node Foreign) :
    (n.substituteWithDepth table).1 = n.substitute table := by
  induction n using parts_induction
    (fun b => (substituteOptionWithDepth table b).1 = substituteOption table b)
    (fun ns => (substituteAllWithDepth table ns).1 = substituteAll table ns) with
  | literal t => rfl
  | conditional predicate a b iha ihb =>
      simp only [substituteWithDepth, substitute, ← iha, ← ihb]
      rcases substitutePredicate table predicate with ⟨p, _ | e⟩
      · rcases a.substituteWithDepth table with ⟨⟨a', _ | e⟩, k⟩ <;> rfl
      · rfl
  | sequence children ih => simp only [substituteWithDepth, substitute, ih]
  | foreign x => rfl
  | none => rfl
  | some n ih => simp only [substituteOptionWithDepth, substituteOption, ih]
  | nil => rfl
  | cons n ns ihn ihns =>
      simp only [substituteAllWithDepth, substituteAll, ← ihn, ← ihns]
      rcases n.substituteWithDepth table with ⟨⟨n', _ | e⟩, k⟩ <;> rfl

/-- The calls of a substitution that are nested in one another follow a way down the tree. -/
theorem hasPath_substituteWithDepth (table : Lookup) (n : Node Foreign) :
    n.HasPath (n.substituteWithDepth table).2 := by
  induction n using parts_induction
    (fun b => HavePath b.toList (substituteOptionWithDepth table b).2)
    (fun ns => HavePath ns (substituteAllWithDepth table ns).2) with
  | literal t => exact hasPath_one _
  | conditional predicate a b iha ihb =>
      simp only [substituteWithDepth]
      generalize substituteOptionWithDepth table b = outcome at ihb ⊢
      obtain ⟨⟨b', eb⟩, l⟩ := outcome
      rcases substitutePredicate table predicate with ⟨p, _ | e⟩
      · generalize a.substituteWithDepth table = outcome at iha ⊢
        obtain ⟨⟨a', _ | e⟩, k⟩ := outcome
        · -- both branches are gone through, and the longer way counts
          exact max_rec' (fun m => HasPath _ (m + 1)) (iha.thenBranch predicate b)
            (ihb.elseBranch predicate a)
        · exact iha.thenBranch predicate b
      · exact hasPath_one _
  | sequence children ih => exact ih.sequence
  | foreign x => exact hasPath_one _
  | none => exact Or.inl rfl
  | some n ih => exact ih.cons []
  | nil => exact Or.inl rfl
  | cons n ns ihn ihns =>
      simp only [substituteAllWithDepth]
      generalize substituteAllWithDepth table ns = outcome at ihns ⊢
      obtain ⟨⟨ns', es⟩, l⟩ := outcome
      generalize n.substituteWithDepth table = outcome at ihn ⊢
      obtain ⟨⟨n', _ | e⟩, k⟩ := outcome
      · exact max_rec' (HavePath (n :: ns)) (ihn.cons ns) (ihns.cons n)
      · exact ihn.cons ns

/-- **A substitution that succeeds** nests its calls as deeply as the tree is high. -/
theorem substituteWithDepth_snd (table : Lookup) {n : Node Foreign}
    (h : (n.substitute table).2 = none) : (n.substituteWithDepth table).2 = n.height := by
  rw [← substituteWithDepth_fst] at h
  induction n using parts_induction
    (fun b => (substituteOptionWithDepth table b).1.2 = none →
      (substituteOptionWithDepth table b).2 = elseHeight b)
    (fun ns => (substituteAllWithDepth table ns).1.2 = none →
      (substituteAllWithDepth table ns).2 = heightAll ns) with
  | literal t => rfl
  | conditional predicate a b iha ihb =>
      simp only [substituteWithDepth, height] at h ⊢
      rcases hq : (substitutePredicate table predicate : Substituted (List Text) Foreign) with
        ⟨p, _ | e⟩
      · simp only [hq] at h ⊢
        generalize a.substituteWithDepth table = outcome at h iha ⊢
        obtain ⟨⟨a', _ | e⟩, k⟩ := outcome
        · have hk : k = a.height := iha rfl
          simp only [hk, ihb h]
        · cases h
      · simp only [hq] at h
        cases h
  | sequence children ih => exact congrArg (· + 1) (ih h)
  | foreign x => cases h
  | none => rfl
  | some n ih h => exact ih h
  | nil => rfl
  | cons n ns ihn ihns h =>
      simp only [substituteAllWithDepth, heightAll] at h ⊢
      generalize n.substituteWithDepth table = outcome at h ihn ⊢
      obtain ⟨⟨n', _ | e⟩, k⟩ := outcome
      · have hk : k = n.height := ihn rfl
        simp only [hk, ihns h]
      · cases h

/-! ## Evaluation with a count of its calls -/

mutual

/-- Evaluates a tree and counts the calls that are nested in one another: the one for the tree
itself, and on top of it those for the branch that is taken or for its children. -/
def evaluateWithDepth : Node Foreign → Except (EvaluationError Foreign) Text × Nat
  | .literal t => (.ok t, 1)
  | .conditional [] _ _ => (.error .emptyPredicate, 1)
  | .conditional (w :: _) a b =>
      let (text, k) :=
        if w.truth? = some true then a.evaluateWithDepth else evaluateOptionWithDepth b
      (text, k + 1)
  | .sequence children =>
      let (texts, k) := evaluateAllWithDepth children
      (texts.map Text.spaced, k + 1)
  | .foreign x => (.error (.foreign x), 1)

/-- Evaluates a branch that may be missing and counts the calls for it. -/
def evaluateOptionWithDepth :
    Option (Node Foreign) → Except (EvaluationError Foreign) Text × Nat
  | none => (.ok [], 0)
  | some n => n.evaluateWithDepth

/-- Evaluates trees one after another, up to the first error, and counts the calls that are nested
in one another. -/
def evaluateAllWithDepth :
    List (Node Foreign) → Except (EvaluationError Foreign) (List Text) × Nat
  | [] => (.ok [], 0)
  | n :: ns =>
      match n.evaluateWithDepth with
      | (.error e, k) => (.error e, k)
      | (.ok t, k) =>
          let (ts, l) := evaluateAllWithDepth ns
          (ts.map (t :: ·), max k l)

end

/-- **Counting changes nothing** about an evaluation. -/
theorem evaluateWithDepth_fst (n : Node Foreign) : n.evaluateWithDepth.1 = n.evaluate := by
  induction n using parts_induction
    (fun b => (evaluateOptionWithDepth b).1 = evaluateOption b)
    (fun ns => (evaluateAllWithDepth ns).1 = evaluateAll ns) with
  | literal t => rfl
  | conditional predicate a b iha ihb =>
      cases predicate with
      | nil => rfl
      | cons w ws =>
          simp only [evaluateWithDepth, evaluate]
          split
          · exact iha
          · exact ihb
  | sequence children ih =>
      simp only [evaluateWithDepth, evaluate, ← ih]
      rfl
  | foreign x => rfl
  | none => rfl
  | some n ih => exact ih
  | nil => rfl
  | cons n ns ihn ihns =>
      simp only [evaluateAllWithDepth, evaluateAll, ← ihn, ← ihns]
      rcases n.evaluateWithDepth with ⟨e | t, k⟩ <;> rfl

/-- The calls of an evaluation that are nested in one another follow a way down the tree. -/
theorem hasPath_evaluateWithDepth (n : Node Foreign) : n.HasPath n.evaluateWithDepth.2 := by
  induction n using parts_induction
    (fun b => HavePath b.toList (evaluateOptionWithDepth b).2)
    (fun ns => HavePath ns (evaluateAllWithDepth ns).2) with
  | literal t => exact hasPath_one _
  | conditional predicate a b iha ihb =>
      cases predicate with
      | nil => exact hasPath_one _
      | cons w ws =>
          simp only [evaluateWithDepth]
          split
          · exact iha.thenBranch _ b
          · exact ihb.elseBranch _ a
  | sequence children ih => exact ih.sequence
  | foreign x => exact hasPath_one _
  | none => exact Or.inl rfl
  | some n ih => exact ih.cons []
  | nil => exact Or.inl rfl
  | cons n ns ihn ihns =>
      simp only [evaluateAllWithDepth]
      generalize n.evaluateWithDepth = outcome at ihn ⊢
      obtain ⟨e | t, k⟩ := outcome
      · exact ihn.cons ns
      · exact max_rec' (HavePath (n :: ns)) (ihn.cons ns) (ihns.cons n)

/-- An evaluation nests its calls no more deeply than the successful substitution in front of it,
which also makes the calls for the values. So it fits where the substitution did. -/
theorem evaluateWithDepth_le_substitutionCalls (table : Lookup) {n : Node Foreign}
    (h : (n.substitute table).2 = none) :
    (n.substitute table).1.evaluateWithDepth.2 ≤ n.substitutionCalls table :=
  calc (n.substitute table).1.evaluateWithDepth.2
      ≤ (n.substitute table).1.height := (hasPath_evaluateWithDepth _).le_height
    _ = n.height := (sameShape_substitute table n).height_eq
    _ ≤ n.substitutionCalls table := height_le_substitutionCalls table h

/-! ## The bound -/

/-- **The limit of the nesting bounds the nesting of calls.** On every way down a tree that is read
there are at most three nodes for each level up to the limit and one more. The calls that are nested
in one another by a substitution in the tree, or by an evaluation of it whatever words are in it by
then, follow such a way, so they are no more. An evaluation does not nest more of them than the
successful substitution in front of it. -/
theorem calls_nested_within_limit {limit : Int} {ps : List Piece} {n : Node Empty}
    (h : ofScope limit 0 ps = .ok n) :
    (∀ path, n.IsPath path → (path.length : Int) ≤ 3 * (limit + 1) + 1) ∧
    (∀ table, (n.substituteWithDepth table).1 = n.substitute table ∧
      n.HasPath (n.substituteWithDepth table).2 ∧
      ((n.substituteWithDepth table).2 : Int) ≤ 3 * (limit + 1) + 1) ∧
    (∀ m : Node Empty, m.SameShape n → m.evaluateWithDepth.1 = m.evaluate ∧
      m.HasPath m.evaluateWithDepth.2 ∧
      (m.evaluateWithDepth.2 : Int) ≤ 3 * (limit + 1) + 1) ∧
    ∀ table, (n.substitute table).2 = none →
      (n.substitute table).1.evaluateWithDepth.2 ≤ (n.substituteWithDepth table).2 := by
  obtain ⟨hwellFormed, -, hnesting⟩ := (readsExactly limit ps 0 n).mp h
  have hheight := hwellFormed.height_le
  refine ⟨fun path hpath => ?_, fun table => ?_, fun m hm => ?_, fun table hnone => ?_⟩
  · have hlength := hpath.length_le
    omega
  · have hpath := hasPath_substituteWithDepth table n
    have hdepth := hpath.le_height
    exact ⟨substituteWithDepth_fst table n, hpath, by omega⟩
  · have hpath := hasPath_evaluateWithDepth m
    have hdepth := hpath.le_height
    rw [hm.height_eq] at hdepth
    exact ⟨evaluateWithDepth_fst m, hpath, by omega⟩
  · rw [substituteWithDepth_snd table hnone, ← (sameShape_substitute table n).height_eq]
    exact (hasPath_evaluateWithDepth _).le_height

/-- With the limit that an expander has when nothing else is said, a way down a tree has at most 604
nodes. Here the evaluation takes the short branch, and the substitution goes down both. -/
theorem calls_nested_within_limit_of_default_limit :
    let limit : Int := ({} : Expander).maxDepth
    let ps : List Piece := [.word "[if]".toList, .word ".c".toList, .word "[then]".toList,
      .word "a".toList, .scope [.word "[if]".toList, .word "true".toList, .word "[then]".toList,
      .word "b".toList], .word "[else]".toList, .word ".c".toList]
    let inner : Node Empty := .sequence [.conditional ["true".toList]
      (.sequence [.literal "b".toList]) none]
    let n : Node Empty := .sequence [.conditional [".c".toList]
      (.sequence [.literal "a".toList, inner]) (some (.sequence [.literal ".c".toList]))]
    let table : Lookup := [(".c".toList, .bool false)]
    ofScope limit 0 ps = .ok n ∧
      (∀ path, n.IsPath path → path.length ≤ 604) ∧
      (n.substituteWithDepth table).2 = 7 ∧
      (n.substitute table).1.evaluateWithDepth = (.ok "false".toList, 4) ∧
      (n.substituteWithDepth table).2 ≤ 604 ∧
      (n.substitute table).1.evaluateWithDepth.2 ≤ (n.substituteWithDepth table).2 := by
  intro limit ps inner n table
  have hread : ofScope limit 0 ps = .ok n := rfl
  have hlimit : 3 * (limit + 1) + 1 = 604 := rfl
  obtain ⟨hpaths, hsubstitute, -, hevaluate⟩ := calls_nested_within_limit hread
  refine ⟨hread, fun path hpath => ?_, rfl, rfl, ?_, hevaluate table rfl⟩
  · have hlength := hpaths path hpath
    omega
  · have hdepth := (hsubstitute table).2.2
    omega

end Node

end SqlTemplate
