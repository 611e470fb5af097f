import SqlTemplate.Proofs.Node.Selection

set_option autoImplicit false

/-! # Grouping

How the words of a tree are grouped does not show in its text. Evaluation spaces the texts of the
nodes of every sequence, at each level of the tree and with the empty texts left out. The outcome is
that of spacing once, at the end, all the words that are reached in the branches taken
(`Node.evaluate_eq_spaced`).

So a tree can be regrouped (`Node.Regroups`): a sequence can be put in the place of its nodes or its
nodes in the place of the sequence, and nodes that show nothing can come and go. The words that show
stay what they are (`Node.Regroups.shown_eq`), and with them the text
(`Node.evaluate_ignores_grouping`).
-/

namespace SqlTemplate

namespace Node

variable {Foreign : Type}

/-- Whether evaluation takes the then branch behind a predicate: its first word is `true`, in any
case. -/
def startsTrue : List Text → Bool
  | [] => false
  | w :: _ => Text.lower w == "true".toList

/-- Whether every predicate in a tree, in branches taken or not, has a word. -/
def HasPredicateWords (n : Node Foreign) : Prop := ∀ q ∈ n.predicates, q ≠ []

instance (n : Node Foreign) : Decidable n.HasPredicateWords :=
  inferInstanceAs (Decidable (∀ q ∈ n.predicates, q ≠ []))

/-- **The text of a tree** is that of the words reached in it, spaced. -/
theorem evaluate_eq_spaced {n : Node Empty} (h : n.HasPredicateWords) :
    n.evaluate = .ok (Text.spaced (n.reached startsTrue)) := by
  unfold HasPredicateWords at h
  induction n using parts_induction
    (fun b => (∀ q ∈ elsePredicates b, q ≠ []) →
      evaluateOption b = .ok (Text.spaced (reachedElse startsTrue b)))
    (fun ns => (∀ q ∈ predicatesAll ns, q ≠ []) → ∃ ts, evaluateAll ns = .ok ts ∧
      Text.spaced ts = Text.spaced (reachedAll startsTrue ns)) with
  | literal t => simp [evaluate, reached]
  | conditional predicate a b iha ihb =>
      simp only [predicates, List.mem_cons, List.mem_append] at h
      have ha := iha fun q hq => h q (Or.inr (Or.inl hq))
      have hb := ihb fun q hq => h q (Or.inr (Or.inr hq))
      cases predicate with
      | nil => exact absurd rfl (h [] (Or.inl rfl))
      | cons w ws =>
          simp only [evaluate, reached, startsTrue, beq_iff_eq, Text.truth?_eq_some_true_iff]
          split
          · exact ha
          · exact hb
  | sequence children ih =>
      obtain ⟨ts, hts, hspaced⟩ := ih h
      rw [evaluate, hts, reached, ← hspaced]
      rfl
  | foreign x => exact x.elim
  | none => rfl
  | some n ih h => exact ih h
  | nil => exact ⟨[], rfl, rfl⟩
  | cons n ns ihn ihns h =>
      rw [predicatesAll] at h
      have hn := ihn fun q hq => h q (List.mem_append_left _ hq)
      obtain ⟨ts, hts, hspaced⟩ := ihns fun q hq => h q (List.mem_append_right _ hq)
      refine ⟨Text.spaced (n.reached startsTrue) :: ts, by rw [evaluateAll, hn, hts]; rfl, ?_⟩
      -- the text of the first node is spaced already, and so is that of the others
      rw [Text.spaced_cons, hspaced, reachedAll, Text.spaced_append]

/-! ## Trees that show the same words -/

/-- The words of a tree that show in its text: those reached that are not empty. -/
def shown (n : Node Foreign) : List Text := (n.reached startsTrue).filter fun t => !t.isEmpty

/-- The words that show in trees one after another. -/
def shownAll (ns : List (Node Foreign)) : List Text :=
  (reachedAll startsTrue ns).filter fun t => !t.isEmpty

@[simp] theorem shownAll_nil : shownAll ([] : List (Node Foreign)) = [] := rfl

@[simp] theorem shownAll_cons (n : Node Foreign) (ns : List (Node Foreign)) :
    shownAll (n :: ns) = n.shown ++ shownAll ns := by
  rw [shownAll, reachedAll, List.filter_append, shown, shownAll]

@[simp] theorem shownAll_append (ms ns : List (Node Foreign)) :
    shownAll (ms ++ ns) = shownAll ms ++ shownAll ns := by
  rw [shownAll, reachedAll_append, List.filter_append, shownAll, shownAll]

@[simp] theorem shown_literal (t : Text) :
    (literal t : Node Foreign).shown = if t = [] then [] else [t] := by
  cases t <;> rfl

@[simp] theorem shown_sequence (ns : List (Node Foreign)) : (sequence ns).shown = shownAll ns := rfl

@[simp] theorem shown_conditional (predicate : List Text) (a : Node Foreign)
    (b : Option (Node Foreign)) :
    (conditional predicate a b).shown =
      if startsTrue predicate then a.shown else (b.map shown).getD [] := by
  cases b with
  | none =>
      simp only [shown, reached]
      split <;> rfl
  | some b =>
      simp only [shown, reached]
      split <;> rfl

/-- Whether two trees differ only in how their words are grouped and in nodes that show nothing,
such as empty sequences, empty literals and conditionals that select nothing. -/
inductive Regroups : Node Foreign → Node Foreign → Prop where
  | refl (n : Node Foreign) : Regroups n n
  | symm {m n : Node Foreign} : Regroups m n → Regroups n m
  | trans {l m n : Node Foreign} : Regroups l m → Regroups m n → Regroups l n
  -- a sequence as a node, and its own nodes in its place
  | flatten (before inside after : List (Node Foreign)) :
      Regroups (.sequence (before ++ .sequence inside :: after))
        (.sequence (before ++ inside ++ after))
  -- a node alone in a sequence, and the node itself
  | single (n : Node Foreign) : Regroups (.sequence [n]) n
  | drop (before after : List (Node Foreign)) {n : Node Foreign} (hn : n.shown = []) :
      Regroups (.sequence (before ++ n :: after)) (.sequence (before ++ after))
  | dropElse (predicate : List Text) (a : Node Foreign) {b : Node Foreign} (hb : b.shown = []) :
      Regroups (.conditional predicate a (some b)) (.conditional predicate a none)
  -- the same in one of the parts of a tree
  | inSequence (before after : List (Node Foreign)) {m n : Node Foreign} :
      Regroups m n → Regroups (.sequence (before ++ m :: after)) (.sequence (before ++ n :: after))
  | inThen (predicate : List Text) (b : Option (Node Foreign)) {m n : Node Foreign} :
      Regroups m n → Regroups (.conditional predicate m b) (.conditional predicate n b)
  | inElse (predicate : List Text) (a : Node Foreign) {m n : Node Foreign} :
      Regroups m n →
        Regroups (.conditional predicate a (some m)) (.conditional predicate a (some n))

/-- The same words show in trees that are regrouped. -/
theorem Regroups.shown_eq {m n : Node Foreign} (h : m.Regroups n) : m.shown = n.shown := by
  induction h with
  | refl n => rfl
  | symm _ ih => exact ih.symm
  | trans _ _ ih ih' => exact ih.trans ih'
  | flatten before inside after => simp
  | single n => simp
  | drop before after hn => simp [hn]
  | dropElse predicate a hb => simp [hb]
  | inSequence before after _ ih => simp [ih]
  | inThen predicate b _ ih => simp [ih]
  | inElse predicate a _ ih => simp [ih]

/-- **Evaluation ignores grouping.** A tree whose predicates have words evaluates to the words
reached in it that are not empty, with single spaces between them: through every sequence, through
the then branch behind a predicate whose first word is `true`, and through the else branch behind
any other predicate. A tree that regroups it evaluates to the same text. -/
theorem evaluate_ignores_grouping {n : Node Empty} (hn : n.HasPredicateWords) :
    n.evaluate = .ok (Text.unwords n.shown) ∧
      ∀ m : Node Empty, m.HasPredicateWords → m.Regroups n → m.evaluate = n.evaluate := by
  refine ⟨evaluate_eq_spaced hn, fun m hm h => ?_⟩
  calc m.evaluate = .ok (Text.unwords m.shown) := evaluate_eq_spaced hm
    _ = .ok (Text.unwords n.shown) := by rw [h.shown_eq]
    _ = n.evaluate := (evaluate_eq_spaced hn).symm

/-- The larger tree has a sequence more, an empty one, and a conditional that selects nothing: its
predicate has two words, and the first one is not `true`. -/
theorem evaluate_ignores_grouping_of_nested :
    let n : Node Empty := .sequence [.literal "a".toList,
      .conditional ["True".toList] (.sequence [.literal "b".toList, .literal "c".toList]) none]
    let m : Node Empty := .sequence [.literal "a".toList, .sequence [],
      .conditional ["True".toList]
        (.sequence [.sequence [.literal "b".toList], .literal "c".toList]) none,
      .conditional ["no".toList, "true".toList] (.literal "d".toList) none]
    n.HasPredicateWords ∧ m.HasPredicateWords ∧ m.Regroups n ∧
      n.evaluate = .ok "a b c".toList ∧ m.evaluate = .ok "a b c".toList := by
  intro n m
  have hn : n.HasPredicateWords := by decide
  have hm : m.HasPredicateWords := by decide
  have hregroup : m.Regroups n := by
    refine .trans (.drop [_] [_, _] rfl) (.trans (.drop [_, _] [] rfl) ?_)
    exact .inSequence [_] [] (.inThen _ _ (.flatten [] [_] [_]))
  obtain ⟨htext, hsame⟩ := evaluate_ignores_grouping hn
  exact ⟨hn, hm, hregroup, htext, (hsame m hm hregroup).trans htext⟩

end Node

end SqlTemplate
