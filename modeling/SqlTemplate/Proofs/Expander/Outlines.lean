import SqlTemplate.Node.Display
import SqlTemplate.Proofs.Expander.Concatenation
import SqlTemplate.Proofs.Expander.Failures
import SqlTemplate.Proofs.Expander.TwoRuns
import SqlTemplate.Proofs.Node.CallDepth
import SqlTemplate.Proofs.Node.Stopping

set_option autoImplicit false

/-! # Outlines tell trees apart

The outline of a tree shows all of it: trees that are built from templates have the same outline
only if they are the same tree, as long as the words in them are guarded in a way that keeps them
apart (`Expander.outline_eq_iff`).

In a sequence every node shows as one outline, which consists of a label (`Node.label`) and of what
stands under it (`Node.inside`). The labels of words, conditionals and scopes differ in their
styles. A sequence at the top or in a branch has no label, but in trees that are read from templates
nothing else can stand there, so nothing is lost by that.

An outline is made by a call for each node on a way down the tree (`Node.calls_outlines`). A
conditional in its scope takes three of them, while two calls read it. So there are templates that
are read and whose trees cannot be shown (`Expander.outline_nested`).
-/

namespace SqlTemplate

theorem Markup.styled_injective {style s t : Text}
    (h : Markup.styled style s = Markup.styled style t) : s = t := by
  simpa [Markup.styled] using h

namespace Node

variable {Foreign : Type}

/-! ## Labels -/

section

variable (escape : Text → Text)

theorem literalLabel_ne_conditionalLabel (t : Text) (predicate : List Text) :
    literalLabel escape t ≠ conditionalLabel escape predicate := by
  simp [literalLabel, conditionalLabel, Markup.styled]

theorem literalLabel_ne_scopeLabel (t : Text) : literalLabel escape t ≠ scopeLabel := by
  simp [literalLabel, scopeLabel, Markup.styled]

theorem conditionalLabel_ne_scopeLabel (predicate : List Text) :
    conditionalLabel escape predicate ≠ scopeLabel := by
  simp [conditionalLabel, scopeLabel, Markup.styled]

variable {escape} in
theorem escape_eq_of_literalLabel {s t : Text} (h : literalLabel escape s = literalLabel escape t) :
    escape s = escape t :=
  Markup.styled_injective h

variable {escape} in
theorem escape_eq_of_conditionalLabel {p q : List Text}
    (h : conditionalLabel escape p = conditionalLabel escape q) :
    escape (Text.unwords p) = escape (Text.unwords q) :=
  Markup.styled_injective (List.cons.inj (List.append_cancel_left h)).2

end

/-- The label of a node in a sequence. -/
def label (escape : Text → Text) : Node Empty → Text
  | .literal t => literalLabel escape t
  | .conditional predicate _ _ => conditionalLabel escape predicate
  | .sequence _ => scopeLabel
  | .foreign x => x.elim

/-- What a node shows at the top or in a branch, when `inside` stands under its label: a sequence
shows without its label. -/
def unlabelled (escape : Text → Text) (n : Node Empty) (inside : List Outline) : List Outline :=
  match n with
  | .sequence _ => inside
  | n => [.mk (n.label escape) inside]

mutual

/-- The outlines under the label of a node. -/
def inside (escape : Text → Text) : Node Empty → List Outline
  | .literal _ => []
  | .conditional _ a b =>
      .mk thenLabel (a.unlabelled escape (a.inside escape)) :: elseInside escape b
  | .sequence children => items escape children
  | .foreign x => x.elim

/-- The outline of a branch for a false predicate, if there is one. -/
def elseInside (escape : Text → Text) : Option (Node Empty) → List Outline
  | none => []
  | some n => [.mk elseLabel (n.unlabelled escape (n.inside escape))]

/-- The outlines of the nodes of a sequence, one for each. -/
def items (escape : Text → Text) : List (Node Empty) → List Outline
  | [] => []
  | n :: ns => .mk (n.label escape) (n.inside escape) :: items escape ns

end

/-! ## Which trees are shown -/

section

variable (escape : Text → Text)

theorem result_outlinesAll_cons {n : Node Empty} {ns : List (Node Empty)}
    (hn : (n.outlines escape).result = .ok (n.unlabelled escape (n.inside escape)))
    (hns : (outlinesAll escape ns).result = .ok (items escape ns)) :
    (outlinesAll escape (n :: ns)).result = .ok (items escape (n :: ns)) := by
  cases n with
  | literal t =>
      simp only [outlinesAll, Counted.result_bind, hn, hns]
      rfl
  | conditional predicate a b =>
      simp only [outlinesAll, Counted.result_bind, hn, hns]
      rfl
  | sequence children =>
      have hchildren : (outlinesAll escape children).result = .ok (items escape children) := hn
      simp only [outlinesAll, Counted.result_bind, Counted.result_within, hchildren, hns]
      rfl
  | foreign x => exact x.elim

/-- Every node shows as it should, whatever number of calls that takes. -/
theorem result_outlines (n : Node Empty) :
    (n.outlines escape).result = .ok (n.unlabelled escape (n.inside escape)) := by
  induction n using parts_induction
    (fun b => (elseOutlines escape b).result = .ok (elseInside escape b))
    (fun ns => (outlinesAll escape ns).result = .ok (items escape ns)) with
  | literal t => rfl
  | conditional predicate a b iha ihb =>
      simp only [outlines, Counted.result_within, Counted.result_bind, iha, ihb]
      rfl
  | sequence children ih => exact ih
  | foreign x => exact x.elim
  | none => rfl
  | some n ih =>
      simp only [elseOutlines, Counted.result_bind, ih]
      rfl
  | nil => rfl
  | cons n ns ihn ihns => exact result_outlinesAll_cons escape ihn ihns

theorem result_elseOutlines (b : Option (Node Empty)) :
    (elseOutlines escape b).result = .ok (elseInside escape b) := by
  cases b with
  | none => rfl
  | some n =>
      simp only [elseOutlines, Counted.result_bind, n.result_outlines]
      rfl

/-- The outlines of the nodes of a sequence are made one after another. -/
theorem calls_outlinesAll_cons (n : Node Empty) (ns : List (Node Empty)) :
    (outlinesAll escape (n :: ns)).calls =
      max (n.outlines escape).calls (outlinesAll escape ns).calls := by
  have hn := n.result_outlines escape
  have hns : (outlinesAll escape ns).result = .ok (inside escape (.sequence ns)) :=
    (Node.sequence ns).result_outlines escape
  cases n with
  | sequence children =>
      have hchildren : (Counted.within 1 (outlinesAll escape children)).result = _ := hn
      rw [outlinesAll, Counted.calls_bind_of_ok hchildren, Counted.calls_bind_of_ok hns,
        Counted.calls_pure, Nat.max_zero, outlines]
  | foreign x => exact x.elim
  | literal t =>
      rw [outlinesAll, Counted.calls_bind_of_ok hn, Counted.calls_bind_of_ok hns,
        Counted.calls_pure, Nat.max_zero]
      exact fun _ => nofun
  | conditional predicate a b =>
      rw [outlinesAll, Counted.calls_bind_of_ok hn, Counted.calls_bind_of_ok hns,
        Counted.calls_pure, Nat.max_zero]
      exact fun _ => nofun

/-- **The calls that make an outline** are as many as the tree is high. -/
theorem calls_outlines (n : Node Empty) : (n.outlines escape).calls = n.height := by
  induction n using parts_induction
    (fun b => (elseOutlines escape b).calls = elseHeight b)
    (fun ns => (outlinesAll escape ns).calls = heightAll ns) with
  | literal t => rfl
  | conditional predicate a b iha ihb =>
      rw [outlines, Counted.calls_within, Counted.calls_bind_of_ok (a.result_outlines escape),
        Counted.calls_bind_of_ok (result_elseOutlines escape b), Counted.calls_pure, Nat.max_zero,
        iha, ihb, height]
      omega
  | sequence children ih =>
      rw [outlines, Counted.calls_within, ih, height]
      omega
  | foreign x => exact x.elim
  | none => rfl
  | some n ih =>
      rw [elseOutlines, Counted.calls_bind_of_ok (n.result_outlines escape), Counted.calls_pure,
        Nat.max_zero, ih, elseHeight]
  | nil => rfl
  | cons n ns ihn ihns => rw [calls_outlinesAll_cons, ihn, ihns, heightAll]

end

/-- A tree is shown when there is room for a call for each node on every way down it and for the one
that makes the title. -/
theorem outline_eq (escape : Text → Text) (room : Nat) (title : Text) (n : Node Empty) :
    n.outline escape room title =
      if n.height + 1 ≤ room then
        .ok (.mk (titleLabel escape title) (n.unlabelled escape (n.inside escape)))
      else .error .exhausted := by
  rw [outline, calls_outlines, result_outlines]
  by_cases hroom : n.height + 1 ≤ room
  · simp [hroom, Nat.not_lt.mpr hroom]
  · simp [hroom, Nat.not_le.mp hroom]

/-! ## No two trees are shown alike -/

theorem nodes_subset_thenBranch (q : List Text) (a : Node Foreign) (b : Option (Node Foreign)) :
    a.nodes ⊆ (Node.conditional q a b).nodes :=
  fun _ h => List.mem_cons_of_mem _ (List.mem_append_left _ h)

theorem nodes_subset_elseBranch (q : List Text) (a e : Node Foreign) :
    e.nodes ⊆ (Node.conditional q a (some e)).nodes :=
  fun _ h => List.mem_cons_of_mem _ (List.mem_append_right _ h)

theorem nodes_subset_sequence {n : Node Foreign} {ns : List (Node Foreign)} (hn : n ∈ ns) :
    n.nodes ⊆ (Node.sequence ns).nodes := by
  refine List.Subset.trans ?_ (List.subset_cons_self _ _)
  induction ns with
  | nil => cases hn
  | cons m ms ih =>
      rw [nodesAll]
      rcases List.mem_cons.mp hn with rfl | hn
      · exact List.subset_append_left _ _
      · exact fun k hk => List.mem_append_right _ (ih hn hk)

variable {escape : Text → Text}

/-- Whether labels tell the words of some nodes from those of others. -/
structure ToldApart (escape : Text → Text) (ms ns : List (Node Foreign)) : Prop where
  literal : ∀ u v, .literal u ∈ ms → .literal v ∈ ns → escape u = escape v → u = v
  predicate : ∀ p q a a' b b', .conditional p a b ∈ ms → .conditional q a' b' ∈ ns →
    escape (Text.unwords p) = escape (Text.unwords q) → p = q

theorem ToldApart.mono {ms ns ms' ns' : List (Node Foreign)} (h : ToldApart escape ms ns)
    (hm : ms' ⊆ ms) (hn : ns' ⊆ ns) : ToldApart escape ms' ns' :=
  ⟨fun u v hu hv => h.literal u v (hm hu) (hn hv),
    fun p q a a' b b' hp hq => h.predicate p q a a' b b' (hm hp) (hn hq)⟩

theorem IsPart.child {n : Node Foreign} {ns : List (Node Foreign)}
    (h : (Node.sequence ns).IsPart) (hn : n ∈ ns) : n.IsPart :=
  h.elim (fun h => h.isPart n hn) fun h => h.isPart n hn

/-- What stands in a branch shows without a label. -/
theorem IsClause.unlabelled_eq {n : Node Empty} (h : n.IsClause) (os : List Outline) :
    n.unlabelled escape os = os := by
  obtain ⟨ns, rfl, -⟩ := h.exists_sequence
  rfl

/-- Clauses are sequences, so they do not differ in their labels. -/
theorem IsClause.label_eq {m n : Node Empty} (hm : m.IsClause) (hn : n.IsClause) :
    m.label escape = n.label escape := by
  obtain ⟨ms, rfl, -⟩ := hm.exists_sequence
  obtain ⟨ns, rfl, -⟩ := hn.exists_sequence
  rfl

/-- Sequences of the same items are the same if no two of their nodes are shown alike. -/
theorem eq_of_items_eq {ms ns : List (Node Empty)}
    (hinj : ∀ m ∈ ms, ∀ n ∈ ns, m.label escape = n.label escape →
      m.inside escape = n.inside escape → m = n)
    (h : items escape ms = items escape ns) : ms = ns := by
  induction ms generalizing ns with
  | nil =>
      cases ns with
      | nil => rfl
      | cons n ns => cases h
  | cons m ms ih =>
      cases ns with
      | nil => cases h
      | cons n ns =>
          simp only [items, List.cons.injEq, Outline.mk.injEq] at h
          obtain ⟨⟨hlabel, hinside⟩, hrest⟩ := h
          have hhead := hinj m List.mem_cons_self n List.mem_cons_self hlabel hinside
          have htail := ih (fun m hm n hn =>
            hinj m (List.mem_cons_of_mem _ hm) n (List.mem_cons_of_mem _ hn)) hrest
          rw [hhead, htail]

/-- **Nodes that are shown alike** are the same. -/
theorem IsPart.eq_of_inside_eq {m n : Node Empty} (hm : m.IsPart) (hn : n.IsPart)
    (htold : ToldApart escape m.nodes n.nodes)
    (hlabel : m.label escape = n.label escape) (hinside : m.inside escape = n.inside escape) :
    m = n := by
  induction m generalizing n with
  | foreign x => exact x.elim
  | literal t =>
      cases n with
      | literal u =>
          rw [htold.literal t u (by simp [nodes]) (by simp [nodes])
            (escape_eq_of_literalLabel hlabel)]
      | conditional q a b => exact absurd hlabel (literalLabel_ne_conditionalLabel escape t q)
      | sequence children => exact absurd hlabel (literalLabel_ne_scopeLabel escape t)
      | foreign x => exact x.elim
  | conditional p a b iha ihb =>
      cases n with
      | literal u => exact absurd hlabel.symm (literalLabel_ne_conditionalLabel escape u p)
      | sequence children => exact absurd hlabel (conditionalLabel_ne_scopeLabel escape p)
      | foreign x => exact x.elim
      | conditional q a' b' =>
          have hpredicate : p = q := htold.predicate p q a a' b b' (by simp [nodes])
            (by simp [nodes]) (escape_eq_of_conditionalLabel hlabel)
          obtain ⟨-, ha, hb⟩ := hm
          obtain ⟨-, ha', hb'⟩ := hn
          simp only [inside, ha.unlabelled_eq, ha'.unlabelled_eq, List.cons.injEq,
            Outline.mk.injEq, true_and] at hinside
          have hthen : a = a' := iha ha.isPart ha'.isPart
            (htold.mono (nodes_subset_thenBranch p a b) (nodes_subset_thenBranch q a' b'))
            (ha.label_eq ha') hinside.1
          have helse : b = b' := by
            cases b with
            | none =>
                cases b' with
                | none => rfl
                | some e' => cases hinside.2
            | some e =>
                cases b' with
                | none => cases hinside.2
                | some e' =>
                    have he : e.IsClause := hb
                    have he' : e'.IsClause := hb'
                    have heq : e.inside escape = e'.inside escape := by
                      simpa [elseInside, he.unlabelled_eq, he'.unlabelled_eq] using hinside.2
                    rw [ihb e rfl he.isPart he'.isPart
                      (htold.mono (nodes_subset_elseBranch p a e) (nodes_subset_elseBranch q a' e'))
                      (he.label_eq he') heq]
          rw [hpredicate, hthen, helse]
  | sequence children ih =>
      cases n with
      | literal u => exact absurd hlabel.symm (literalLabel_ne_scopeLabel escape u)
      | conditional q a b => exact absurd hlabel.symm (conditionalLabel_ne_scopeLabel escape q)
      | foreign x => exact x.elim
      | sequence children' =>
          have hitems : items escape children = items escape children' := hinside
          rw [eq_of_items_eq (fun m hchild n hchild' => ih m hchild (hm.child hchild)
            (hn.child hchild') (htold.mono (nodes_subset_sequence hchild)
              (nodes_subset_sequence hchild'))) hitems]

end Node

namespace Expander

/-- A tree that is built is not higher than the limit of its nesting lets it be. -/
theorem height_le_of_build {p : Expander} {template : Text} {tree : Node Empty}
    (h : p.build template = .ok tree) : (tree.height : Int) ≤ 3 * (p.maxDepth + 1) + 1 := by
  obtain ⟨r, -, htree⟩ := (build_eq_ok_iff p template tree).mp h
  obtain ⟨hread, -⟩ := (treeOf_eq_ok_iff p r.pieces tree).mp htree
  obtain ⟨hwellFormed, -, hnesting⟩ := (Node.readsExactly p.maxDepth r.pieces 0 tree).mp hread
  have hheight := hwellFormed.height_le
  omega

/-- **Outlines tell trees apart.** A tree that is built has an outline under every title exactly
when there is room for its height, which there always is when the limit of the nesting is small
enough. Two trees that have outlines have the same outline only if they are the same tree, as long
as no literal of the one and other literal of the other, and no predicate of the one and other
predicate of the other, are the same when they are escaped. -/
theorem outline_eq_iff {p q : Expander} {s t : Text} {m n : Node Empty} (hm : p.build s = .ok m)
    (hn : q.build t = .ok n) {escape : Text → Text}
    (hliterals : ∀ u v, .literal u ∈ m.nodes → .literal v ∈ n.nodes → escape u = escape v → u = v)
    (hpredicates : ∀ u ∈ m.predicates, ∀ v ∈ n.predicates,
      escape (Text.unwords u) = escape (Text.unwords v) → Text.unwords u = Text.unwords v)
    (room : Nat) (title : Text) :
    ((∃ o, m.outline escape room title = .ok o) ↔ m.height + 1 ≤ room) ∧
      (3 * (p.maxDepth + 1) + 2 ≤ room → ∃ o, m.outline escape room title = .ok o) ∧
      ∀ o o', m.outline escape room title = .ok o → n.outline escape room title = .ok o' →
        (o = o' ↔ m = n) := by
  have hshown : (∃ o, m.outline escape room title = .ok o) ↔ m.height + 1 ≤ room := by
    rw [Node.outline_eq]
    split <;> simp [*]
  refine ⟨hshown, fun hroom => hshown.mpr ?_, fun o o' ho ho' => ⟨fun heq => ?_, fun heq => ?_⟩⟩
  · have hheight := height_le_of_build hm
    omega
  · subst heq
    have hmwords : ∀ u ∈ m.predicates, ∀ w ∈ u, Text.IsWord w := fun u hu w hw =>
      Text.isWord_of_mem_words
        ((sublist_words_of_build hm).subset (Node.mem_words_of_mem_predicates hu hw))
    have hnwords : ∀ v ∈ n.predicates, ∀ w ∈ v, Text.IsWord w := fun v hv w hw =>
      Text.isWord_of_mem_words
        ((sublist_words_of_build hn).subset (Node.mem_words_of_mem_predicates hv hw))
    have htold : Node.ToldApart escape m.nodes n.nodes := by
      refine ⟨hliterals, fun u v a a' b b' hu hv he => ?_⟩
      have hu := (Node.mem_predicates_iff u m).mpr ⟨a, b, hu⟩
      have hv := (Node.mem_predicates_iff v n).mpr ⟨a', b', hv⟩
      -- the words of a predicate are read back from the text made of them
      rw [← Text.words_unwords (hmwords u hu), hpredicates u hu v hv he,
        Text.words_unwords (hnwords v hv)]
    obtain ⟨ms, rfl⟩ := exists_sequence_of_build hm
    obtain ⟨ns, rfl⟩ := exists_sequence_of_build hn
    have hinside : (Node.sequence ms).inside escape = (Node.sequence ns).inside escape := by
      rw [Node.outline_eq] at ho ho'
      split at ho
      · split at ho'
        · exact (Outline.mk.inj (Except.ok.inj (ho.trans ho'.symm))).2
        · cases ho'
      · cases ho
    exact (wellFormed_of_build hm).isPart.eq_of_inside_eq (wellFormed_of_build hn).isPart htold rfl
      hinside
  · subst heq
    exact Except.ok.inj (ho.symm.trans ho')

/-- A missing branch and an empty one are shown apart, below a literal that escaping changes and
under a limit and a reading of their own. -/
theorem outline_eq_iff_of_emptyElse :
    let a : Text := "\x7b\x7b [if] .a [then] [b] \x7d\x7d".toList
    let b : Text := "\x7b\x7b [if] .a [then] [b] [else] ".toList
    let m : Node Empty := .sequence [.sequence
      [.conditional [".a".toList] (.sequence [.literal "[b]".toList]) none]]
    let n : Node Empty := .sequence [.sequence
      [.conditional [".a".toList] (.sequence [.literal "[b]".toList]) (some (.sequence []))]]
    let p : Expander := {}
    let q : Expander := { strict := false, maxDepth := 1 }
    p.build a = .ok m ∧ q.build b = .ok n ∧
      (∃ o, m.outline Markup.escape Stack.room "t".toList = .ok o) ∧
      (∃ o, n.outline Markup.escape Stack.room "t".toList = .ok o) ∧
      ∀ o o', m.outline Markup.escape Stack.room "t".toList = .ok o →
        n.outline Markup.escape Stack.room "t".toList = .ok o' → o ≠ o' := by
  intro a b m n p q
  have hread : Reading.ofTemplate true a = .ok ⟨[.scope [.word "[if]".toList, .word ".a".toList,
      .word "[then]".toList, .word "[b]".toList]], []⟩ := rfl
  have hread' : Reading.ofTemplate false b = .ok ⟨[.scope [.word "[if]".toList, .word ".a".toList,
      .word "[then]".toList, .word "[b]".toList, .word "[else]".toList]], []⟩ := rfl
  have hm : p.build a = .ok m := build_eq_ok_of_reading hread rfl (by decide)
  have hn : q.build b = .ok n := build_eq_ok_of_reading hread' rfl (by decide)
  have hne : m ≠ n := by simp [m, n]
  have hliterals : ∀ u v, .literal u ∈ m.nodes → .literal v ∈ n.nodes →
      Markup.escape u = Markup.escape v → u = v := by
    simp [m, n, Node.nodes, Node.nodesAll, Node.elseNodes]
  have hpredicates : ∀ u ∈ m.predicates, ∀ v ∈ n.predicates,
      Markup.escape (Text.unwords u) = Markup.escape (Text.unwords v) →
        Text.unwords u = Text.unwords v := by
    simp [m, n, Node.predicates, Node.predicatesAll, Node.elsePredicates]
  obtain ⟨hiff, -, htold⟩ := outline_eq_iff hm hn hliterals hpredicates Stack.room "t".toList
  have hshown : ∃ o, n.outline Markup.escape Stack.room "t".toList = .ok o :=
    ⟨_, (Node.outline_eq ..).trans (if_pos (by decide))⟩
  exact ⟨hm, hn, hiff.mpr (by decide), hshown,
    fun o o' ho ho' heq => hne ((htold o o' ho ho').mp heq)⟩

end Expander

namespace Node

/-! ## Trees that are read and cannot be shown -/

/-- A word inside scopes: each of them says whether it is a conditional. -/
def nested : List Bool → List (Node Empty)
  | [] => [.literal "x".toList]
  | false :: scopes => [.sequence (nested scopes)]
  | true :: scopes => [.sequence [.conditional ["true".toList] (.sequence (nested scopes)) none]]

theorem areItems_nested (scopes : List Bool) :
    AreScope (nested scopes) ∧ AreItems clauseWords (nested scopes) := by
  fun_induction nested scopes with
  | case1 => exact ⟨⟨by decide, trivial⟩, by decide, trivial⟩
  | case2 scopes ih => exact ⟨⟨ih.1, trivial⟩, ih.1, trivial⟩
  | case3 scopes ih =>
      have hpredicate : IsPredicate ["true".toList] := ⟨⟨_, [], rfl, by decide⟩, by decide⟩
      have hconditional :
          AreScope [.conditional ["true".toList] (.sequence (nested scopes)) none] :=
        ⟨rfl, hpredicate, ih.2, trivial⟩
      exact ⟨⟨hconditional, trivial⟩, hconditional, trivial⟩

theorem nestingAll_nested (scopes : List Bool) : nestingAll (nested scopes) = scopes.length := by
  fun_induction nested scopes with
  | case1 => rfl
  | case2 scopes ih => rw [nestingAll_sequence, ih, nestingAll_nil, Nat.max_zero, List.length_cons]
  | case3 scopes ih =>
      simp only [nestingAll, nesting, elseNesting, ih, List.length_cons]
      omega

/-- A scope is shown by one call, and by two more if it is a conditional. -/
theorem heightAll_nested (scopes : List Bool) :
    heightAll (nested scopes) = scopes.length + 2 * scopes.count true + 1 := by
  fun_induction nested scopes with
  | case1 => rfl
  | case2 scopes ih =>
      simp only [heightAll, height, ih, List.length_cons, List.count_cons_of_ne Bool.false_ne_true]
      omega
  | case3 scopes ih =>
      simp only [heightAll, height, elseHeight, ih, List.length_cons, List.count_cons_self]
      omega

theorem piecesAll_nested_true (scopes : List Bool) :
    piecesAll (nested (true :: scopes)) = [.scope (.word Keyword.ifWord.text ::
      .word "true".toList :: .word Keyword.thenWord.text :: piecesAll (nested scopes))] := by
  simp [nested, piecesAll, pieces, elsePieces]

theorem legible_nested (scopes : List Bool) : Piece.Legible (piecesAll (nested scopes)) := by
  induction scopes with
  | nil => decide
  | cons conditional scopes ih =>
      cases conditional with
      | false =>
          rw [nested, piecesAll_sequence, piecesAll_nil, Piece.legible_scope_cons_iff]
          exact ⟨ih, by decide⟩
      | true =>
          rw [piecesAll_nested_true, Piece.legible_scope_cons_iff]
          simp only [Piece.legible_word_cons_iff]
          exact ⟨⟨⟨Text.isWord_keyword .ifWord, by decide⟩, ⟨by decide, by decide⟩,
            ⟨Text.isWord_keyword .thenWord, by decide⟩, ih⟩, by decide⟩

theorem isConditional_nested (scopes : List Bool) :
    isConditional (piecesAll (nested scopes)) = .ok false := by
  fun_cases nested scopes <;> rfl

/-- A scope is read by one call, and by one more if it is a conditional. -/
theorem fullCallsAll_nested (scopes : List Bool) :
    Piece.fullCallsAll (piecesAll (nested scopes)) = scopes.length + scopes.count true := by
  induction scopes with
  | nil => rfl
  | cons conditional scopes ih =>
      cases conditional with
      | false =>
          rw [nested, piecesAll_sequence, piecesAll_nil, Piece.fullCallsAll, Piece.fullCallsAll,
            Piece.fullCalls_scope (isConditional_nested scopes), ih, List.length_cons,
            List.count_cons_of_ne Bool.false_ne_true, if_neg Bool.false_ne_true]
          omega
      | true =>
          have hconditional : isConditional (.word Keyword.ifWord.text :: .word "true".toList ::
              .word Keyword.thenWord.text :: piecesAll (nested scopes)) = .ok true := rfl
          rw [piecesAll_nested_true, Piece.fullCallsAll, Piece.fullCallsAll,
            Piece.fullCalls_scope hconditional, Piece.fullCallsAll_word_cons,
            Piece.fullCallsAll_word_cons, Piece.fullCallsAll_word_cons, ih, List.length_cons,
            List.count_cons_self, if_pos rfl]
          omega

end Node

namespace Expander

/-- **A template that is read and whose tree is not shown.** The outline needs more room than the
reading does. -/
theorem outline_nested {p : Expander} {scopes : List Bool}
    (hdepth : (scopes.length : Int) ≤ p.maxDepth)
    (hread : scopes.length + scopes.count true + 1 ≤ p.room)
    (hshow : p.room < scopes.length + 2 * scopes.count true + 3) (escape : Text → Text)
    (title : Text) :
    p.build (Text.unwords (Piece.words (Node.piecesAll (Node.nested scopes)))) =
        .ok (.sequence (Node.nested scopes)) ∧
      (Node.sequence (Node.nested scopes)).outline escape p.room title = .error .exhausted := by
  have hlegible := Node.legible_nested scopes
  refine ⟨?_, ?_⟩
  · rw [build_of_words p hlegible.undelimited (Text.words_unwords hlegible.isWord),
      Node.ofScope_eq_ok_iff]
    refine ⟨⟨(Node.areItems_nested scopes).1, rfl, ?_⟩, ?_⟩
    · rwa [Node.nesting_sequence, Node.nestingAll_nested]
    · rwa [Piece.fullCalls_scope (Node.isConditional_nested scopes), Node.fullCallsAll_nested]
  · rw [Node.outline_eq, Node.height, Node.heightAll_nested, if_neg]
    omega

/-- Conditionals around scopes, when the outline needs more room than the reading does. -/
theorem outline_conditionals {p : Expander} {conditionals plain : Nat}
    (hdepth : (conditionals + plain : Int) ≤ p.maxDepth)
    (hread : 2 * conditionals + plain + 1 ≤ p.room)
    (hshow : p.room < 3 * conditionals + plain + 3) (escape : Text → Text) (title : Text) :
    let scopes := List.replicate conditionals true ++ List.replicate plain false
    p.build (Text.unwords (Piece.words (Node.piecesAll (Node.nested scopes)))) =
        .ok (.sequence (Node.nested scopes)) ∧
      (Node.sequence (Node.nested scopes)).outline escape p.room title = .error .exhausted := by
  intro scopes
  have hlength : scopes.length = conditionals + plain := by
    simp only [scopes, List.length_append, List.length_replicate]
  have hcount : scopes.count true = conditionals := by
    simp [scopes, List.count_replicate]
  refine outline_nested ?_ ?_ ?_ escape title
  · rw [hlength]
    exact_mod_cast hdepth
  · omega
  · omega

/-- Three hundred conditionals around a hundred and fifty scopes are read but not shown. -/
theorem outline_exhausted_of_nested :
    let scopes := List.replicate 300 true ++ List.replicate 150 false
    let template := Text.unwords (Piece.words (Node.piecesAll (Node.nested scopes)))
    let tree : Node Empty := .sequence (Node.nested scopes)
    let p : Expander := { maxDepth := 500 }
    p.build template = .ok tree ∧
      tree.outline Markup.escape p.room "template".toList = .error .exhausted :=
  outline_conditionals (by decide) (by decide) (by decide) Markup.escape _

end Expander

end SqlTemplate
