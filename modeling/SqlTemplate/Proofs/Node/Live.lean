import SqlTemplate.Proofs.Node.Grammar
import SqlTemplate.Proofs.Node.Selection
import SqlTemplate.Proofs.Scope.Live

set_option autoImplicit false

/-! # Live words are reached words

What is live in the words of a scope is what is reached in its tree (`Node.liveWords_pieces`).
The items of a scope are taken one after another, each behind the words of those before it
(`Node.liveFrom_items`), and `Piece.scope_induction` goes from the scopes inside a scope to the
scope itself. Around the clauses of a conditional stand the words of its frame, and what they say
about the clauses is not changed by the items in them (`Node.hasOwn_append_items_iff`).
-/

namespace SqlTemplate

namespace Node

open Words

variable {Foreign : Type}

theorem words_piecesAll_cons (n : Node Foreign) (ns : List (Node Foreign)) :
    Piece.words (piecesAll (n :: ns)) =
      Piece.words (piecesAll [n]) ++ Piece.words (piecesAll ns) := by
  rw [piecesAll_cons, Piece.words_append]

/-! ## Items in a clause -/

/-- The words that start a clause, as reserved words. -/
theorem mem_clauseWords_iff (w : Text) :
    w ∈ clauseWords ↔ ∃ k, (k = .thenWord ∨ k = .elseWord) ∧ w = Keyword.text k := by
  simp [clauseWords]

/-- The items of a clause do not change where the clauses of a scope are. -/
theorem hasOwn_append_items_iff {k : Keyword} (hk : k = .thenWord ∨ k = .elseWord)
    {ns : List (Node Foreign)} (h : AreItems clauseWords ns) (hu : Piece.Undelimited (piecesAll ns))
    {before : List Text} (hp : Paired before) :
    HasOwn k (before ++ Piece.words (piecesAll ns)) ↔ HasOwn k before := by
  induction ns generalizing before with
  | nil => simp
  | cons n ns ih =>
      rw [areItems_cons_iff] at h
      rw [piecesAll_cons, Piece.undelimited_append_iff] at hu
      rw [words_piecesAll_cons, ← List.append_assoc,
        ih h.2 hu.2 (hp.append (paired_words hu.1))]
      match n, h.1 with
      | .literal t, hi =>
          -- the word is barred from clauses if it starts one
          have hne : t ≠ k.text := fun he => hi.1 ((mem_clauseWords_iff t).mpr ⟨k, hk, he⟩)
          rw [piecesAll_literal, piecesAll_nil, Piece.words_word_cons, Piece.words_nil,
            hasOwn_concat_iff]
          simp [hne]
      | .sequence children, _ =>
          have hchildren := hu.1
          rw [piecesAll_sequence, piecesAll_nil, Piece.undelimited_scope_cons_iff] at hchildren
          rw [piecesAll_sequence, piecesAll_nil, Piece.words_scope_cons, Piece.words_nil,
            List.append_nil]
          refine hasOwn_append_scope_iff ?_ ?_ hp.stays (paired_words hchildren.1).stays
          · rcases hk with rfl | rfl <;> decide
          · rcases hk with rfl | rfl <;> decide

theorem shows_append_items_iff (form : Text → Text) {barred : List Text}
    {ns : List (Node Foreign)} (h : AreItems barred ns) (hu : Piece.Undelimited (piecesAll ns))
    {before : List Text} (hp : Paired before) (hne : before ≠ [])
    (hif : before.head? = some Keyword.ifWord.text → barred = clauseWords ∧ 2 ≤ before.length) :
    Shows form (before ++ Piece.words (piecesAll ns)) ↔ Shows form before := by
  unfold Shows
  rw [List.head?_append_of_ne_nil before hne]
  refine imp_congr_right fun hc => ?_
  obtain ⟨rfl, hlen⟩ := hif hc
  simp only [Selected, reads_append_iff form hlen, hasOwn_append_items_iff (Or.inl rfl) h hu hp,
    hasOwn_append_items_iff (Or.inr rfl) h hu hp]

/-! ## Items one after another -/

/-- Whether the live words in the pieces of a scope are those reached in its tree. -/
def LiveExactly (table : Lookup) (inside : List Piece) : Prop :=
  Piece.Undelimited inside → ∀ n : Node Empty, n.WellFormed → n.pieces = inside →
    (∀ q ∈ n.predicates, (table.truthOf? q).isSome) →
      liveWords table.replace (Piece.words inside) = n.reached table.takes

/-- The live words of an item outside of the frame. -/
theorem liveFrom_item (table : Lookup) {barred : List Text} {n : Node Empty}
    (h : AreItems barred [n]) (hu : Piece.Undelimited (piecesAll [n]))
    (hq : ∀ q ∈ n.predicates, (table.truthOf? q).isSome)
    (hscope : ∀ inside, .scope inside ∈ piecesAll [n] → LiveExactly table inside)
    {before : List Text} (hp : Paired before)
    (hframe : ∀ t, n = .literal t → IsConditional before t → ¬ InFrame before t) :
    liveFrom table.replace before (Piece.words (piecesAll [n])) =
      if Shows table.replace before then n.reached table.takes else [] := by
  match n with
  | .literal t =>
      rw [piecesAll_literal, piecesAll_nil, Piece.undelimited_word_cons_iff] at hu
      rw [piecesAll_literal, piecesAll_nil, Piece.words_word_cons, Piece.words_nil]
      exact liveFrom_word table.replace hp hu.1 (hframe t rfl)
  | .sequence children =>
      rw [piecesAll_sequence, piecesAll_nil, Piece.undelimited_scope_cons_iff] at hu
      have hlive := hscope (piecesAll children) (by simp) hu.1 (.sequence children) h.1
        (pieces_sequence children) hq
      rw [piecesAll_sequence, piecesAll_nil, Piece.words_scope_cons, Piece.words_nil,
        List.append_nil, liveFrom_scope_of_paired table.replace hp (paired_words hu.1).stays, hlive]

/-- **The live words of items** are those reached in them, if the items show at all. -/
theorem liveFrom_items (table : Lookup) {barred : List Text} {ns : List (Node Empty)}
    (h : AreItems barred ns) (hu : Piece.Undelimited (piecesAll ns))
    (hq : ∀ q ∈ predicatesAll ns, (table.truthOf? q).isSome)
    (hscope : ∀ inside, .scope inside ∈ piecesAll ns → LiveExactly table inside)
    {before : List Text} (hp : Paired before) (hne : before ≠ [])
    (hif : before.head? = some Keyword.ifWord.text → barred = clauseWords ∧ 2 ≤ before.length) :
    liveFrom table.replace before (Piece.words (piecesAll ns)) =
      if Shows table.replace before then reachedAll table.takes ns else [] := by
  induction ns generalizing before with
  | nil => simp [liveFrom, reachedAll]
  | cons n ns ih =>
      rw [areItems_cons_iff] at h
      rw [piecesAll_cons] at hu hscope
      rw [Piece.undelimited_append_iff] at hu
      simp only [predicatesAll, List.mem_append] at hq hscope
      have hframe : ∀ t, n = .literal t → IsConditional before t → ¬ InFrame before t := by
        rintro t rfl hc
        obtain ⟨v, rest, rfl⟩ := List.exists_cons_of_ne_nil hne
        rw [isConditional_cons_iff] at hc
        obtain ⟨rfl, hlen⟩ := hif (by rw [hc]; rfl)
        rintro (hlt | hmem)
        · omega
        · exact h.1.1 hmem
      -- the rest is read behind the words of the first item, and shows when that does
      have hitem := liveFrom_item table h.1 hu.1 (fun q hmem => hq q (Or.inl hmem))
        (fun inside hi => hscope inside (Or.inl hi)) hp hframe
      have hshows := shows_append_items_iff table.replace h.1 hu.1 hp hne hif
      have hrest := ih h.2 hu.2 (fun q hmem => hq q (Or.inr hmem))
        (fun inside hi => hscope inside (Or.inr hi)) (hp.append (paired_words hu.1))
        (by simp [hne]) (fun hc => by
          rw [List.head?_append_of_ne_nil before hne] at hc
          obtain ⟨hb, hlen⟩ := hif hc
          exact ⟨hb, by rw [List.length_append]; omega⟩)
      rw [words_piecesAll_cons, liveFrom_append, hitem, hrest, reachedAll]
      simp only [hshows]
      split <;> simp

/-! ## The frame of a conditional -/

/-- What stands in front of the then clause. -/
def frame (q : Text) : List Text := [Keyword.ifWord.text, q, Keyword.thenWord.text]

theorem paired_frame {q : Text} (hq : ¬ IsDelimiter q) : Paired (frame q) :=
  (paired_singleton (by decide)).append
    ((paired_singleton hq).append (paired_singleton (by decide)))

/-- Nothing of the frame shows. -/
theorem liveWords_frame (form : Text → Text) {q : Text} (hq : ¬ IsDelimiter q) :
    liveWords form (frame q) = [] := by
  have hif : Paired [Keyword.ifWord.text] := paired_singleton (by decide)
  have hpredicate : Paired [Keyword.ifWord.text, q] := hif.append (paired_singleton hq)
  have hone := liveFrom_frame form paired_nil (w := Keyword.ifWord.text) rfl (Or.inl (by simp))
  have htwo := liveFrom_frame form hif (w := q) ((isConditional_cons_iff _ _ _).mpr rfl)
    (Or.inl (by simp))
  have hthree := liveFrom_frame form hpredicate (w := Keyword.thenWord.text)
    ((isConditional_cons_iff _ _ _).mpr rfl) (Or.inr (by simp [clauseWords]))
  have hsplit : frame q = [Keyword.ifWord.text] ++ ([q] ++ [Keyword.thenWord.text]) := rfl
  rw [liveWords, hsplit, liveFrom_append, liveFrom_append, hone]
  simp [htwo, hthree]

/-- The frame starts the then clause and nothing else. -/
theorem hasOwn_frame_iff {q : Text} (hq : q ∉ clauseWords) (hd : ¬ IsDelimiter q) {k : Keyword}
    (hk : k = .thenWord ∨ k = .elseWord) : HasOwn k (frame q) ↔ k = .thenWord := by
  have hq : q ≠ k.text := fun he => hq ((mem_clauseWords_iff q).mpr ⟨k, hk, he⟩)
  have hif : Keyword.ifWord.text ≠ k.text := by
    rcases hk with rfl | rfl <;> decide
  have hbalanced : Balanced [Keyword.ifWord.text, q] :=
    ((paired_singleton (by decide)).append (paired_singleton hd)).balanced
  have hsplit : frame q = (([] ++ [Keyword.ifWord.text]) ++ [q]) ++ [Keyword.thenWord.text] := rfl
  rw [hsplit, hasOwn_concat_iff, hasOwn_concat_iff, hasOwn_concat_iff]
  have hnil : ¬ HasOwn k [] := by simp [HasOwn]
  constructor
  · rintro (((h | h) | h) | h)
    · exact absurd h hnil
    · exact absurd h.1 hif
    · exact absurd h.1 hq
    · exact (Keyword.text_injective h.1).symm
  · rintro rfl
    exact Or.inr ⟨rfl, hbalanced⟩

/-- In front of `[else]`, the then clause shows when the predicate is true. -/
theorem shows_then_iff (form : Text → Text) {q : Text} {before : List Text}
    (hif : before.head? = some Keyword.ifWord.text) (hq : before[1]? = some q)
    (hthen : HasOwn .thenWord before) (helse : ¬ HasOwn .elseWord before) :
    Shows form before ↔ Text.lower (form q) = "true".toList := by
  simp [Shows, Selected, Reads, hif, hq, hthen, helse]

/-- Behind `[else]`, the else clause shows when the predicate is false. -/
theorem shows_else_iff (form : Text → Text) {q : Text} {before : List Text}
    (hif : before.head? = some Keyword.ifWord.text) (hq : before[1]? = some q)
    (helse : HasOwn .elseWord before) :
    Shows form before ↔ Text.lower (form q) = "false".toList := by
  simp [Shows, Selected, Reads, hif, hq, helse]

/-- **The live words of a conditional** are those reached in the branch that its predicate
selects. -/
theorem liveWords_conditional (table : Lookup) {q : Text} {ts : List (Node Empty)}
    {es : Option (List (Node Empty))} (hq : q ∉ clauseWords) (hts : AreItems clauseWords ts)
    (hes : IsElse (es.map .sequence))
    (hu : Piece.Undelimited (ofClauses [q] ts es).pieces)
    (hread : ∀ r ∈ (ofClauses [q] ts es).predicates, (table.truthOf? r).isSome)
    (hscope : ∀ inside, .scope inside ∈ (ofClauses [q] ts es).pieces → LiveExactly table inside) :
    liveWords table.replace (Piece.words (ofClauses [q] ts es).pieces) =
      (ofClauses [q] ts es).reached table.takes := by
  have hwords : Piece.words (ofClauses [q] ts es).pieces =
      frame q ++ (Piece.words (piecesAll ts) ++ Piece.words (elsePieces (es.map .sequence))) := by
    simp [pieces_ofClauses, Piece.words_append, frame]
  simp only [pieces_ofClauses, List.map_cons, List.map_nil, List.cons_append, List.nil_append,
    Piece.undelimited_word_cons_iff, Piece.undelimited_append_iff] at hu
  obtain ⟨-, hd, -, hut, hue⟩ := hu
  simp only [pieces_ofClauses, List.map_cons, List.map_nil, List.cons_append, List.nil_append,
    List.mem_cons, List.mem_append, reduceCtorEq, false_or] at hscope
  simp only [ofClauses, predicates, predicatesAll, List.mem_cons, List.mem_append, List.append_nil]
    at hread
  have hframe := paired_frame hd
  have hthen : HasOwn .thenWord (frame q) := (hasOwn_frame_iff hq hd (Or.inl rfl)).mpr rfl
  have helse : ¬ HasOwn .elseWord (frame q) :=
    fun h => absurd ((hasOwn_frame_iff hq hd (Or.inr rfl)).mp h) (by decide)
  have hlivethen := liveFrom_items table hts hut (fun r hr => hread r (Or.inr (Or.inl hr)))
    (fun inside hi => hscope inside (Or.inl hi)) hframe (by simp [frame])
    fun _ => ⟨rfl, by simp [frame]⟩
  have hbranch : (ofClauses [q] ts es).reached table.takes =
      if Text.lower (table.replace q) = "true".toList then reachedAll table.takes ts
      else reachedElse table.takes (es.map .sequence) := by
    simp [ofClauses, reached, reachedAll, Lookup.takes, Lookup.truthOf?]
  rw [hwords, liveWords, liveFrom_append, ← liveWords, liveWords_frame _ hd, List.nil_append,
    List.nil_append, liveFrom_append, hlivethen, hbranch]
  simp only [shows_then_iff table.replace (q := q) rfl rfl hthen helse]
  cases es with
  | none => simp [elsePieces, liveFrom, reachedElse]
  | some es =>
      -- behind `[else]` the clause shows when the predicate is false
      simp only [Option.map_some, elsePieces, pieces_sequence, Piece.undelimited_word_cons_iff,
        List.mem_cons, reduceCtorEq, false_or, elsePredicates, predicates] at hue hscope hread ⊢
      have hpre : Paired (frame q ++ Piece.words (piecesAll ts)) := hframe.append (paired_words hut)
      have hsilent : liveFrom table.replace (frame q ++ Piece.words (piecesAll ts))
          [Keyword.elseWord.text] = [] :=
        liveFrom_frame table.replace hpre ((isConditional_cons_iff _ _ _).mpr rfl)
          (Or.inr (by simp [clauseWords]))
      have hown : HasOwn .elseWord
          (frame q ++ Piece.words (piecesAll ts) ++ [Keyword.elseWord.text]) :=
        (hasOwn_concat_iff _ _ _).mpr (Or.inr ⟨rfl, hpre.balanced⟩)
      have hliveelse := liveFrom_items table hes hue.2 (fun r hr => hread r (Or.inr (Or.inr hr)))
        (fun inside hi => hscope inside (Or.inr hi))
        (hpre.append (paired_singleton hue.1)) (by simp [frame])
        fun _ => ⟨rfl, by simp [frame]⟩
      rw [Piece.words_word_cons, ← List.singleton_append, liveFrom_append, hsilent, hliveelse]
      simp only [shows_else_iff table.replace (q := q) rfl rfl hown]
      -- one of the two clauses shows
      obtain ⟨w, hw, hvalue | hvalue⟩ := (isSome_truthOf?_iff table [q]).mp (hread [q] (Or.inl rfl))
      · obtain rfl : q = w := by simpa using hw
        rw [hvalue]
        simp
      · obtain rfl : q = w := by simpa using hw
        rw [hvalue]
        simp [reachedElse, reached]

/-! ## Scopes -/

/-- The first word of an item is `[if]` only if the item is that word. -/
theorem words_item_eq_cons {barred : List Text} {n : Node Foreign} (h : AreItems barred [n]) :
    ∃ w ws, Piece.words (piecesAll [n]) = w :: ws ∧
      (w = Keyword.ifWord.text → n = .literal Keyword.ifWord.text) := by
  match n with
  | .literal t =>
      refine ⟨t, [], by simp, ?_⟩
      rintro rfl
      rfl
  | .sequence children =>
      refine ⟨Keyword.scopeOpen.text, _, by simp; rfl, fun he => ?_⟩
      exact absurd (Keyword.text_injective he) (by decide)

/-- The live words of a scope that is no conditional are those of all its items. -/
theorem liveWords_plain (table : Lookup) {ns : List (Node Empty)} (hne : ns ≠ [])
    (hhead : ns.head? ≠ some (.literal Keyword.ifWord.text)) (hi : AreItems [] ns)
    (hu : Piece.Undelimited (piecesAll ns))
    (hread : ∀ q ∈ predicatesAll ns, (table.truthOf? q).isSome)
    (hscope : ∀ inside, .scope inside ∈ piecesAll ns → LiveExactly table inside) :
    liveWords table.replace (Piece.words (piecesAll ns)) = reachedAll table.takes ns := by
  obtain ⟨n, rest, rfl⟩ := List.exists_cons_of_ne_nil hne
  rw [areItems_cons_iff] at hi
  rw [piecesAll_cons] at hu hscope
  rw [Piece.undelimited_append_iff] at hu
  simp only [predicatesAll, List.mem_append] at hread hscope
  have hn : n ≠ .literal Keyword.ifWord.text := fun he => hhead (by rw [he]; rfl)
  obtain ⟨w, ws, hw, hword⟩ := words_item_eq_cons hi.1
  have hif : (Piece.words (piecesAll [n])).head? ≠ some Keyword.ifWord.text := by
    rw [hw]
    exact fun hc => hn (hword (Option.some.inj hc))
  have hfirst := liveFrom_item table hi.1 hu.1 (fun q hq => hread q (Or.inl hq))
    (fun inside h => hscope inside (Or.inl h)) paired_nil (by
      rintro t rfl hc
      obtain rfl : t = Keyword.ifWord.text := by simpa [IsConditional] using hc
      exact absurd rfl hn)
  have hrest := liveFrom_items table hi.2 hu.2 (fun q hq => hread q (Or.inr hq))
    (fun inside h => hscope inside (Or.inr h)) (paired_words hu.1) (by rw [hw]; simp)
    fun hc => absurd hc hif
  have hshows : Shows table.replace (Piece.words (piecesAll [n])) := fun hc => absurd hc hif
  rw [if_pos (by simp [Shows])] at hfirst
  rw [if_pos hshows] at hrest
  calc liveWords table.replace (Piece.words (piecesAll (n :: rest)))
      = liveFrom table.replace [] (Piece.words (piecesAll [n])) ++
          liveFrom table.replace (Piece.words (piecesAll [n])) (Piece.words (piecesAll rest)) := by
        rw [words_piecesAll_cons, liveWords, liveFrom_append, List.nil_append]
    _ = n.reached table.takes ++ reachedAll table.takes rest := by rw [hfirst, hrest]
    _ = reachedAll table.takes (n :: rest) := by rw [reachedAll]

/-- The live words of a scope are those reached in its tree, given that this is so for the scopes
in it. -/
theorem liveExactly_of_inside (table : Lookup) (ps : List Piece)
    (hps : ∀ inside, .scope inside ∈ ps → LiveExactly table inside) : LiveExactly table ps := by
  rintro hu n hn rfl hread
  -- a scope is read in two ways
  rcases (wellFormed_iff n).mp hn with
    ⟨ns, rfl, hne, hhead, hi⟩ | ⟨predicate, ts, es, rfl, hq, hts, hes⟩
  · rw [pieces_sequence] at hu hps ⊢
    rw [predicates] at hread
    rw [reached]
    exact liveWords_plain table hne hhead hi hu hread hps
  · have hmem : predicate ∈ (ofClauses predicate ts es : Node Empty).predicates := by
      simp [ofClauses, predicates, predicatesAll]
    obtain ⟨q, rfl⟩ := exists_eq_singleton (hread predicate hmem)
    exact liveWords_conditional table (hq.2 q (by simp)) hts hes hu hread hps

theorem liveExactly (table : Lookup) (ps : List Piece) : LiveExactly table ps :=
  Piece.scope_induction (liveExactly_of_inside table) ps

/-- **Live words are reached words.** -/
theorem liveWords_pieces (table : Lookup) {n : Node Empty} (h : n.WellFormed)
    (hu : Piece.Undelimited n.pieces) (hread : ∀ q ∈ n.predicates, (table.truthOf? q).isSome) :
    liveWords table.replace (Piece.words n.pieces) = n.reached table.takes :=
  liveExactly table n.pieces hu n h rfl hread

end Node

end SqlTemplate
