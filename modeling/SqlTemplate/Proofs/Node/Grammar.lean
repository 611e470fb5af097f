import SqlTemplate.Node.Shape
import SqlTemplate.Proofs.Node.Pieces
import SqlTemplate.Proofs.Outcome

set_option autoImplicit false

/-! # What scopes are read as

The main statement is `Node.ofScope_eq_ok_iff`: reading a scope gives a tree exactly when the tree
is well-formed, is written back as that scope, and is nested no more deeply than the limit allows.
So nothing is lost in the reading, and every well-formed tree is the reading of a scope.

The proof follows the reading. Items are read one by one (`items_eq_ok_iff`), the predicate and
the clauses of a conditional are cut at the words between them (`predicateOf_eq_ok_iff`,
`thenClauseOf_eq_ok_iff`), and `Piece.scope_induction` goes from the scopes inside a scope to the
scope itself.
-/

namespace SqlTemplate

/-! ## When a scope is a conditional -/

theorem isConditional_of_ne {p : Piece} (hp : p ≠ .word Keyword.ifWord.text) (rest : List Piece) :
    isConditional (p :: rest) = .ok false := by
  have hk : p.isKeyword .ifWord = false := by
    rw [Bool.eq_false_iff, Ne, Piece.isKeyword_iff]
    exact hp
  simp [isConditional, hk]

/-- A scope is read as a sequence when it starts with something else than `[if]`. -/
theorem isConditional_eq_false_iff (ps : List Piece) :
    isConditional ps = .ok false ↔ ∃ p rest, ps = p :: rest ∧ p ≠ .word Keyword.ifWord.text := by
  constructor
  · intro h
    match ps with
    | [] => cases h
    | p :: rest =>
        refine ⟨p, rest, rfl, fun hp => ?_⟩
        subst hp
        match rest with
        | [] => cases h
        | .scope inside :: ts => cases h
        | .word t :: ts =>
            simp only [isConditional, Piece.isKeyword_word, beq_self_eq_true, Bool.not_true,
              Bool.false_eq_true, if_false] at h
            split at h
            · cases h
            · split at h <;> cases h
  · rintro ⟨p, rest, rfl, hp⟩
    exact isConditional_of_ne hp rest

theorem any_isKeyword (k : Keyword) (ps : List Piece) :
    ps.any (Piece.isKeyword k) = true ↔ .word k.text ∈ ps := by
  simp [List.any_eq_true, Piece.isKeyword_iff]

theorem ne_of_not_isReserved {t : Text} (h : Keyword.isReserved t = false) (k : Keyword) :
    t ≠ k.text := by
  intro ht
  have hr : Keyword.isReserved t = true := (Keyword.isReserved_iff t).mpr ⟨k, ht⟩
  rw [h] at hr
  cases hr

/-- A scope is read as a conditional when it starts with `[if]` and a word that is not reserved,
and `[then]` stands in it. -/
theorem isConditional_eq_true_iff (ps : List Piece) :
    isConditional ps = .ok true ↔
      ∃ t ts, ps = .word Keyword.ifWord.text :: .word t :: ts ∧ Keyword.isReserved t = false ∧
        .word Keyword.thenWord.text ∈ ts := by
  constructor
  · intro h
    match ps with
    | [] => cases h
    | p :: rest =>
        by_cases hp : p = .word Keyword.ifWord.text
        · subst hp
          match rest with
          | [] => cases h
          | .scope inside :: ts => cases h
          | .word t :: ts =>
              by_cases hr : Keyword.isReserved t = true
              · simp [isConditional, hr] at h
              · have hr : Keyword.isReserved t = false := by simpa using hr
                simp only [isConditional, Piece.isKeyword_word, beq_self_eq_true, hr] at h
                by_cases ht : (Piece.word t :: ts).any (Piece.isKeyword .thenWord) = true
                · rw [any_isKeyword, List.mem_cons] at ht
                  refine ⟨t, ts, rfl, hr, ht.resolve_left fun he => ?_⟩
                  injection he with he
                  exact ne_of_not_isReserved hr .thenWord he.symm
                · simp [ht] at h
        · rw [isConditional_of_ne hp] at h
          cases h
  · rintro ⟨t, ts, rfl, hr, ht⟩
    have hany : (Piece.word t :: ts).any (Piece.isKeyword .thenWord) = true :=
      (any_isKeyword _ _).mpr (List.mem_cons_of_mem _ ht)
    simp only [isConditional, Piece.isKeyword_word, beq_self_eq_true, hr, hany]
    rfl

namespace Node

variable {Foreign : Type}

/-! ## Reading items

The nodes of a plain scope and those of a clause are read one for each piece. The two readings
differ in the words at which they fail. -/

/-- Whether a piece in a scope of the given depth is read as a node: a word that is not barred as
a literal, and a scope as its tree. -/
def ReadsItem (barred : List Text) (limit depth : Int) : Piece → Node Foreign → Prop
  | .word t, n => t ∉ barred ∧ n = .literal t
  | .scope inside, n => ofScope limit (depth + 1) inside = .ok n

theorem sequenceOf_cons_iff (limit depth : Int) (p : Piece) (ps : List Piece)
    (ns : List (Node Foreign)) :
    sequenceOf limit depth (p :: ps) = .ok ns ↔
      ∃ n rest, ReadsItem [] limit depth p n ∧ sequenceOf limit depth ps = .ok rest ∧
        ns = n :: rest := by
  simp only [sequenceOf, bind_eq_ok_iff, pure_eq_ok_iff]
  cases p <;> simp [ReadsItem, ofScope, ofPiece, eq_comm]

theorem elseClauseOf_cons_iff (limit depth : Int) (p : Piece) (ps : List Piece)
    (ns : List (Node Foreign)) :
    elseClauseOf limit depth (p :: ps) = .ok ns ↔
      ∃ n rest, ReadsItem clauseWords limit depth p n ∧
        elseClauseOf limit depth ps = .ok rest ∧ ns = n :: rest := by
  cases p with
  | scope inside =>
      simp only [elseClauseOf, bind_eq_ok_iff, pure_eq_ok_iff]
      simp [ReadsItem, ofScope, eq_comm]
  | word t =>
      simp only [elseClauseOf]
      split
      · simp [ReadsItem, clauseWords, *]
      · split
        · simp [ReadsItem, clauseWords, *]
        · simp only [bind_eq_ok_iff, pure_eq_ok_iff]
          simp [ReadsItem, clauseWords, eq_comm, *]

theorem thenClauseOf_cons_iff (limit depth : Int) {p : Piece}
    (hp : p ≠ .word Keyword.elseWord.text) (ps : List Piece) (ts : List (Node Foreign))
    (es : Option (List (Node Foreign))) :
    thenClauseOf limit depth (p :: ps) = .ok (ts, es) ↔
      ∃ n rest, ReadsItem clauseWords limit depth p n ∧
        thenClauseOf limit depth ps = .ok (rest, es) ∧ ts = n :: rest := by
  cases p with
  | scope inside =>
      simp only [thenClauseOf, bind_eq_ok_iff, pure_eq_ok_iff]
      simp [ReadsItem, ofScope, eq_comm]
  | word t =>
      have ht : t ≠ Keyword.elseWord.text := fun h => hp (by rw [h])
      simp only [thenClauseOf]
      split
      · simp [ReadsItem, clauseWords, *]
      · simp only [bind_eq_ok_iff, pure_eq_ok_iff]
        simp [ReadsItem, clauseWords, eq_comm, *]

theorem thenClauseOf_elseWord_iff (limit depth : Int) (ps : List Piece)
    (ts : List (Node Foreign)) (es : Option (List (Node Foreign))) :
    thenClauseOf limit depth (.word Keyword.elseWord.text :: ps) = .ok (ts, es) ↔
      ts = [] ∧ ∃ ns, elseClauseOf limit depth ps = .ok ns ∧ es = some ns := by
  have hne : Keyword.elseWord.text ≠ Keyword.thenWord.text := by decide
  simp only [thenClauseOf, hne, if_false, if_true, bind_eq_ok_iff, pure_eq_ok_iff, Prod.mk.injEq]
  constructor
  · rintro ⟨ns, hns, rfl, rfl⟩
    exact ⟨rfl, ns, hns, rfl⟩
  · rintro ⟨rfl, ns, hns, rfl⟩
    exact ⟨ns, hns, rfl, rfl⟩

/-- The then clause ends at the first `[else]` that stands in the scope itself. -/
theorem thenClauseOf_eq_ok_iff (limit depth : Int) (ps : List Piece)
    (ts : List (Node Foreign)) (es : Option (List (Node Foreign))) :
    thenClauseOf limit depth ps = .ok (ts, es) ↔
      (es = none ∧ elseClauseOf limit depth ps = .ok ts) ∨
      ∃ xs ys ns, ps = xs ++ .word Keyword.elseWord.text :: ys ∧ es = some ns ∧
        elseClauseOf limit depth xs = .ok ts ∧ elseClauseOf limit depth ys = .ok ns := by
  induction ps generalizing ts with
  | nil => cases es <;> simp [thenClauseOf, elseClauseOf]
  | cons p ps ih =>
      by_cases hp : p = .word Keyword.elseWord.text
      · -- the clause ends in front of `p`, and no item can be read from `p`
        subst hp
        have hbar : Keyword.elseWord.text ∈ clauseWords := by decide
        rw [thenClauseOf_elseWord_iff]
        constructor
        · rintro ⟨rfl, ns, hns, rfl⟩
          exact Or.inr ⟨[], ps, ns, rfl, rfl, by simp only [elseClauseOf], hns⟩
        · rintro (⟨-, hts⟩ | ⟨xs, ys, ns, hps, rfl, hxs, hys⟩)
          · obtain ⟨n, rest, hn, -⟩ := (elseClauseOf_cons_iff ..).mp hts
            exact absurd hbar hn.1
          · cases xs with
            | nil =>
                simp only [List.nil_append, List.cons.injEq, true_and] at hps
                simp only [elseClauseOf, Except.ok.injEq] at hxs
                exact ⟨hxs.symm, ns, by rw [hps, hys], rfl⟩
            | cons x xs =>
                obtain ⟨rfl, -⟩ := List.cons.inj hps
                obtain ⟨n, rest, hn, -⟩ := (elseClauseOf_cons_iff ..).mp hxs
                exact absurd hbar hn.1
      · -- the clause goes on with `p`, so the words before `[else]` start with it
        rw [thenClauseOf_cons_iff limit depth hp]
        constructor
        · rintro ⟨n, rest, hn, hrest, rfl⟩
          rcases (ih rest).mp hrest with ⟨rfl, hts⟩ | ⟨xs, ys, ns, rfl, rfl, hxs, hys⟩
          · exact Or.inl ⟨rfl, (elseClauseOf_cons_iff ..).mpr ⟨n, rest, hn, hts, rfl⟩⟩
          · exact Or.inr ⟨p :: xs, ys, ns, rfl, rfl,
              (elseClauseOf_cons_iff ..).mpr ⟨n, rest, hn, hxs, rfl⟩, hys⟩
        · rintro (⟨rfl, hts⟩ | ⟨xs, ys, ns, hps, rfl, hxs, hys⟩)
          · obtain ⟨n, rest, hn, hrest, rfl⟩ := (elseClauseOf_cons_iff ..).mp hts
            exact ⟨n, rest, hn, (ih rest).mpr (Or.inl ⟨rfl, hrest⟩), rfl⟩
          · cases xs with
            | nil => exact absurd (List.cons.inj hps).1 hp
            | cons x xs =>
                obtain ⟨rfl, rfl⟩ := List.cons.inj hps
                obtain ⟨n, rest, hn, hrest, rfl⟩ := (elseClauseOf_cons_iff ..).mp hxs
                exact ⟨n, rest, hn,
                  (ih rest).mpr (Or.inr ⟨xs, ys, ns, rfl, rfl, hrest, hys⟩), rfl⟩

theorem predicateOf_thenWord_iff (limit depth : Int) (ps : List Piece) (predicate : List Text)
    (ts : List (Node Foreign)) (es : Option (List (Node Foreign))) :
    predicateOf limit depth (.word Keyword.thenWord.text :: ps) = .ok (predicate, ts, es) ↔
      predicate = [] ∧ thenClauseOf limit depth ps = .ok (ts, es) := by
  simp only [predicateOf, if_true, bind_eq_ok_iff, pure_eq_ok_iff, Prod.exists, Prod.mk.injEq]
  constructor
  · rintro ⟨ts, es, hread, rfl, rfl, rfl⟩
    exact ⟨rfl, hread⟩
  · rintro ⟨rfl, hread⟩
    exact ⟨ts, es, hread, rfl, rfl, rfl⟩

theorem predicateOf_word_iff (limit depth : Int) {t : Text} (ht : t ∉ clauseWords)
    (ps : List Piece) (predicate : List Text) (ts : List (Node Foreign))
    (es : Option (List (Node Foreign))) :
    predicateOf limit depth (.word t :: ps) = .ok (predicate, ts, es) ↔
      ∃ ws, predicate = t :: ws ∧ predicateOf limit depth ps = .ok (ws, ts, es) := by
  simp only [clauseWords, List.mem_cons, List.not_mem_nil, or_false, not_or] at ht
  simp only [predicateOf, ht, if_false, bind_eq_ok_iff, pure_eq_ok_iff, Prod.exists,
    Prod.mk.injEq]
  constructor
  · rintro ⟨ws, ts, es, hread, rfl, rfl, rfl⟩
    exact ⟨ws, rfl, hread⟩
  · rintro ⟨ws, rfl, hread⟩
    exact ⟨ws, ts, es, hread, rfl, rfl, rfl⟩

/-- The predicate ends at the first `[then]`, and only words stand before it. -/
theorem predicateOf_eq_ok_iff (limit depth : Int) {ps : List Piece}
    (hthen : .word Keyword.thenWord.text ∈ ps) (predicate : List Text)
    (ts : List (Node Foreign)) (es : Option (List (Node Foreign))) :
    predicateOf limit depth ps = .ok (predicate, ts, es) ↔
      ∃ qs, ps = predicate.map .word ++ .word Keyword.thenWord.text :: qs ∧
        (∀ w ∈ predicate, w ∉ clauseWords) ∧ thenClauseOf limit depth qs = .ok (ts, es) := by
  constructor
  · intro h
    -- the reading fails at a scope and at `[else]`, so it gets to the first `[then]`
    induction ps generalizing predicate with
    | nil => cases hthen
    | cons p ps ih =>
        cases p with
        | scope inside => simp [predicateOf] at h
        | word t =>
            by_cases ht : t = Keyword.thenWord.text
            · subst ht
              obtain ⟨rfl, hread⟩ := (predicateOf_thenWord_iff ..).mp h
              exact ⟨ps, rfl, by simp, hread⟩
            · by_cases he : t = Keyword.elseWord.text
              · simp [predicateOf, he, show Keyword.elseWord.text ≠ Keyword.thenWord.text by decide]
                  at h
              · have hbar : t ∉ clauseWords := by simp [clauseWords, ht, he]
                obtain ⟨ws, rfl, hread⟩ := (predicateOf_word_iff limit depth hbar ..).mp h
                have hmem : .word Keyword.thenWord.text ∈ ps := by
                  simpa [eq_comm, ht] using hthen
                obtain ⟨qs, rfl, hq, hqs⟩ := ih hmem ws hread
                exact ⟨qs, rfl, by simpa [hbar] using hq, hqs⟩
  · rintro ⟨qs, rfl, hq, hqs⟩
    -- here the induction is on the predicate, which is a part of the pieces
    clear hthen
    induction predicate with
    | nil => exact (predicateOf_thenWord_iff ..).mpr ⟨rfl, hqs⟩
    | cons w ws ih =>
        have hw : w ∉ clauseWords := hq w (List.mem_cons_self ..)
        exact (predicateOf_word_iff limit depth hw ..).mpr
          ⟨ws, rfl, ih fun v hv => hq v (List.mem_cons_of_mem _ hv)⟩

/-! ## The reading of a scope -/

/-- Whether reading a scope gives just the trees that are written back as it. -/
def ReadsExactly (Foreign : Type) (limit : Int) (inside : List Piece) : Prop :=
  ∀ (depth : Int) (n : Node Foreign),
    ofScope limit depth inside = .ok n ↔
      n.WellFormed ∧ n.pieces = inside ∧ depth + n.nesting ≤ limit

/-- A piece is read as the item that is written back as it. -/
theorem readsItem_iff {limit depth : Int} (hd : depth ≤ limit) (barred : List Text) {p : Piece}
    (hp : ∀ inside, p = .scope inside → ReadsExactly Foreign limit inside) (n : Node Foreign) :
    ReadsItem barred limit depth p n ↔
      AreItems barred [n] ∧ piecesAll [n] = [p] ∧ depth + nestingAll [n] ≤ limit := by
  cases p with
  | word t =>
      constructor
      · rintro ⟨ht, rfl⟩
        exact ⟨⟨ht, trivial⟩, by simp, by simpa using hd⟩
      · rintro ⟨hi, hps, -⟩
        cases n with
        | literal u =>
            obtain rfl : u = t := by simpa using hps
            exact ⟨hi.1, rfl⟩
        | sequence children => simp at hps
        | conditional predicate a b => exact hi.elim
        | foreign x => exact hi.elim
  | scope inside =>
      rw [ReadsItem, hp inside rfl]
      cases n with
      | literal u => simp [WellFormed]
      | sequence children =>
          simp only [WellFormed, AreItems, pieces_sequence, piecesAll_sequence, piecesAll_nil,
            nesting_sequence, nestingAll_sequence, nestingAll_nil, and_true, List.cons.injEq,
            Piece.scope.injEq]
          refine and_congr_right fun _ => and_congr_right fun _ => ?_
          omega
      | conditional predicate a b => simp [WellFormed, AreItems]
      | foreign x => simp [WellFormed, AreItems]

/-- **Items are read exactly.** A reading that goes piece by piece gives just the items that are
written back as the pieces. -/
theorem items_eq_ok_iff {limit depth : Int} (hd : depth ≤ limit) {barred : List Text}
    {read : List Piece → Except ShapeError (List (Node Foreign))} (hnil : read [] = .ok [])
    (hcons : ∀ p ps ns, read (p :: ps) = .ok ns ↔
      ∃ n rest, ReadsItem barred limit depth p n ∧ read ps = .ok rest ∧ ns = n :: rest)
    (ps : List Piece) (hps : ∀ inside, .scope inside ∈ ps → ReadsExactly Foreign limit inside)
    (ns : List (Node Foreign)) :
    read ps = .ok ns ↔
      AreItems barred ns ∧ piecesAll ns = ps ∧ depth + nestingAll ns ≤ limit := by
  induction ps generalizing ns with
  | nil =>
      rw [hnil]
      constructor
      · intro h
        cases h
        exact ⟨trivial, rfl, by simpa using hd⟩
      · rintro ⟨hi, hp, -⟩
        rw [hi.eq_nil hp]
  | cons p ps ih =>
      have ih := ih fun inside h => hps inside (List.mem_cons_of_mem _ h)
      have hitem := readsItem_iff hd barred (p := p)
        fun inside h => hps inside (h ▸ List.mem_cons_self ..)
      rw [hcons]
      -- one piece gives one item, and the rest of the pieces the other items
      constructor
      · rintro ⟨n, rest, hn, hrest, rfl⟩
        obtain ⟨hi, hp, hnest⟩ := (hitem n).mp hn
        obtain ⟨hi', hp', hnest'⟩ := (ih rest).mp hrest
        rw [areItems_cons_iff, piecesAll_cons, nestingAll_cons, hp, hp']
        exact ⟨⟨hi, hi'⟩, rfl, by omega⟩
      · rintro ⟨hi, hp, hnest⟩
        obtain ⟨n, rest, rfl, hn, hrest⟩ := hi.exists_cons hp
        rw [areItems_cons_iff] at hi
        rw [nestingAll_cons] at hnest
        exact ⟨n, rest, (hitem n).mpr ⟨hi.1, hn, by omega⟩,
          (ih rest).mpr ⟨hi.2, hrest, by omega⟩, rfl⟩

theorem sequenceOf_eq_ok_iff {limit depth : Int} (hd : depth ≤ limit) (ps : List Piece)
    (hps : ∀ inside, .scope inside ∈ ps → ReadsExactly Foreign limit inside)
    (ns : List (Node Foreign)) :
    sequenceOf limit depth ps = .ok ns ↔
      AreItems [] ns ∧ piecesAll ns = ps ∧ depth + nestingAll ns ≤ limit :=
  items_eq_ok_iff hd (by simp only [sequenceOf]) (sequenceOf_cons_iff limit depth) ps hps ns

theorem elseClauseOf_eq_ok_iff {limit depth : Int} (hd : depth ≤ limit) (ps : List Piece)
    (hps : ∀ inside, .scope inside ∈ ps → ReadsExactly Foreign limit inside)
    (ns : List (Node Foreign)) :
    elseClauseOf limit depth ps = .ok ns ↔
      AreItems clauseWords ns ∧ piecesAll ns = ps ∧ depth + nestingAll ns ≤ limit :=
  items_eq_ok_iff hd (by simp only [elseClauseOf]) (elseClauseOf_cons_iff limit depth) ps hps ns

/-- A scope is read as a sequence or as a conditional, and not below the limit. -/
theorem ofScope_eq_ok_cases (limit depth : Int) (ps : List Piece) (n : Node Foreign) :
    ofScope limit depth ps = .ok n ↔
      depth ≤ limit ∧
        ((isConditional ps = .ok false ∧
            ∃ ns, sequenceOf limit depth ps = .ok ns ∧ n = .sequence ns) ∨
          (isConditional ps = .ok true ∧
            ∃ predicate ts es, predicateOf limit depth ps.tail = .ok (predicate, ts, es) ∧
              n = ofClauses predicate ts es)) := by
  cases ps with
  | nil => simp [ofScope, ofPiece, isConditional]
  | cons p rest =>
      by_cases hd : limit < depth
      · have hd' : ¬ depth ≤ limit := by omega
        simp [ofScope, ofPiece, hd, hd']
      · have hd' : depth ≤ limit := by omega
        simp only [ofScope, ofPiece, hd, if_false, hd', true_and]
        cases hc : isConditional (p :: rest) with
        | error e => simp
        | ok c =>
            cases c with
            | false =>
                simp only [sequenceOf, bind_eq_ok_iff, pure_eq_ok_iff]
                constructor
                · rintro ⟨m, hm, ns, hns, rfl⟩
                  exact Or.inl ⟨trivial, m :: ns, ⟨m, hm, ns, hns, rfl⟩, rfl⟩
                · rintro (⟨-, _, ⟨m, hm, ns, hns, rfl⟩, rfl⟩ | ⟨h, -⟩)
                  · exact ⟨m, hm, ns, hns, rfl⟩
                  · cases h
            | true =>
                simp only [bind_eq_ok_iff, pure_eq_ok_iff]
                simp [eq_comm]

/-- What the pieces behind `[then]` are read as, given that the scopes in them are read
exactly. -/
theorem thenClauseOf_eq_ok_iff_items {limit depth : Int} (hd : depth ≤ limit) (ps : List Piece)
    (hps : ∀ inside, .scope inside ∈ ps → ReadsExactly Foreign limit inside)
    (ts : List (Node Foreign)) (es : Option (List (Node Foreign))) :
    thenClauseOf limit depth ps = .ok (ts, es) ↔
      AreItems clauseWords ts ∧ IsElse (es.map .sequence) ∧
        piecesAll ts ++ elsePieces (es.map .sequence) = ps ∧
        depth + max (nestingAll ts) (elseNesting (es.map .sequence)) ≤ limit := by
  rw [thenClauseOf_eq_ok_iff]
  cases es with
  | none =>
      rw [elseClauseOf_eq_ok_iff hd ps hps]
      simp [IsElse, elsePieces, elseNesting]
  | some es =>
      simp only [Option.map_some, IsElse, IsClause, elsePieces, elseNesting, pieces_sequence,
        nesting_sequence]
      constructor
      · rintro (⟨h, -⟩ | ⟨xs, ys, ns, rfl, h, hxs, hys⟩)
        · cases h
        · obtain rfl := Option.some.inj h
          obtain ⟨hi, hp, hn⟩ := (elseClauseOf_eq_ok_iff hd xs
            (fun inside h => hps inside (List.mem_append_left _ h)) ts).mp hxs
          obtain ⟨hi', hp', hn'⟩ := (elseClauseOf_eq_ok_iff hd ys
            (fun inside h => hps inside (List.mem_append_right _ (List.mem_cons_of_mem _ h))) es).mp
            hys
          exact ⟨hi, hi', by rw [hp, hp'], by omega⟩
      · rintro ⟨hi, hi', rfl, hn⟩
        refine Or.inr ⟨piecesAll ts, piecesAll es, es, rfl, rfl, ?_, ?_⟩
        · exact (elseClauseOf_eq_ok_iff hd _
            (fun inside h => hps inside (List.mem_append_left _ h)) ts).mpr ⟨hi, rfl, by omega⟩
        · exact (elseClauseOf_eq_ok_iff hd _
            (fun inside h => hps inside (List.mem_append_right _ (List.mem_cons_of_mem _ h)))
            es).mpr ⟨hi', rfl, by omega⟩

/-- The trees of scopes that are no conditionals. -/
theorem plain_eq_ok_iff {limit depth : Int} (hd : depth ≤ limit) {ps : List Piece}
    (hps : ∀ inside, .scope inside ∈ ps → ReadsExactly Foreign limit inside)
    (ns : List (Node Foreign)) :
    isConditional ps = .ok false ∧ sequenceOf limit depth ps = .ok ns ↔
      (ns ≠ [] ∧ ns.head? ≠ some (.literal Keyword.ifWord.text) ∧ AreItems [] ns) ∧
        piecesAll ns = ps ∧ depth + nestingAll ns ≤ limit := by
  rw [sequenceOf_eq_ok_iff hd ps hps, isConditional_eq_false_iff]
  constructor
  · rintro ⟨⟨p, rest, rfl, hne⟩, hi, hp, hn⟩
    obtain ⟨n, ns, rfl, hone, -⟩ := hi.exists_cons hp
    refine ⟨⟨by simp, ?_, hi⟩, hp, hn⟩
    intro hhead
    obtain rfl : n = .literal Keyword.ifWord.text := by simpa using hhead
    exact hne (by simpa [eq_comm] using hone)
  · rintro ⟨⟨hne, hhead, hi⟩, rfl, hn⟩
    refine ⟨?_, hi, rfl, hn⟩
    match ns with
    | .literal t :: rest =>
        refine ⟨.word t, piecesAll rest, by simp, ?_⟩
        simpa using hhead
    | .sequence children :: rest => exact ⟨.scope (piecesAll children), piecesAll rest, by simp⟩
    | .conditional predicate a b :: rest => exact hi.elim
    | .foreign x :: rest => exact hi.elim

theorem pieces_ofClauses (predicate : List Text) (ts : List (Node Foreign))
    (es : Option (List (Node Foreign))) :
    (ofClauses predicate ts es).pieces =
      .word Keyword.ifWord.text :: (predicate.map .word ++ .word Keyword.thenWord.text ::
        (piecesAll ts ++ elsePieces (es.map .sequence))) := by
  simp [ofClauses, piecesAll, pieces]

/-- The trees of scopes that are conditionals. -/
theorem conditional_eq_ok_iff {limit depth : Int} (hd : depth ≤ limit) {ps : List Piece}
    (hps : ∀ inside, .scope inside ∈ ps → ReadsExactly Foreign limit inside)
    (predicate : List Text) (ts : List (Node Foreign)) (es : Option (List (Node Foreign))) :
    isConditional ps = .ok true ∧ predicateOf limit depth ps.tail = .ok (predicate, ts, es) ↔
      (IsPredicate predicate ∧ AreItems clauseWords ts ∧ IsElse (es.map .sequence)) ∧
        (ofClauses predicate ts es).pieces = ps ∧
        depth + (ofClauses predicate ts es).nesting ≤ limit := by
  have hnesting : (ofClauses predicate ts es).nesting =
      max (nestingAll ts) (elseNesting (es.map .sequence)) := by
    simp [ofClauses, nestingAll, nesting]
  rw [pieces_ofClauses, hnesting, isConditional_eq_true_iff]
  constructor
  · rintro ⟨⟨t, rest, rfl, hr, hmem⟩, hread⟩
    obtain ⟨qs, hsplit, hbar, hthen⟩ :=
      (predicateOf_eq_ok_iff limit depth (List.mem_cons_of_mem _ hmem) predicate ts es).mp hread
    have hinside : ∀ inside, .scope inside ∈ qs → ReadsExactly Foreign limit inside := by
      intro inside h
      refine hps inside (List.mem_cons_of_mem _ ?_)
      rw [hsplit]
      exact List.mem_append_right _ (List.mem_cons_of_mem _ h)
    obtain ⟨hi, he, hqs, hn⟩ := (thenClauseOf_eq_ok_iff_items hd qs hinside ts es).mp hthen
    -- the word behind `[if]` is not reserved, so it is the first one of the predicate
    have hfirst : ∃ w ws, predicate = w :: ws ∧ Keyword.isReserved w = false := by
      cases predicate with
      | nil =>
          obtain ⟨ht, -⟩ := List.cons.inj hsplit
          injection ht with ht
          exact absurd ht (ne_of_not_isReserved hr .thenWord)
      | cons w ws =>
          obtain ⟨ht, -⟩ := List.cons.inj hsplit
          injection ht with ht
          exact ⟨w, ws, rfl, ht ▸ hr⟩
    refine ⟨⟨⟨hfirst, hbar⟩, hi, he⟩, ?_, hn⟩
    rw [hqs, ← hsplit]
  · rintro ⟨⟨⟨⟨w, ws, rfl, hr⟩, hbar⟩, hi, he⟩, rfl, hn⟩
    refine ⟨⟨w, ws.map .word ++ .word Keyword.thenWord.text ::
      (piecesAll ts ++ elsePieces (es.map .sequence)), rfl, hr, by simp⟩, ?_⟩
    refine (predicateOf_eq_ok_iff limit depth (by simp) (w :: ws) ts es).mpr
      ⟨_, rfl, hbar, (thenClauseOf_eq_ok_iff_items hd _ ?_ ts es).mpr ⟨hi, he, rfl, hn⟩⟩
    intro inside h
    refine hps inside (List.mem_cons_of_mem _ ?_)
    exact List.mem_append_right _ (List.mem_cons_of_mem _ h)

/-- Well-formed trees are read from scopes in the two ways in which a scope is read. -/
theorem wellFormed_iff (n : Node Foreign) :
    n.WellFormed ↔
      (∃ ns, n = .sequence ns ∧ ns ≠ [] ∧ ns.head? ≠ some (.literal Keyword.ifWord.text) ∧
        AreItems [] ns) ∨
      ∃ predicate ts es, n = ofClauses predicate ts es ∧ IsPredicate predicate ∧
        AreItems clauseWords ts ∧ IsElse (es.map .sequence) := by
  constructor
  · intro h
    match n with
    | .literal t => exact h.elim
    | .conditional predicate a b => exact h.elim
    | .foreign x => exact h.elim
    | .sequence [] => exact h.elim
    | .sequence (.foreign x :: ns) => exact h.elim
    | .sequence (.literal t :: ns) =>
        exact Or.inl ⟨_, rfl, by simp, by simpa using h.1, by simp, h.2⟩
    | .sequence (.sequence children :: ns) =>
        exact Or.inl ⟨_, rfl, by simp, by simp, h⟩
    | .sequence (.conditional predicate a b :: ns) =>
        obtain ⟨rfl, hq, ha, hb⟩ := h
        obtain ⟨ts, rfl, hts⟩ := ha.exists_sequence
        obtain ⟨es, rfl⟩ := IsElse.exists_map hb
        exact Or.inr ⟨predicate, ts, es, rfl, hq, hts, hb⟩
  · rintro (⟨ns, rfl, hne, hhead, hi⟩ | ⟨predicate, ts, es, rfl, hq, hts, hes⟩)
    · match ns with
      | .literal t :: rest => exact ⟨by simpa using hhead, hi.2⟩
      | .sequence children :: rest => exact hi
      | .conditional predicate a b :: rest => exact hi.elim
      | .foreign x :: rest => exact hi.elim
    · exact ⟨rfl, hq, hts, hes⟩

/-- A scope is read exactly when the scopes in it are. -/
theorem readsExactly_of_inside (limit : Int) (ps : List Piece)
    (hps : ∀ inside, .scope inside ∈ ps → ReadsExactly Foreign limit inside) :
    ReadsExactly Foreign limit ps := by
  intro depth n
  rw [ofScope_eq_ok_cases, wellFormed_iff]
  constructor
  · rintro ⟨hd, ⟨hc, ns, hns, rfl⟩ | ⟨hc, predicate, ts, es, hread, rfl⟩⟩
    · obtain ⟨⟨hne, hhead, hi⟩, hp, hn⟩ := (plain_eq_ok_iff hd hps ns).mp ⟨hc, hns⟩
      exact ⟨Or.inl ⟨ns, rfl, hne, hhead, hi⟩, hp, hn⟩
    · obtain ⟨⟨hq, hts, hes⟩, hp, hn⟩ :=
        (conditional_eq_ok_iff hd hps predicate ts es).mp ⟨hc, hread⟩
      exact ⟨Or.inr ⟨predicate, ts, es, rfl, hq, hts, hes⟩, hp, hn⟩
  · rintro ⟨h, hp, hn⟩
    have hd : depth ≤ limit := by omega
    refine ⟨hd, ?_⟩
    rcases h with ⟨ns, rfl, hne, hhead, hi⟩ | ⟨predicate, ts, es, rfl, hq, hts, hes⟩
    · obtain ⟨hc, hns⟩ := (plain_eq_ok_iff hd hps ns).mpr ⟨⟨hne, hhead, hi⟩, hp, hn⟩
      exact Or.inl ⟨hc, ns, hns, rfl⟩
    · obtain ⟨hc, hread⟩ :=
        (conditional_eq_ok_iff hd hps predicate ts es).mpr ⟨⟨hq, hts, hes⟩, hp, hn⟩
      exact Or.inr ⟨hc, predicate, ts, es, hread, rfl⟩

/-- Every scope is read exactly. -/
theorem readsExactly (limit : Int) (ps : List Piece) : ReadsExactly Foreign limit ps :=
  Piece.scope_induction (readsExactly_of_inside limit) ps

/-- **Reading a scope loses nothing, and its image is exact.** A tree is read from a scope
exactly when it is well-formed, its scopes are nested no more deeply than the limit allows, and
it is written back as that scope. -/
theorem ofScope_eq_ok_iff (limit : Int) (ps : List Piece) (n : Node Foreign) :
    ofScope limit 0 ps = .ok n ↔ n.WellFormed ∧ n.pieces = ps ∧ (n.nesting : Int) ≤ limit := by
  rw [readsExactly limit ps 0 n, Int.zero_add]

end Node

end SqlTemplate
