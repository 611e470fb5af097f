import SqlTemplate.Node
import SqlTemplate.Scope

set_option autoImplicit false

/-! # Trees as pieces of scopes

A tree that is read from a scope can be written back. `Node.pieces` gives the pieces of the scope,
`Node.nesting` says how deeply scopes are nested in it, and `Node.WellFormed` describes the trees
that some scope is read as: a word that is plain text in one place has a meaning of its own in
another, so not every tree is one of them.
-/

namespace SqlTemplate

namespace Node

variable {Foreign : Type}

/-! ## A tree as the pieces of a scope -/

mutual

/-- The pieces that a tree stands for. -/
def pieces : Node Foreign → List Piece
  | .literal t => [.word t]
  | .conditional predicate a b =>
      .word Keyword.ifWord.text :: (predicate.map .word ++
        .word Keyword.thenWord.text :: (a.pieces ++ elsePieces b))
  | .sequence children => piecesAll children
  | .foreign _ => []

/-- The pieces of a branch for a false predicate, with the word in front of it. -/
def elsePieces : Option (Node Foreign) → List Piece
  | none => []
  | some n => .word Keyword.elseWord.text :: n.pieces

/-- The pieces that the nodes of a sequence stand for: a sequence among them is a scope. -/
def piecesAll : List (Node Foreign) → List Piece
  | [] => []
  | .sequence children :: ns => .scope (piecesAll children) :: piecesAll ns
  | n :: ns => n.pieces ++ piecesAll ns

end

@[simp] theorem pieces_sequence (ns : List (Node Foreign)) :
    (Node.sequence ns).pieces = piecesAll ns := by
  simp only [pieces]

@[simp] theorem piecesAll_nil : piecesAll ([] : List (Node Foreign)) = [] := by
  simp only [piecesAll]

@[simp] theorem piecesAll_literal (t : Text) (ns : List (Node Foreign)) :
    piecesAll (.literal t :: ns) = .word t :: piecesAll ns := by
  simp [piecesAll, pieces]

@[simp] theorem piecesAll_sequence (children ns : List (Node Foreign)) :
    piecesAll (.sequence children :: ns) = .scope (piecesAll children) :: piecesAll ns := by
  simp only [piecesAll]

mutual

/-- How many scopes are nested in one another inside a tree. The sequence at the top of a tree
and the one of a branch are no scopes of their own. -/
def nesting : Node Foreign → Nat
  | .literal _ => 0
  | .conditional _ a b => max a.nesting (elseNesting b)
  | .sequence children => nestingAll children
  | .foreign _ => 0

/-- The nesting inside a branch for a false predicate. -/
def elseNesting : Option (Node Foreign) → Nat
  | none => 0
  | some n => n.nesting

/-- The nesting of the nodes of a sequence, where a sequence among them is a scope. -/
def nestingAll : List (Node Foreign) → Nat
  | [] => 0
  | .sequence children :: ns => max (nestingAll children + 1) (nestingAll ns)
  | n :: ns => max n.nesting (nestingAll ns)

end

@[simp] theorem nesting_sequence (ns : List (Node Foreign)) :
    (Node.sequence ns).nesting = nestingAll ns := by
  simp only [nesting]

@[simp] theorem nestingAll_nil : nestingAll ([] : List (Node Foreign)) = 0 := by
  simp only [nestingAll]

@[simp] theorem nestingAll_literal (t : Text) (ns : List (Node Foreign)) :
    nestingAll (.literal t :: ns) = nestingAll ns := by
  simp [nestingAll, nesting]

@[simp] theorem nestingAll_sequence (children ns : List (Node Foreign)) :
    nestingAll (.sequence children :: ns) = max (nestingAll children + 1) (nestingAll ns) := by
  simp only [nestingAll]

/-! ## Well-formed trees -/

/-- The words that start a clause of a conditional. In the predicate and in the clauses they are
no text. -/
def clauseWords : List Text := [Keyword.thenWord.text, Keyword.elseWord.text]

/-- The words that can stand before `[then]`: at least one, the first of them not reserved, and
none that starts a clause. -/
def IsPredicate (predicate : List Text) : Prop :=
  (∃ w ws, predicate = w :: ws ∧ Keyword.isReserved w = false) ∧
    ∀ w ∈ predicate, w ∉ clauseWords

mutual

/-- Whether nodes are those of a scope: a conditional alone, or words and scopes of which the
first is not `[if]`. -/
def AreScope : List (Node Foreign) → Prop
  | [] => False
  | .literal t :: ns => t ≠ Keyword.ifWord.text ∧ AreItems [] ns
  | .conditional predicate a b :: ns => ns = [] ∧ IsPredicate predicate ∧ a.IsClause ∧ IsElse b
  | .sequence children :: ns => AreScope children ∧ AreItems [] ns
  | .foreign _ :: _ => False

/-- Whether nodes are words, none of them barred, and sequences whose nodes are those of a
scope. -/
def AreItems (barred : List Text) : List (Node Foreign) → Prop
  | [] => True
  | .literal t :: ns => t ∉ barred ∧ AreItems barred ns
  | .conditional _ _ _ :: _ => False
  | .sequence children :: ns => AreScope children ∧ AreItems barred ns
  | .foreign _ :: _ => False

/-- Whether a tree is a clause: a sequence, maybe empty, of scopes and of words that start no
clause. -/
def IsClause : Node Foreign → Prop
  | .literal _ => False
  | .conditional _ _ _ => False
  | .sequence children => AreItems clauseWords children
  | .foreign _ => False

/-- Whether a branch that may be missing is a clause if it is there. -/
def IsElse : Option (Node Foreign) → Prop
  | none => True
  | some n => n.IsClause

end

/-- Whether a tree is a sequence whose nodes are those of a scope. -/
def WellFormed : Node Foreign → Prop
  | .sequence children => AreScope children
  | _ => False

/-! ## Items, one by one -/

theorem areItems_cons_iff (barred : List Text) (n : Node Foreign) (ns : List (Node Foreign)) :
    AreItems barred (n :: ns) ↔ AreItems barred [n] ∧ AreItems barred ns := by
  cases n <;> simp [AreItems]

theorem piecesAll_cons (n : Node Foreign) (ns : List (Node Foreign)) :
    piecesAll (n :: ns) = piecesAll [n] ++ piecesAll ns := by
  cases n <;> simp [piecesAll]

theorem nestingAll_cons (n : Node Foreign) (ns : List (Node Foreign)) :
    nestingAll (n :: ns) = max (nestingAll [n]) (nestingAll ns) := by
  cases n <;> simp [nestingAll]

theorem AreItems.eq_nil {barred : List Text} {ns : List (Node Foreign)}
    (h : AreItems barred ns) (hp : piecesAll ns = []) : ns = [] := by
  match ns with
  | [] => rfl
  | .literal t :: rest => simp at hp
  | .sequence children :: rest => simp at hp
  | .conditional predicate a b :: rest => exact h.elim
  | .foreign x :: rest => exact h.elim

/-- Each item is written back as one piece. -/
theorem AreItems.exists_cons {barred : List Text} {ns : List (Node Foreign)} {p : Piece}
    {ps : List Piece} (h : AreItems barred ns) (hp : piecesAll ns = p :: ps) :
    ∃ n rest, ns = n :: rest ∧ piecesAll [n] = [p] ∧ piecesAll rest = ps := by
  match ns with
  | [] => simp at hp
  | .literal t :: rest =>
      obtain ⟨rfl, rfl⟩ := List.cons.inj (piecesAll_literal t rest ▸ hp)
      exact ⟨.literal t, rest, rfl, by simp, rfl⟩
  | .sequence children :: rest =>
      obtain ⟨rfl, rfl⟩ := List.cons.inj (piecesAll_sequence children rest ▸ hp)
      exact ⟨.sequence children, rest, rfl, by simp, rfl⟩
  | .conditional predicate a b :: rest => exact h.elim
  | .foreign x :: rest => exact h.elim

theorem IsClause.exists_sequence {n : Node Foreign} (h : n.IsClause) :
    ∃ ns, n = .sequence ns ∧ AreItems clauseWords ns := by
  cases n with
  | sequence ns => exact ⟨ns, rfl, h⟩
  | literal t => exact h.elim
  | conditional predicate a b => exact h.elim
  | foreign x => exact h.elim

theorem IsElse.exists_map {b : Option (Node Foreign)} (h : IsElse b) :
    ∃ es : Option (List (Node Foreign)), b = es.map .sequence := by
  cases b with
  | none => exact ⟨none, rfl⟩
  | some n =>
      obtain ⟨ns, rfl, -⟩ := IsClause.exists_sequence h
      exact ⟨some ns, rfl⟩

end Node

end SqlTemplate
