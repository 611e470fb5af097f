import SqlTemplate.Node
import SqlTemplate.Number.Decimal
import SqlTemplate.Scope

set_option autoImplicit false

/-!
# From scopes to expression trees

A scope that starts with `[if]` is a conditional: its predicate stands before `[then]`, the
nodes for a true predicate behind it, and those for a false one behind an optional `[else]`.
Any other scope is a sequence, and in it the same words are plain text. Each scope gives one
sequence node; that of a conditional has the conditional as its only child.

A scope is first looked at as a whole (`isConditional`) and then read piece by piece, nested
scopes where they stand, so the error reported is the first one met in this order.
-/

namespace SqlTemplate

/-- Why a scope cannot be read as an expression. -/
inductive ShapeError where
  | emptyScope
  -- what follows `[if]` is no predicate
  | missingPredicate
  | missingThen
  | scopeInPredicate
  | repeatedThen
  | elseBeforeThen
  | repeatedElse
  | tooDeep (limit : Int)
  deriving DecidableEq, Repr

namespace ShapeError

/-- What is reported to the user. -/
def message : ShapeError → Text
  | .emptyScope => "expression with empty token list".toList
  | .missingPredicate => Keyword.ifWord.text ++ " must be followed by a predicate".toList
  | .missingThen =>
      Keyword.ifWord.text ++ " must be followed by a ".toList ++ Keyword.thenWord.text
        ++ " clause".toList
  | .scopeInPredicate =>
      "nested expression inside ".toList ++ Keyword.ifWord.text ++ " predicate".toList
  | .repeatedThen => "duplicate ".toList ++ Keyword.thenWord.text ++ " in conditional".toList
  | .elseBeforeThen =>
      Keyword.elseWord.text ++ " before ".toList ++ Keyword.thenWord.text
        ++ " in conditional".toList
  | .repeatedElse => "duplicate ".toList ++ Keyword.elseWord.text ++ " in conditional".toList
  | .tooDeep limit =>
      "nesting too deep: more than ".toList ++ Decimal.ofInt limit ++ " nested scopes".toList

end ShapeError

/-- Whether the pieces of a scope make a conditional. Those of a conditional are checked for a
predicate word behind `[if]` and for a `[then]`. -/
def isConditional : List Piece → Except ShapeError Bool
  | [] => .error .emptyScope
  | first :: rest =>
      if !first.isKeyword .ifWord then .ok false
      else
        match rest with
        | .word t :: _ =>
            if Keyword.isReserved t then .error .missingPredicate
            else if rest.any (Piece.isKeyword .thenWord) then .ok true
            else .error .missingThen
        | _ => .error .missingPredicate

namespace Node

variable {Foreign : Type}

/-- The tree of a conditional: its predicate and the nodes of its clauses. -/
def ofClauses (predicate : List Text) (thenNodes : List (Node Foreign))
    (elseNodes : Option (List (Node Foreign))) : Node Foreign :=
  .sequence [.conditional predicate (.sequence thenNodes) (elseNodes.map .sequence)]

mutual

/-- The tree of a piece. `depth` counts the scopes around the piece, and that of a scope may
not be above `limit`. -/
def ofPiece (limit depth : Int) : Piece → Except ShapeError (Node Foreign)
  | .word t => .ok (.literal t)
  | .scope [] => .error (if limit < depth then .tooDeep limit else .emptyScope)
  | .scope (first :: rest) =>
      if limit < depth then .error (.tooDeep limit)
      else
        match isConditional (first :: rest) with
        | .error e => .error e
        | .ok true => do
            let (predicate, thenNodes, elseNodes) ← predicateOf limit depth rest
            return ofClauses predicate thenNodes elseNodes
        | .ok false => do
            let node ← ofPiece limit (depth + 1) first
            let nodes ← sequenceOf limit depth rest
            return .sequence (node :: nodes)

/-- The trees of the pieces of a scope of the given depth. -/
def sequenceOf (limit depth : Int) : List Piece → Except ShapeError (List (Node Foreign))
  | [] => .ok []
  | p :: ps => do
      let node ← ofPiece limit (depth + 1) p
      let nodes ← sequenceOf limit depth ps
      return node :: nodes

/-- Reads a conditional from its predicate on: the predicate, the nodes of the then clause, and
those of the else clause if there is one. -/
def predicateOf (limit depth : Int) : List Piece →
    Except ShapeError (List Text × List (Node Foreign) × Option (List (Node Foreign)))
  | [] => .ok ([], [], none)
  | .scope _ :: _ => .error .scopeInPredicate
  | .word t :: ps =>
      if t = Keyword.thenWord.text then do
        let (thenNodes, elseNodes) ← thenClauseOf limit depth ps
        return ([], thenNodes, elseNodes)
      else if t = Keyword.elseWord.text then .error .elseBeforeThen
      else do
        let (predicate, thenNodes, elseNodes) ← predicateOf limit depth ps
        return (t :: predicate, thenNodes, elseNodes)

/-- Reads a conditional from its then clause on. -/
def thenClauseOf (limit depth : Int) : List Piece →
    Except ShapeError (List (Node Foreign) × Option (List (Node Foreign)))
  | [] => .ok ([], none)
  | .scope inside :: ps => do
      let node ← ofPiece limit (depth + 1) (.scope inside)
      let (thenNodes, elseNodes) ← thenClauseOf limit depth ps
      return (node :: thenNodes, elseNodes)
  | .word t :: ps =>
      if t = Keyword.thenWord.text then .error .repeatedThen
      else if t = Keyword.elseWord.text then do
        let elseNodes ← elseClauseOf limit depth ps
        return ([], some elseNodes)
      else do
        let (thenNodes, elseNodes) ← thenClauseOf limit depth ps
        return (.literal t :: thenNodes, elseNodes)

/-- Reads a conditional from its else clause on. -/
def elseClauseOf (limit depth : Int) :
    List Piece → Except ShapeError (List (Node Foreign))
  | [] => .ok []
  | .scope inside :: ps => do
      let node ← ofPiece limit (depth + 1) (.scope inside)
      let elseNodes ← elseClauseOf limit depth ps
      return node :: elseNodes
  | .word t :: ps =>
      if t = Keyword.thenWord.text then .error .repeatedThen
      else if t = Keyword.elseWord.text then .error .repeatedElse
      else do
        let elseNodes ← elseClauseOf limit depth ps
        return .literal t :: elseNodes

end

/-- The tree of a scope whose first piece is taken for `[if]`, whatever it is. -/
def ofConditional (limit depth : Int) (pieces : List Piece) :
    Except ShapeError (Node Foreign) := do
  let (predicate, thenNodes, elseNodes) ← predicateOf limit depth pieces.tail
  return ofClauses predicate thenNodes elseNodes

/-- The tree of a scope of the given depth. -/
def ofScope (limit depth : Int) (pieces : List Piece) : Except ShapeError (Node Foreign) :=
  ofPiece limit depth (.scope pieces)

end Node

end SqlTemplate
