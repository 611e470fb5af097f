import SqlTemplate.Node.Shape
import SqlTemplate.Node.Substitution

set_option autoImplicit false

/-!
# How deeply the stages nest their calls

Scopes are read by calls inside calls, one for a plain scope and two for a conditional. Substitution
and the display of a tree make one call for each node on the way down to the one they are at, and
substitution makes further ones there for the values it looks up. The file counts these calls, those
of a stage that fails up to its first error.
-/

namespace SqlTemplate

namespace Node

variable {Foreign : Type}

/-! ## The height of a tree -/

mutual

/-- The number of nodes on the longest way down a tree. -/
def height : Node Foreign → Nat
  | .literal _ => 1
  | .conditional _ a b => max a.height (elseHeight b) + 1
  | .sequence children => heightAll children + 1
  | .foreign _ => 1

/-- The height of a branch, zero when the branch is missing. -/
def elseHeight : Option (Node Foreign) → Nat
  | none => 0
  | some n => n.height

/-- The height of the highest one among trees, zero when there is none. -/
def heightAll : List (Node Foreign) → Nat
  | [] => 0
  | n :: ns => max n.height (heightAll ns)

end

/-! ## Reading scopes -/

/-- How far the reading of a scope has got. -/
inductive Reach where
  -- the first piece has not been read yet
  | start
  -- the scope is no conditional
  | plain
  | predicate
  | thenClause
  | elseClause
  deriving DecidableEq

/-- How far the reading of a scope has got behind a word, if the word is no error there. -/
def Reach.behind (t : Text) : Reach → Option Reach
  | .start => some .predicate
  | .plain => some .plain
  | .predicate =>
      if t = Keyword.thenWord.text then some .thenClause
      else if t = Keyword.elseWord.text then none
      else some .predicate
  | .thenClause =>
      if t = Keyword.thenWord.text then none
      else if t = Keyword.elseWord.text then some .elseClause
      else some .thenClause
  | .elseClause =>
      if t = Keyword.thenWord.text then none
      else if t = Keyword.elseWord.text then none
      else some .elseClause

mutual

/-- How deeply the calls nest that read a piece, up to the first error. The arguments are those of
`ofPiece`. -/
def readingCalls (limit depth : Int) : Piece → Nat
  | .word _ => 0
  | .scope pieces =>
      if limit < depth then 1
      else
        match isConditional pieces with
        | .error _ => 1
        | .ok true => readingCallsFrom limit depth .start pieces + 2
        | .ok false => readingCallsFrom limit depth .plain pieces + 1

/-- How deeply the calls nest that read the pieces of a scope from where the reading has got to. -/
def readingCallsFrom (limit depth : Int) (reach : Reach) : List Piece → Nat
  | [] => 0
  | .word t :: ps =>
      match reach.behind t with
      | some reach' => readingCallsFrom limit depth reach' ps
      | none => 0
  | .scope inside :: ps =>
      if reach = .predicate then 0
      else
        let calls := readingCalls limit (depth + 1) (.scope inside)
        match (ofPiece limit (depth + 1) (.scope inside) : Except ShapeError (Node Empty)) with
        | .ok _ => max calls (readingCallsFrom limit depth reach ps)
        | .error _ => calls

end

/-! ## Substitution -/

/-- How deeply the calls nest that replace and check a predicate: one, and in it those for the value
of its word. -/
def predicateCalls (table : Lookup) : List Text → Nat
  | [w] => (table.resolve w).calls + 1
  | _ => 1

mutual

/-- How deeply the calls of a substitution nest, up to the first error. -/
def substitutionCalls (table : Lookup) : Node Foreign → Nat
  | .literal t => (table.resolve t).calls + 1
  | .conditional predicate a b =>
      (match (substitutePredicate table predicate : Substituted (List Text) Foreign) with
        | (_, some _) => predicateCalls table predicate
        | (_, none) =>
            max (predicateCalls table predicate)
              (match a.substitute table with
                | (_, some _) => a.substitutionCalls table
                | (_, none) => max (a.substitutionCalls table) (elseSubstitutionCalls table b)))
        + 1
  | .sequence children => substitutionCallsAll table children + 1
  | .foreign _ => 1

/-- How deeply the calls of a substitution in a branch nest, zero when the branch is missing. -/
def elseSubstitutionCalls (table : Lookup) : Option (Node Foreign) → Nat
  | none => 0
  | some n => n.substitutionCalls table

/-- How deeply the calls of a substitution in trees one after another nest. -/
def substitutionCallsAll (table : Lookup) : List (Node Foreign) → Nat
  | [] => 0
  | n :: ns =>
      match n.substitute table with
      | (_, some _) => n.substitutionCalls table
      | (_, none) => max (n.substitutionCalls table) (substitutionCallsAll table ns)

end

end Node

end SqlTemplate
