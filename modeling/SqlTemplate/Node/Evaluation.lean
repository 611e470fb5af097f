import SqlTemplate.Node.Substitution

set_option autoImplicit false

/-!
# Evaluation

The text of a tree: a literal is its word, a sequence the texts of its nodes without the empty
ones and with single spaces between them, and a conditional the text of the branch that its
predicate selects. Only the first word of a predicate counts, and every word but `true`, in any
case, selects the else branch. After a successful substitution the predicate is one word for
true or false.
-/

namespace SqlTemplate

/-- Why a tree has no text. -/
inductive EvaluationError (Foreign : Type) where
  | emptyPredicate
  | foreign (thing : Foreign)
  deriving DecidableEq

/-- What is reported to the user; `typeName` names the type of something foreign. -/
def EvaluationError.message {Foreign : Type} (typeName : Foreign → Text) :
    EvaluationError Foreign → Text
  | .emptyPredicate => "list index out of range".toList
  | .foreign x => foreignMessage (typeName x)

namespace Node

variable {Foreign : Type}

mutual

/-- The text of a tree. -/
def evaluate : Node Foreign → Except (EvaluationError Foreign) Text
  | .literal t => .ok t
  | .conditional [] _ _ => .error .emptyPredicate
  | .conditional (w :: _) a b =>
      if w.truth? = some true then a.evaluate else evaluateOption b
  | .sequence children => do
      let texts ← evaluateAll children
      return Text.spaced texts
  | .foreign x => .error (.foreign x)

/-- The text of a branch, which is empty when the branch is missing. -/
def evaluateOption : Option (Node Foreign) → Except (EvaluationError Foreign) Text
  | none => .ok []
  | some n => n.evaluate

/-- The texts of trees. -/
def evaluateAll : List (Node Foreign) → Except (EvaluationError Foreign) (List Text)
  | [] => .ok []
  | n :: ns => do
      let t ← n.evaluate
      let ts ← evaluateAll ns
      return t :: ts

end

end Node

end SqlTemplate
