import SqlTemplate.Node.Evaluation
import SqlTemplate.Node.Shape
import SqlTemplate.Scope.Reader

set_option autoImplicit false

/-!
# What can go wrong in an expansion

An expansion goes through stages, and an error of a stage says by its kind which stage it was, or
names it when the stage nested its calls too deeply. Arguments that cannot be used are found before
the first stage, and an expander that makes no sense is refused before there is anything to expand.
A value that has no text is the one failure that is no error of the stage it comes up in.
-/

namespace SqlTemplate

/-- The stages of an expansion that can fail. -/
inductive Stage where
  | scopes
  | tree
  | arguments
  deriving DecidableEq, Repr

/-- How a stage is called in messages. -/
def Stage.name : Stage → Text
  | .scopes => "tokenizing".toList
  | .tree => "building AST".toList
  | .arguments => "substituting args".toList

/-- Why a stage failed. -/
inductive StageError where
  | imbalance (reason : Imbalance)
  | shape (reason : ShapeError)
  | predicate (reason : PredicateError)
  -- the calls of the stage nest more deeply than there is room for
  | exhausted (stage : Stage)
  deriving DecidableEq, Repr

namespace StageError

/-- The stage that fails in this way. -/
def stage : StageError → Stage
  | .imbalance _ => .scopes
  | .shape _ => .tree
  | .predicate _ => .arguments
  | .exhausted stage => stage

/-- What the stage itself says. -/
def reasonMessage : StageError → Text
  | .imbalance e => e.message
  | .shape e => e.message
  | .predicate e => e.message
  | .exhausted _ => "nesting too deep for the interpreter stack".toList

/-- What is reported to the user. -/
def message (e : StageError) : Text := e.stage.name ++ ": ".toList ++ e.reasonMessage

end StageError

/-- Why an expansion failed. -/
inductive ExpansionError where
  | args (reason : UnsupportedArgs)
  | stage (reason : StageError)
  -- a value that a word stands for has no text
  | noText (fault : FormatFault)
  -- the tree could not be evaluated. No tree that went through substitution is such a one
  | evaluation (reason : EvaluationError Empty)
  deriving DecidableEq

/-- What is reported to the user. -/
def ExpansionError.message : ExpansionError → Text
  | .args e => e.message
  | .stage e => e.message
  | .noText fault => fault.message
  | .evaluation e => e.message Empty.elim

/-- How an expansion fails when the substitution in its tree stops. Nothing but expressions stands
in a tree that is read from a template. -/
def ExpansionError.ofSubstitution : SubstitutionError Empty → ExpansionError
  | .predicate reason => .stage (.predicate reason)
  | .noText fault => .noText fault
  | .foreign x => x.elim

/-- Why an expander cannot be set up. -/
inductive SetupError where
  | emptyMarker
  | depthBelowOne
  deriving DecidableEq, Repr

/-- What is reported to the user. -/
def SetupError.message : SetupError → Text
  | .emptyMarker => "Variable marker cannot be empty".toList
  | .depthBelowOne => "Maximum nesting depth must be at least 1".toList

end SqlTemplate
