import SqlTemplate.Lookup
import SqlTemplate.Node
import SqlTemplate.Text.Case

set_option autoImplicit false

/-!
# Substitution

Substitution replaces every word of a tree that is a key of the lookup table by the text of its
value, and checks that every predicate is then one of the words for true and false. It goes
through the tree in the order of the template, a predicate before its branches, and looks each
word up once: a replacement is never looked up again. It stops at the first predicate that is no
truth value and at the first word whose value has no text. What was replaced up to that point stays
replaced, so the outcome is a tree together with the error, if there was one.
-/

namespace SqlTemplate

/-- Why a predicate is refused. -/
inductive PredicateError where
  | empty
  | several (words : List Text)
  | notTruth (word : Text)
  deriving DecidableEq, Repr

/-- What is reported to the user. -/
def PredicateError.message : PredicateError → Text
  | .empty => "predicate expression not found".toList
  | .several ws => "multi-token predicate is not supported: ".toList ++ Text.unwords ws
  | .notTruth w => "predicate must be a boolean expression, got '".toList ++ w ++ "'".toList

/-- Why a substitution stops. -/
inductive SubstitutionError (Foreign : Type) where
  | predicate (reason : PredicateError)
  -- the value that a word stands for has no text
  | noText (fault : FormatFault)
  | foreign (thing : Foreign)

/-- The message about something in a tree that is no expression, given the name of its type. -/
def foreignMessage (typeName : Text) : Text := "Unknown AST node type: ".toList ++ typeName

/-- What became of something that substitution went through, and the error at which it
stopped. -/
abbrev Substituted (α Foreign : Type) := α × Option (SubstitutionError Foreign)

/-- Replaces and checks a predicate. The word that was looked up stays replaced even when it
turns out to be no truth value. -/
def substitutePredicate {Foreign : Type} (table : Lookup) :
    List Text → Substituted (List Text) Foreign
  | [] => ([], some (.predicate .empty))
  | [w] =>
      let r := table.replace w
      match table.fault? w with
      | some fault => ([r], some (.noText fault))
      | none => ([r], if r.truth?.isSome then none else some (.predicate (.notTruth r)))
  | ws => (ws, some (.predicate (.several ws)))

namespace Node

variable {Foreign : Type}

mutual

/-- Substitutes in a tree. -/
def substitute (table : Lookup) : Node Foreign → Substituted (Node Foreign) Foreign
  | .literal t => (.literal (table.replace t), (table.fault? t).map .noText)
  | .conditional predicate a b =>
      match substitutePredicate table predicate with
      | (p, some e) => (.conditional p a b, some e)
      | (p, none) =>
          match a.substitute table with
          | (a', some e) => (.conditional p a' b, some e)
          | (a', none) =>
              let (b', e) := substituteOption table b
              (.conditional p a' b', e)
  | .sequence children =>
      let (cs, e) := substituteAll table children
      (.sequence cs, e)
  | .foreign x => (.foreign x, some (.foreign x))

/-- Substitutes in a branch that may be missing. -/
def substituteOption (table : Lookup) :
    Option (Node Foreign) → Substituted (Option (Node Foreign)) Foreign
  | none => (none, none)
  | some n =>
      let (n', e) := n.substitute table
      (some n', e)

/-- Substitutes in trees one after another, up to the first error. -/
def substituteAll (table : Lookup) :
    List (Node Foreign) → Substituted (List (Node Foreign)) Foreign
  | [] => ([], none)
  | n :: ns =>
      match n.substitute table with
      | (n', some e) => (n' :: ns, some e)
      | (n', none) =>
          let (ns', e) := substituteAll table ns
          (n' :: ns', e)

end

end Node

end SqlTemplate
