import SqlTemplate.Expander.Failure
import SqlTemplate.Node.Calls

set_option autoImplicit false

/-!
# Expansion of templates

An expander takes a template to its text in stages: the words are read for their scopes, the
scopes become a tree, the arguments are substituted in the tree, and the tree is evaluated. The
first stage that fails ends the expansion, and the error says which stage it was. Without
arguments a template is its own expansion.
-/

namespace SqlTemplate

/-- How templates are expanded. -/
structure Expander where
  -- what stands in front of a name that is to be looked up
  marker : Text := ".".toList
  -- whether delimiters that do not balance are refused
  strict : Bool := true
  -- how deeply scopes may be nested
  maxDepth : Int := 200
  -- how many calls a stage can nest
  room : Nat := Stack.room
  deriving DecidableEq

namespace Expander

/-- Sets up an expander with a marker that is not empty and room for a nested scope. -/
def create (marker : Text) (strict : Bool) (maxDepth : Int) (room : Nat := Stack.room) :
    Except SetupError Expander :=
  if marker.isEmpty then .error .emptyMarker
  else if maxDepth < 1 then .error .depthBelowOne
  else .ok { marker, strict, maxDepth, room }

/-- The tree of the pieces of a template. -/
def treeOf (p : Expander) (pieces : List Piece) : Except StageError (Node Empty) :=
  if p.room < Node.readingCalls p.maxDepth 0 (.scope pieces) then .error (.exhausted .tree)
  else
    match Node.ofScope p.maxDepth 0 pieces with
    | .error e => .error (.shape e)
    | .ok tree => .ok tree

/-- Reads a template up to its tree. -/
def build (p : Expander) (template : Text) : Except StageError (Node Empty) :=
  match Reading.ofTemplate p.strict template with
  | .error e => .error (.imbalance e)
  | .ok reading => p.treeOf reading.pieces

/-- The tree with the arguments of a lookup table in it. -/
def substituted (p : Expander) (table : Lookup) (tree : Node Empty) :
    Except ExpansionError (Node Empty) :=
  if p.room < tree.substitutionCalls table then .error (.stage (.exhausted .arguments))
  else
    match tree.substitute table with
    | (tree', none) => .ok tree'
    | (_, some e) => .error (.ofSubstitution e)

/-- The text of a template with the arguments of a lookup table. The tree is evaluated without a
look at the stack, since evaluation nests its calls no deeper than the substitution before it. -/
def applyTable (p : Expander) (template : Text) (table : Lookup) :
    Except ExpansionError Text :=
  match p.build template with
  | .error e => .error (.stage e)
  | .ok tree =>
      match p.substituted table tree with
      | .error e => .error e
      | .ok tree' =>
          match tree'.evaluate with
          | .error e => .error (.evaluation e)
          | .ok text => .ok text

/-- The text of a template with arguments; without arguments it is the template. -/
def apply (p : Expander) (template : Text) : Value → Except ExpansionError Text
  | .none => .ok template
  | args =>
      match Lookup.ofArgs p.marker args with
      | .error e => .error (.args e)
      | .ok table => p.applyTable template table

end Expander

/-- The outcome of an expansion as it is reported: the text, or the message of what failed. -/
structure Expansion where
  -- the text, empty after a failure
  text : Text
  error : Option Text
  deriving DecidableEq

namespace Expansion

/-- Whether the expansion succeeded. -/
def success (e : Expansion) : Bool := e.error.isNone

end Expansion

/-- Expands a template and reports the outcome, unless a value that it needs has no text. -/
def Expander.expand (p : Expander) (template : Text) (args : Value) :
    Except FormatFault Expansion :=
  match p.apply template args with
  | .ok text => .ok ⟨text, none⟩
  | .error (.noText fault) => .error fault
  | .error e => .ok ⟨[], some e.message⟩

end SqlTemplate
