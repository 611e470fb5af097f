import SqlTemplate.Node
import SqlTemplate.Outline
import SqlTemplate.Stack

set_option autoImplicit false

/-!
# The structure of a tree on display

The outline of a tree has one label for each literal, one for each conditional with one for each
of its branches under it, and one for each sequence that stands in another sequence. The
sequence at the top and the one of a branch have no label of their own.

A label is console markup, and the words of a template in it are plain text. How they are guarded so
that they show as they are is a matter of the console (`escape`).
-/

namespace SqlTemplate

namespace Node

variable {Foreign : Type}

section

variable (escape : Text → Text)

/-- The label of a word. -/
def literalLabel (t : Text) : Text := Markup.styled "green".toList (escape t)

/-- The label of a conditional with the given predicate. -/
def conditionalLabel (predicate : List Text) : Text :=
  Markup.styled "bold cyan".toList "if".toList ++ ' ' ::
    Markup.styled "yellow".toList (escape (Text.unwords predicate))

/-- The label above a whole tree. -/
def titleLabel (title : Text) : Text := Markup.styled "bold".toList (escape title)

end

/-- The label of the branch for a true predicate. -/
def thenLabel : Text := Markup.styled "bold cyan".toList "then".toList

/-- The label of the branch for a false predicate. -/
def elseLabel : Text := Markup.styled "bold cyan".toList "else".toList

/-- The label of a sequence inside another one. -/
def scopeLabel : Text := Markup.styled "dim".toList "scope".toList

mutual

/-- The outlines that show a tree, and the calls that make them, one for each node on the way down.
Something that is no expression cannot be shown. -/
def outlines (escape : Text → Text) : Node Foreign → Counted Foreign (List Outline)
  | .literal t => .leaf [.leaf (literalLabel escape t)]
  | .conditional predicate a b => .within 1 do
      let thenParts ← a.outlines escape
      let elsePart ← elseOutlines escape b
      return [.mk (conditionalLabel escape predicate) (.mk thenLabel thenParts :: elsePart)]
  | .sequence children => .within 1 (outlinesAll escape children)
  | .foreign x => .fail x

/-- The outline of a branch for a false predicate, which may be missing. -/
def elseOutlines (escape : Text → Text) : Option (Node Foreign) → Counted Foreign (List Outline)
  | none => pure []
  | some n => do
      let parts ← n.outlines escape
      return [.mk elseLabel parts]

/-- The outlines that show the nodes of a sequence. -/
def outlinesAll (escape : Text → Text) : List (Node Foreign) → Counted Foreign (List Outline)
  | [] => pure []
  | .sequence children :: ns => do
      let parts ← .within 1 (outlinesAll escape children)
      let rest ← outlinesAll escape ns
      return .mk scopeLabel parts :: rest
  | n :: ns => do
      let own ← n.outlines escape
      let rest ← outlinesAll escape ns
      return own ++ rest

end

/-- The title under which a tree is shown when none is given. -/
def defaultTitle : Text := "template".toList

/-- Why a tree has no outline. -/
inductive OutlineError (Foreign : Type) where
  -- the calls that make it nest more deeply than there is room for
  | exhausted
  -- something in the tree is no expression
  | foreign (thing : Foreign)

/-- The outline of a tree under a title, where so many calls can be nested. -/
def outline (escape : Text → Text) (room : Nat) (title : Text) (n : Node Foreign) :
    Except (OutlineError Foreign) Outline :=
  let parts := n.outlines escape
  if room < parts.calls + 1 then .error .exhausted
  else
    match parts.result with
    | .error x => .error (.foreign x)
    | .ok parts => .ok (.mk (titleLabel escape title) parts)

end Node

end SqlTemplate
