import SqlTemplate.Text

set_option autoImplicit false

/-!
# Expression trees

What a template means is a tree of literal words, conditionals and sequences. Callers may hand
in trees of their own that hold things which are no expressions at all; the type of such foreign
things is a parameter. With `Empty` in its place the tree has literals, conditionals and
sequences only, and that is the type of every tree read from a template.
-/

namespace SqlTemplate

/-- An expression tree that may hold foreign things of a given type. -/
inductive Node (Foreign : Type) where
  | literal (text : Text)
  | conditional (predicate : List Text) (thenBranch : Node Foreign)
      (elseBranch : Option (Node Foreign))
  | sequence (children : List (Node Foreign))
  | foreign (thing : Foreign)

namespace Node

/-- The tree without nodes. -/
def blank {Foreign : Type} : Node Foreign := .sequence []

instance {Foreign : Type} : Inhabited (Node Foreign) := ⟨blank⟩

mutual

/-- Changes the foreign things in a tree. -/
def map {α β : Type} (f : α → β) : Node α → Node β
  | .literal t => .literal t
  | .conditional predicate a b => .conditional predicate (a.map f) (mapOption f b)
  | .sequence children => .sequence (mapAll f children)
  | .foreign x => .foreign (f x)

/-- Changes the foreign things in a branch that may be missing. -/
def mapOption {α β : Type} (f : α → β) : Option (Node α) → Option (Node β)
  | none => none
  | some n => some (n.map f)

/-- Changes the foreign things in trees. -/
def mapAll {α β : Type} (f : α → β) : List (Node α) → List (Node β)
  | [] => []
  | n :: ns => n.map f :: mapAll f ns

end

/-- Structural induction on trees: a property of every branch of a conditional and of every node
of a sequence may be assumed of the conditional and of the sequence. -/
@[elab_as_elim, induction_eliminator]
theorem induction {Foreign : Type} {P : Node Foreign → Prop}
    (literal : ∀ text, P (.literal text))
    (conditional : ∀ predicate thenBranch elseBranch, P thenBranch →
      (∀ n, elseBranch = some n → P n) → P (.conditional predicate thenBranch elseBranch))
    (sequence : ∀ children, (∀ n ∈ children, P n) → P (.sequence children))
    (foreign : ∀ thing, P (.foreign thing)) : ∀ n, P n
  | .literal t => literal t
  | .conditional predicate a none =>
      conditional predicate a none (induction literal conditional sequence foreign a)
        (fun _ h => by cases h)
  | .conditional predicate a (some b) =>
      conditional predicate a (some b) (induction literal conditional sequence foreign a)
        (fun _ h => by cases h; exact induction literal conditional sequence foreign b)
  | .sequence children =>
      sequence children fun n _ => induction literal conditional sequence foreign n
  | .foreign x => foreign x

/-- Structural induction on trees together with their parts: a branch that may be missing and the
trees of a sequence each have a property of their own. -/
@[elab_as_elim]
theorem parts_induction {Foreign : Type} {P : Node Foreign → Prop}
    (E : Option (Node Foreign) → Prop) (C : List (Node Foreign) → Prop)
    (literal : ∀ text, P (.literal text))
    (conditional : ∀ predicate thenBranch elseBranch, P thenBranch → E elseBranch →
      P (.conditional predicate thenBranch elseBranch))
    (sequence : ∀ children, C children → P (.sequence children))
    (foreign : ∀ thing, P (.foreign thing))
    (none : E none) (some : ∀ n, P n → E (some n))
    (nil : C []) (cons : ∀ n ns, P n → C ns → C (n :: ns)) (n : Node Foreign) : P n :=
  Node.rec literal conditional sequence foreign none some nil cons n

end Node

end SqlTemplate
