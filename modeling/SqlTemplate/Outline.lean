import SqlTemplate.Text.Markup

set_option autoImplicit false

/-!
# Outlines

An outline is a tree of labels, the form in which the structure of a template is shown. A label
is console markup. The file also prints an outline as lines with guides that lead from each
label to the labels under it.
-/

namespace SqlTemplate

/-- A label and the outlines under it. -/
inductive Outline where
  | mk (label : Text) (parts : List Outline)

namespace Outline

/-- An outline with nothing under its label. -/
def leaf (label : Text) : Outline := .mk label []

/-- The lines of an outline that hangs from a guide: the guide's end before the first line and
its continuation before the others. -/
def hang (joint : Text) (guide : Text) : List Text → List Text
  | [] => []
  | l :: ls => (joint ++ l) :: ls.map (guide ++ ·)

mutual

/-- The lines of an outline. -/
def lines : Outline → List Text
  | .mk label parts => Markup.plain label :: linesUnder parts

/-- The lines of the outlines under one label. -/
def linesUnder : List Outline → List Text
  | [] => []
  | [o] => hang "└── ".toList "    ".toList o.lines
  | o :: p :: os => hang "├── ".toList "│   ".toList o.lines ++ linesUnder (p :: os)

end

/-- An outline as text, each line ended. -/
def render (o : Outline) : Text := o.lines.flatMap (· ++ ['\n'])

end Outline

end SqlTemplate
