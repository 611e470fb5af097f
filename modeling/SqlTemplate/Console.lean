import SqlTemplate.Outline

set_option autoImplicit false

/-!
# The console

What a run prints are lines and outlines, both of them console markup. The console is not a part of
the program: how it guards the style tags in a text that is to show as it is, and which items it
refuses to print, say because their style tags do not match, is its own matter (`Console`).
-/

namespace SqlTemplate

/-- Something printed on the console. -/
inductive ConsoleItem where
  | line (markup : Text)
  | outline (o : Outline)

/-- A console. -/
structure Console where
  -- a text with its style tags guarded
  escape : Text → Text
  -- the message of the error for an item that is not printed, none for one that is
  fault? : ConsoleItem → Option Text := fun _ => none

end SqlTemplate
