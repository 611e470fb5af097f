import SqlTemplate.Text

set_option autoImplicit false

/-!
# Comparison that ignores case

Lower-casing as far as the letters `a` to `z` are concerned. Outside ASCII only the Kelvin sign
has one of these letters as its lower-case form, and every other character keeps out of ASCII,
so comparing `lower t` with a text of ASCII letters gives what comparing the full lower-case
form would give.
-/

namespace SqlTemplate

namespace Text

/-- The lower-case letter of `A` to `Z` and of the Kelvin sign; any other character itself. -/
def lowerChar (c : Char) : Char := if c == '\u212a' then 'k' else c.toLower

/-- The text with its letters `A` to `Z` in lower case. -/
def lower (t : Text) : Text := t.map lowerChar

/-- The truth value that a word stands for: `true` or `false`, in any case. -/
def truth? (t : Text) : Option Bool :=
  if lower t = "true".toList then some true
  else if lower t = "false".toList then some false
  else none

@[simp] theorem truth?_eq_some_true_iff (t : Text) :
    truth? t = some true ↔ lower t = "true".toList := by
  unfold truth?
  split
  · simp_all
  · split <;> simp_all

theorem truth?_eq_some_false_iff (t : Text) :
    truth? t = some false ↔ lower t = "false".toList := by
  unfold truth?
  split
  · simp_all
  · split <;> simp_all

end Text

end SqlTemplate
