import SqlTemplate.Text

set_option autoImplicit false

/-!
# Words of a text

A template is read word by word, a word being a longest run of characters that are not blank.
The file says which characters are blank and splits a text into its words, the non-empty pieces
between its blanks.
-/

namespace SqlTemplate

namespace Text

/-- The blank characters: those that Unicode counts as white space or as a separator between
paragraphs, segments or units. -/
def isBlank (c : Char) : Bool :=
  let n := c.toNat
  (9 ≤ n && n ≤ 13) || (28 ≤ n && n ≤ 32) || n == 0x85 || n == 0xA0 || n == 0x1680
    || (0x2000 ≤ n && n ≤ 0x200A) || n == 0x2028 || n == 0x2029 || n == 0x202F
    || n == 0x205F || n == 0x3000

/-- The words of a text, in order. -/
def words (t : Text) : List Text := (splitAt isBlank t).filter fun p => !p.isEmpty

/-- Drops the blanks at the start of a text. -/
def trimStart (t : Text) : Text := t.dropWhile isBlank

/-- Drops the blanks at the end of a text. -/
def trimEnd (t : Text) : Text := (trimStart t.reverse).reverse

/-- Drops the blanks at both ends of a text. -/
def trim (t : Text) : Text := trimEnd (trimStart t)

theorem words_append_blank (a b : Text) (c : Char) (hc : isBlank c = true) :
    words (a ++ c :: b) = words a ++ words b := by
  simp [words, splitAt_append_cons isBlank a b c hc]

end Text

end SqlTemplate
