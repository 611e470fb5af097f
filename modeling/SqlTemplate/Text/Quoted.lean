import SqlTemplate.Text.Printable

set_option autoImplicit false

/-!
# Quoted text

How texts and byte strings are written inside a list or a record: between quotes, with a
backslash before what would end the quotation and a code for what cannot be seen.
-/

namespace SqlTemplate

namespace Text

/-- A number in hexadecimal with at least `width` digits. -/
def hex (width n : Nat) : Text := (Nat.toDigits 16 n).leftpad width '0'

/-- The quotation mark for a text: the single one, unless the text has single ones only. -/
def quoteFor (t : Text) : Char := if t.contains '\'' && !t.contains '"' then '"' else '\''

/-- The code of a character that is not printable, as short as its code point allows. -/
def escapeCode (n : Nat) : Text :=
  if n < 0x100 then '\\' :: 'x' :: hex 2 n
  else if n < 0x10000 then '\\' :: 'u' :: hex 4 n
  else '\\' :: 'U' :: hex 8 n

/-- A character between quotation marks `quote`; `visible` says whether it needs no code. -/
def quotedChar (quote : Char) (visible : Bool) (c : Char) : Text :=
  if c = '\\' || c = quote then ['\\', c]
  else if c = '\n' then ['\\', 'n']
  else if c = '\r' then ['\\', 'r']
  else if c = '\t' then ['\\', 't']
  else if visible then [c]
  else escapeCode c.toNat

/-- A text between quotation marks. -/
def quoted (t : Text) : Text :=
  let quote := quoteFor t
  quote :: t.flatMap (fun c => quotedChar quote (isPrintable c) c) ++ [quote]

/-- A byte string between quotation marks, marked as one. Only ASCII shows as itself. -/
def quotedBytes (bytes : List UInt8) : Text :=
  let t : Text := bytes.map fun b => Char.ofNat b.toNat
  let quote := quoteFor t
  'b' :: quote ::
    t.flatMap (fun c => quotedChar quote (0x20 ≤ c.toNat && c.toNat ≤ 0x7E) c) ++ [quote]

end Text

end SqlTemplate
