import SqlTemplate.Text

set_option autoImplicit false

/-!
# Console markup

Texts for the console may hold style tags in square brackets, such as `[bold]` and `[/bold]`. A
tag is a bracket, one of the characters that can start a tag, any characters but an opening
bracket, and a closing bracket. A backslash in front makes it plain text; two backslashes in
front are one plain backslash and leave the tag a tag.

`escape` guards the tags in a text so that they show as they are, and `plain` is what a markup
text shows when the styles are left out.
-/

namespace SqlTemplate

namespace Markup

/-- The characters that can start a tag: `a` to `z`, `#`, `/` and `@`. -/
def startsTag (c : Char) : Bool := c.isLower || c == '#' || c == '/' || c == '@'

/-- Whether a closing bracket comes before the next opening one. -/
def closes : Text → Bool
  | [] => false
  | c :: t => if c = ']' then true else if c = '[' then false else closes t

/-- Whether a tag follows, when an opening bracket has just been read. -/
def isTag : Text → Bool
  | [] => false
  | c :: t => startsTag c && closes t

/-- Guards the tags in a text that stands behind `slashes` backslashes: those backslashes are
written once more, and then one further. -/
def escapeTags (slashes : Nat) : Text → Text
  | [] => []
  | c :: t =>
      if c = '\\' then c :: escapeTags (slashes + 1) t
      else if c = '[' && isTag t then List.replicate (slashes + 1) '\\' ++ c :: escapeTags 0 t
      else c :: escapeTags 0 t

/-- Whether a text ends in a backslash that stands alone. -/
def endsInLoneSlash (t : Text) : Bool :=
  match t.reverse with
  | '\\' :: '\\' :: _ => false
  | '\\' :: _ => true
  | _ => false

/-- Guards the tags in a text. A single backslash at the end would guard what comes next, and
is written twice. -/
def escape (t : Text) : Text :=
  let e := escapeTags 0 t
  if endsInLoneSlash e then e ++ ['\\'] else e

/-- What follows in a markup text: plain text behind so many backslashes, or the rest of a
tag. -/
inductive Inside where
  -- plain text behind so many backslashes
  | plain (slashes : Nat)
  | tag

/-- What the rest of a markup text shows. A backslash in front of a bracket that starts no tag
does not show either. -/
def plainFrom : Inside → Text → Text
  | .plain slashes, [] => List.replicate slashes '\\'
  | .tag, [] => []
  | .tag, c :: t => if c = ']' then plainFrom (.plain 0) t else plainFrom .tag t
  | .plain slashes, c :: t =>
      if c = '\\' then plainFrom (.plain (slashes + 1)) t
      else if c = '[' then
        if isTag t then
          List.replicate (slashes / 2) '\\' ++
            (if slashes % 2 = 1 then c :: plainFrom (.plain 0) t else plainFrom .tag t)
        else List.replicate (slashes - 1) '\\' ++ c :: plainFrom (.plain 0) t
      else List.replicate slashes '\\' ++ c :: plainFrom (.plain 0) t

/-- Whether a console would act on a character instead of showing it: the bell, the backspace
and the movements to another line or column. -/
def isConsoleControl (c : Char) : Bool :=
  c.toNat == 7 || c.toNat == 8 || c.toNat == 11 || c.toNat == 12 || c.toNat == 13

/-- What a markup text shows on a console without styles. -/
def plain (t : Text) : Text := (plainFrom (.plain 0) t).filter fun c => !isConsoleControl c

/-- A text in a style. -/
def styled (style : Text) (t : Text) : Text :=
  '[' :: style ++ ']' :: t ++ "[/".toList ++ style ++ [']']

end Markup

end SqlTemplate
