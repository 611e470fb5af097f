import SqlTemplate.Text.Blank
import SqlTemplate.Text.Digit

set_option autoImplicit false

/-!
# Whole numbers in decimal

The decimal text of a whole number and the number that a run of digits stands for. Readers of
numbers share the functions that take a sign or digits from the start of a text.
-/

namespace SqlTemplate

namespace Decimal

/-- The digits of a natural number, without leading zeros. -/
def ofNat (n : Nat) : Text := Nat.toDigits 10 n

/-- The digits of an integer, after a minus sign when it is negative. -/
def ofInt : Int → Text
  | .ofNat n => ofNat n
  | .negSucc n => '-' :: ofNat (n + 1)

/-- The greatest number of digits of a whole number that is read or written. -/
def maxDigits : Nat := 4300

/-- The value of a digit `0` to `9`. -/
def digitValue (c : Char) : Nat := c.toNat - '0'.toNat

/-- The number that a run of digits stands for. -/
def value (digits : Text) : Nat := digits.foldl (fun n c => 10 * n + digitValue c) 0

/-- The integer that a run of digits stands for, with or without a minus sign. -/
def signedValue (negative : Bool) (digits : Text) : Int :=
  if negative then -(value digits : Int) else value digits

/-! ## The start of a text -/

/-- Whether a minus sign comes first, and what follows it. -/
def splitMinus : Text → Bool × Text
  | '-' :: t => (true, t)
  | t => (false, t)

/-- Whether the sign that may come first is a minus, and what follows it. -/
def splitSign : Text → Bool × Text
  | '+' :: t => (false, t)
  | t => splitMinus t

/-- The digits at the start of a text and what is left behind them. -/
def spanDigits (t : Text) : Text × Text := (t.takeWhile Char.isDigit, t.dropWhile Char.isDigit)

/-- The digits of a whole number at the start of a text and what is left behind them: a zero
alone, or digits of which the first is not zero. -/
def wholePart? (t : Text) : Option (Text × Text) :=
  match t with
  | '0' :: rest => some (['0'], rest)
  | _ =>
      let (digits, rest) := spanDigits t
      if digits.isEmpty then none else some (digits, rest)

/-! ## Whole texts -/

/-- The integer written by one or more digits after an optional sign. -/
def readInt? (t : Text) : Option Int :=
  let (negative, digits) := splitSign t
  if digits.isEmpty || !digits.all Char.isDigit then none else some (signedValue negative digits)

/-- A text without the underscores that stand between two digits. -/
def ungrouped : Text → Text
  | a :: '_' :: b :: t =>
      if a.isDigit && b.isDigit then a :: ungrouped (b :: t) else a :: ungrouped ('_' :: b :: t)
  | c :: t => c :: ungrouped t
  | [] => []

/-- A number in its plain form: without blanks around it and underscores in it, and with digits
`0` to `9`. -/
def plain (t : Text) : Text := ungrouped (Text.plainDigits t.trim)

/-- The integer that a text stands for. -/
def ofText? (t : Text) : Option Int := readInt? (plain t)

end Decimal

end SqlTemplate
