import SqlTemplate.Json.Fault
import SqlTemplate.Value

set_option autoImplicit false

/-!
# Strings, numbers and words of JSON documents

The parts of a document that hold no other parts. A string may hold any characters but controls,
and codes behind backslashes; two codes that are the halves of a pair are one character, and a half
that stands alone is none, so a document with one is refused here. A number is a whole number unless
it has a fraction or an exponent, and the words `NaN`, `Infinity` and `-Infinity` are numbers too.
-/

namespace SqlTemplate

namespace Json

/-- The characters that may stand between the parts of a document. -/
def isSpace (c : Char) : Bool := c == ' ' || c == '\t' || c == '\n' || c == '\r'

/-- What is left behind blanks. -/
def skipSpace (t : Text) : Text := t.dropWhile isSpace

/-- The value of a hexadecimal digit. -/
def hexValue? (c : Char) : Option Nat :=
  if c.isDigit then some (c.toNat - '0'.toNat)
  else if 'a' ≤ c && c ≤ 'f' then some (c.toNat - 'a'.toNat + 10)
  else if 'A' ≤ c && c ≤ 'F' then some (c.toNat - 'A'.toNat + 10)
  else none

/-- The number written by hexadecimal digits. -/
def hexNumber? (digits : Text) : Option Nat :=
  digits.foldl (fun n c => do return 16 * (← n) + (← hexValue? c)) (some 0)

/-- The code that a backslash and one character stand for. -/
def escaped? (c : Char) : Option Nat :=
  if c = '"' || c = '\\' || c = '/' then some c.toNat
  else if c = 'b' then some 8
  else if c = 'f' then some 12
  else if c = 'n' then some 10
  else if c = 'r' then some 13
  else if c = 't' then some 9
  else none

/-- Puts a code in front of the codes that are read next. -/
def consCode (code : Nat) : Except Stop (Read (List Nat)) → Except Stop (Read (List Nat))
  | .ok (codes, rest) => .ok (code :: codes, rest)
  | .error e => .error e

/-- Reads the codes of a string up to its closing quote. `start` is how many characters were
left at the opening quote. -/
def stringCodes (start : Nat) : Text → Except Stop (Read (List Nat))
  | [] => .error (.at .unterminated start)
  | '"' :: rest => .ok ([], rest)
  | ['\\'] => .error (.at .unterminated start)
  | '\\' :: 'u' :: a :: b :: c :: d :: rest =>
      match hexNumber? [a, b, c, d] with
      | some code =>
          if rest.isEmpty then .error (.at .code 5) else consCode code (stringCodes start rest)
      | none => .error (.at .code (rest.length + 5))
  | '\\' :: 'u' :: rest => .error (.at .code (rest.length + 1))
  | '\\' :: c :: rest =>
      match escaped? c with
      | some code => consCode code (stringCodes start rest)
      | none => .error (.at .escape (rest.length + 2))
  | c :: rest =>
      if c.toNat < 0x20 then .error (.at .control (rest.length + 1))
      else consCode c.toNat (stringCodes start rest)

/-- Whether a code is the first half of a pair that stands for one character. -/
def isHighHalf (code : Nat) : Bool := 0xD800 ≤ code && code < 0xDC00

/-- Whether a code is the second half of a pair that stands for one character. -/
def isLowHalf (code : Nat) : Bool := 0xDC00 ≤ code && code < 0xE000

/-- Whether a code is half a character. -/
def isHalf (code : Nat) : Bool := isHighHalf code || isLowHalf code

/-- The text of the codes of a string, two halves of a pair joined. Halves that stand alone have no
text. -/
def textOfCodes : List Nat → Option Text
  | [] => some []
  | [a] => if isHalf a then none else some [Char.ofNat a]
  | a :: b :: codes =>
      if isHighHalf a && isLowHalf b then
        (textOfCodes codes).map (Char.ofNat (0x10000 + (a - 0xD800) * 0x400 + (b - 0xDC00)) :: ·)
      else if isHalf a then none
      else (textOfCodes (b :: codes)).map (Char.ofNat a :: ·)

/-- Reads a string behind its opening quote. -/
def stringValue (rest : Text) : Except Stop (Read Text) := do
  let (codes, rest) ← stringCodes (rest.length + 1) rest
  match textOfCodes codes with
  | some t => return (t, rest)
  | none => .error .loneHalf

/-- The digits behind a point, if a point with digits follows. -/
def fractionPart? (t : Text) : Option (Text × Text) :=
  match t with
  | '.' :: rest =>
      let (digits, rest) := Decimal.spanDigits rest
      if digits.isEmpty then none else some (digits, rest)
  | _ => none

/-- The exponent, if a mark with digits follows. -/
def exponentPart? (t : Text) : Option (Int × Text) :=
  match t with
  | c :: rest =>
      if c = 'e' || c = 'E' then
        let (negative, rest) := Decimal.splitSign rest
        let (digits, rest) := Decimal.spanDigits rest
        if digits.isEmpty then none
        else some (Decimal.signedValue negative digits, rest)
      else none
  | [] => none

/-- The number with the given parts. Without fraction and exponent it is a whole number. -/
def numberOf (negative : Bool) (whole : Text) (fraction : Option Text) (exponent : Option Int) :
    Except Stop Value :=
  if fraction.isNone && exponent.isNone then
    if Decimal.maxDigits < whole.length then .error (.tooManyDigits whole.length)
    else .ok (.int (Decimal.signedValue negative whole))
  else .ok (.float (Binary64.ofParts negative whole (fraction.getD []) (exponent.getD 0)))

/-- Reads a number. -/
def numberValue (t : Text) : Except Stop (Read Value) :=
  let (negative, body) := Decimal.splitMinus t
  match Decimal.wholePart? body with
  | none => stop .value t
  | some (whole, rest) => do
      let (fraction, rest) := match fractionPart? rest with
        | some (digits, r) => (some digits, r)
        | none => (none, rest)
      let (exponent, rest) := match exponentPart? rest with
        | some (e, r) => (some e, r)
        | none => (none, rest)
      return (← numberOf negative whole fraction exponent, rest)

/-- The words that stand for values. -/
def words : List (Text × Value) :=
  [("null".toList, .none), ("true".toList, .bool true), ("false".toList, .bool false),
    ("NaN".toList, .float .nan), ("Infinity".toList, .float (.infinite false)),
    ("-Infinity".toList, .float (.infinite true))]

/-- Reads a word that stands for a value, or else a number. -/
def scalarValue (t : Text) : Except Stop (Read Value) :=
  match words.find? fun w => w.1.isPrefixOf t with
  | some (w, v) => .ok (v, t.drop w.length)
  | none => numberValue t

end Json

end SqlTemplate
