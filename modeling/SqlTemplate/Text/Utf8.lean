import SqlTemplate.Number.Decimal
import SqlTemplate.Text.Quoted

set_option autoImplicit false

/-!
# Texts in files

Files hold texts in UTF-8. Reading goes through the bytes one at a time: between two characters
a byte starts the next one and says how many bytes are still owed to it, and every byte owed has
to lie in a range. A fault is reported with its place and the bytes of the character that it
cuts short. Reading also turns the line ends of other systems into newlines.
-/

namespace SqlTemplate

namespace Utf8

/-- What is wrong with a byte that does not fit. -/
inductive Reason where
  | start
  | continuation
  | truncated
  deriving DecidableEq, Repr

/-- How a reason is called. -/
def Reason.name : Reason → Text
  | .start => "invalid start byte".toList
  | .continuation => "invalid continuation byte".toList
  | .truncated => "unexpected end of data".toList

/-- Where and why bytes are no text: the place and the value of the first byte of the character
that cannot be read, and how many bytes of it were read. -/
structure Fault where
  reason : Reason
  -- the place of the first faulty byte, counted from zero
  position : Nat
  first : UInt8
  count : Nat
  deriving DecidableEq, Repr

/-- What is reported to the user. -/
def Fault.message (f : Fault) : Text :=
  "'utf-8' codec can't decode ".toList ++
    (if f.count = 1 then
      "byte 0x".toList ++ Text.hex 2 f.first.toNat ++ " in position ".toList
        ++ Decimal.ofNat f.position
    else
      "bytes in position ".toList ++ Decimal.ofNat f.position ++ '-'
        :: Decimal.ofNat (f.position + f.count - 1))
    ++ ": ".toList ++ f.reason.name

/-- A character of which some bytes are read and some are owed. -/
structure Pending where
  position : Nat
  first : UInt8
  taken : Nat
  owed : Nat
  -- the least value of the next byte
  low : Nat
  -- the greatest value of the next byte
  high : Nat
  -- what the bytes read so far say about the code point
  value : Nat
  deriving DecidableEq, Repr

/-- The fault of a character that is cut short. -/
def Pending.fault (p : Pending) (reason : Reason) : Fault :=
  { reason, position := p.position, first := p.first, count := p.taken }

/-- The character that starts with a byte, of two bytes or more. The second byte has a narrower
range where another start would be shorter, or where the code point would be no character. -/
def startOf? (position : Nat) (b : UInt8) : Option Pending :=
  let n := b.toNat
  let pending (owed low high value : Nat) : Pending :=
    { position, first := b, taken := 1, owed, low, high, value }
  if n < 0xC2 then none
  else if n < 0xE0 then some (pending 1 0x80 0xBF (n - 0xC0))
  else if n < 0xF0 then
    some (pending 2 (if n = 0xE0 then 0xA0 else 0x80) (if n = 0xED then 0x9F else 0xBF)
      (n - 0xE0))
  else if n < 0xF5 then
    some (pending 3 (if n = 0xF0 then 0x90 else 0x80) (if n = 0xF4 then 0x8F else 0xBF)
      (n - 0xF0))
  else none

/-- The character with one more byte read, if that byte fits. -/
def Pending.next? (p : Pending) (b : UInt8) : Option Pending :=
  if p.low ≤ b.toNat && b.toNat ≤ p.high then
    some { p with
      taken := p.taken + 1, owed := p.owed - 1, low := 0x80, high := 0xBF,
      value := 64 * p.value + b.toNat % 64 }
  else none

/-- Reads bytes from a place on, within a character or between two. -/
def decodeFrom (position : Nat) : Option Pending → List UInt8 → Except Fault Text
  | none, [] => .ok []
  | some p, [] => .error (p.fault .truncated)
  | none, b :: bs =>
      if b.toNat < 0x80 then (Char.ofNat b.toNat :: ·) <$> decodeFrom (position + 1) none bs
      else
        match startOf? position b with
        | some p => decodeFrom (position + 1) (some p) bs
        | none => .error { reason := .start, position, first := b, count := 1 }
  | some p, b :: bs =>
      match p.next? b with
      | none => .error (p.fault .continuation)
      | some p' =>
          if p'.owed = 0 then (Char.ofNat p'.value :: ·) <$> decodeFrom (position + 1) none bs
          else decodeFrom (position + 1) (some p') bs

/-- The text that bytes hold. -/
def decode (bytes : List UInt8) : Except Fault Text := decodeFrom 0 none bytes

/-- The bytes of a text. -/
def encode (t : Text) : List UInt8 := t.flatMap String.utf8EncodeChar

/-- The text with every line end, of one character or two, as a newline. -/
def unixLines : Text → Text
  | '\r' :: '\n' :: t => '\n' :: unixLines t
  | '\r' :: t => '\n' :: unixLines t
  | c :: t => c :: unixLines t
  | [] => []

/-- The text of a file with the given content. -/
def readFile (content : List UInt8) : Except Fault Text := unixLines <$> decode content

end Utf8

end SqlTemplate
