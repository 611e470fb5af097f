import SqlTemplate.Number.Decimal
import SqlTemplate.Stack

set_option autoImplicit false

/-!
# Faults of JSON documents

A document that is no JSON is refused with a reason and the place where reading stopped, as a
line, a column and a count of characters. Reading goes from what is left of the document to a
result and what is left behind it, so the place of a fault is known from how much was left there.
-/

namespace SqlTemplate

namespace Json

/-- What is wrong at a place of a document. -/
inductive Fault where
  | value
  | name
  | colon
  | comma
  -- the document goes on behind its value
  | extra
  | byteOrderMark
  -- a string starts here that does not end
  | unterminated
  | control
  | escape
  -- an escaped code has not four hexadecimal digits
  | code
  deriving DecidableEq, Repr

/-- How a fault is called. -/
def Fault.title : Fault → Text
  | .value => "Expecting value".toList
  | .name => "Expecting property name enclosed in double quotes".toList
  | .colon => "Expecting ':' delimiter".toList
  | .comma => "Expecting ',' delimiter".toList
  | .extra => "Extra data".toList
  | .byteOrderMark => "Unexpected UTF-8 BOM (decode using utf-8-sig)".toList
  | .unterminated => "Unterminated string starting at".toList
  | .control => "Invalid control character at".toList
  | .escape => "Invalid \\escape".toList
  | .code => "Invalid \\uXXXX escape".toList

/-- The parts of a document that hold other parts. -/
inductive Container where
  | array
  | object
  deriving DecidableEq, Repr

/-- How a container is called. -/
def Container.name : Container → Text
  | .array => "array".toList
  | .object => "object".toList

/-- Why a document is refused, while it is read: a fault where so many characters are left, a
whole number of too many digits, half a character that stands alone, or nesting that is too deep. -/
inductive Stop where
  -- a fault, and how many characters were left
  | at (fault : Fault) (left : Nat)
  | tooManyDigits (count : Nat)
  | loneHalf
  -- a container inside as many as may be open
  | tooDeep (container : Container)
  deriving DecidableEq, Repr

/-- A place in a document. -/
structure Place where
  line : Nat
  column : Nat
  -- the number of characters before the place
  offset : Nat
  deriving DecidableEq, Repr

/-- Why a document is refused. -/
inductive Error where
  | syntaxFault (fault : Fault) (place : Place)
  | tooManyDigits (count : Nat)
  -- a string with half a character in it, which no text can hold
  | loneHalf
  -- a container inside as many as may be open
  | tooDeep (container : Container)
  deriving DecidableEq, Repr

/-- The greatest number of containers that may be open at a place. Each of them is read in a call of
its own, and the calls that lead to the reader are the reserve of the stack. -/
def maxNesting : Nat := Stack.room

/-- What is reported to the user. -/
def Error.message : Error → Text
  | .syntaxFault f p =>
      f.title ++ ": line ".toList ++ Decimal.ofNat p.line ++ " column ".toList
        ++ Decimal.ofNat p.column ++ " (char ".toList ++ Decimal.ofNat p.offset ++ [')']
  | .tooManyDigits n =>
      "Exceeds the limit (".toList ++ Decimal.ofNat Decimal.maxDigits
        ++ " digits) for integer string conversion: value has ".toList ++ Decimal.ofNat n
        ++ " digits; use sys.set_int_max_str_digits() to increase the limit".toList
  | .loneHalf => "half a character stands alone".toList
  | .tooDeep c =>
      "maximum recursion depth exceeded while decoding a JSON ".toList ++ c.name
        ++ " from a unicode string".toList

/-- The place behind the given text. -/
def Place.after (t : Text) : Place :=
  { line := t.count '\n' + 1
    column := (t.reverse.takeWhile (· != '\n')).length + 1
    offset := t.length }

/-- A result and what is left of the document behind it. -/
abbrev Read (α : Type) := α × Text

/-- Stops with a fault in front of what is left. -/
def stop {α : Type} (fault : Fault) (rest : Text) : Except Stop (Read α) :=
  .error (.at fault rest.length)

end Json

end SqlTemplate
