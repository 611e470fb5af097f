import SqlTemplate.Number.Shortest
import SqlTemplate.Text.Quoted
import SqlTemplate.Value

set_option autoImplicit false

/-!
# The text of a value

Three texts belong to a value. `inspect` is how it shows as a part of another value, where
texts are quoted. `display` is how it shows on its own, a text as itself. `write` is what a template
receives, with the truth values, the missing value and whole floating-point numbers written the way
queries write them. A type that writes its texts itself decides what they are.

Not every value has a text: a whole number can have too many digits, and a type that writes its
texts itself can fail. The first part of a value that has no text decides. A text is written by
nested calls, one or more for each value inside another, and they are counted.
-/

namespace SqlTemplate

/-- How many calls stand around the texts of the fields of a record that its type leaves to be
listed. A record may hold itself, which one of the calls watches for; the places of a tuple are not
watched. -/
def RecordKind.listingCalls : RecordKind → Nat
  | .plain | .model => 3
  | .namedTuple => 2

namespace Value

/-- Texts between brackets, separated by commas. -/
def bracketed (opening closing : Text) (items : List Text) : Text :=
  opening ++ Text.joinWith ", ".toList items ++ closing

/-- The items of a tuple between parentheses; a single one is followed by a comma. -/
def tupleText : List Text → Text
  | [t] => '(' :: t ++ ",)".toList
  | ts => bracketed ['('] [')'] ts

/-- The text of a truth value inside another value. -/
def boolText (b : Bool) : Text := if b then "True".toList else "False".toList

/-- The text of a type of records. -/
def recordTypeText (home name : Text) : Text :=
  "<class '".toList ++ home ++ '.' :: name ++ "'>".toList

/-- The text of a whole number, unless it has too many digits. -/
def inspectInt (n : Int) : Counted FormatFault Text :=
  if Decimal.maxDigits < (Decimal.ofNat n.natAbs).length then .fail .tooManyDigits
  else .leaf (Decimal.ofInt n)

mutual

/-- How a value shows as a part of another one. -/
def inspect : Value → Counted FormatFault Text
  | .none => .leaf "None".toList
  | .bool b => .leaf (boolText b)
  | .int n => inspectInt n
  | .float x => .leaf x.text
  | .text t => .leaf t.quoted
  | .bytes b => .leaf (Text.quotedBytes b)
  | .list items => .within 1 (bracketed ['['] [']'] <$> inspectAll items)
  | .tuple items => .within 1 (tupleText <$> inspectAll items)
  | .set [] => .leaf "set()".toList
  -- a set is shown by way of a list
  | .set (x :: xs) => .within 2 (bracketed ['\x7b'] ['\x7d'] <$> inspectAll (x :: xs))
  | .map false entries => .within 1 (bracketed ['\x7b'] ['\x7d'] <$> inspectEntries entries)
  | .map true entries =>
      .within 2 (bracketed "mappingproxy(\x7b".toList "\x7d)".toList <$> inspectEntries entries)
  | .record kind name fields _ Option.none =>
      .within kind.listingCalls (bracketed (name ++ ['(']) [')'] <$> inspectFields fields)
  | .record _ _ _ _ (some own) => own.inspected
  | .recordType _ home name => .leaf (recordTypeText home name)
  | .object _ own => own.inspected

/-- How the items of a collection show. -/
def inspectAll : List Value → Counted FormatFault (List Text)
  | [] => pure []
  | v :: vs => do
      let t ← inspect v
      let ts ← inspectAll vs
      return t :: ts

/-- How the entries of a mapping show. -/
def inspectEntries : List (Value × Value) → Counted FormatFault (List Text)
  | [] => pure []
  | (k, v) :: es => do
      let key ← inspect k
      let value ← inspect v
      let ts ← inspectEntries es
      return (key ++ ": ".toList ++ value) :: ts

/-- How fields show. -/
def inspectFields : List (Text × Value) → Counted FormatFault (List Text)
  | [] => pure []
  | (n, v) :: fs => do
      let value ← inspect v
      let ts ← inspectFields fs
      return (n ++ '=' :: value) :: ts

end

/-- How a value shows on its own. -/
def display : Value → Counted FormatFault Text
  | .text t => .leaf t
  | .map true entries => .within 1 (inspect (.map false entries))
  | .record _ _ _ _ (some own) => own.shown
  | .object _ own => own.shown
  | v => .within 1 (inspect v)

/-- What the whole floating-point numbers that are written as whole numbers are below. -/
def wholeBound : Nat := Nat.pow 10 21

/-- The floating-point numbers below the bound that are whole, as whole numbers. -/
def wholeFloat? (x : Binary64) : Option Int :=
  match x.toInt? with
  | some n => if n.natAbs < wholeBound then some n else Option.none
  | Option.none => Option.none

/-- The text that stands for a value in an expanded template, and the calls that write it. -/
def write : Value → Counted FormatFault Text
  | .bool b => .leaf (if b then "true".toList else "false".toList)
  | .none => .leaf "null".toList
  | .float x =>
      .within 1 (.leaf (match wholeFloat? x with
        | some n => Decimal.ofInt n
        | Option.none => x.text))
  | v => .within 1 (display v)

/-- The text that stands for a value in an expanded template, or why there is none. -/
def format (v : Value) : Except FormatFault Text := v.write.result

end Value

end SqlTemplate
