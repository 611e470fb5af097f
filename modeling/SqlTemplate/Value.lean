import SqlTemplate.Number.Binary64
import SqlTemplate.Stack
import SqlTemplate.Text

set_option autoImplicit false

/-!
# Values

What a template can be expanded with: plain data, collections, records with named fields, and
values of any other type. A mapping keeps its entries in the order in which their keys first came. A
type can write the texts of its values itself; such texts belong to the value. The file also says
when two values count as the same key, and reads and sets the attributes of records.
-/

namespace SqlTemplate

/-- The kinds of records. -/
inductive RecordKind where
  -- a record with named fields that takes further attributes, which are no fields
  | plain
  -- a record of a library of models, which takes undeclared attributes and comes with the texts
  -- that the library writes for it
  | model
  -- a tuple whose places have names
  | namedTuple
  deriving DecidableEq, Repr

/-- Why a value has no text. -/
inductive FormatFault where
  -- it holds a whole number of more digits than are written
  | tooManyDigits
  -- its type writes its text itself and raises an error
  | raised (kind message : Text)
  deriving DecidableEq, Repr

/-- What is reported to the user. -/
def FormatFault.message : FormatFault → Text
  | .tooManyDigits =>
      "Exceeds the limit (".toList ++ Decimal.ofNat Decimal.maxDigits
        ++ " digits) for integer string conversion".toList
        ++ "; use sys.set_int_max_str_digits() to increase the limit".toList
  | .raised _ message => message

/-- The texts that a type writes for one of its values itself: the one that it shows as, and the one
that it shows as inside another value. -/
structure OwnTexts where
  shown : Counted FormatFault Text
  inspected : Counted FormatFault Text

/-- A value. -/
inductive Value where
  | none
  | bool (b : Bool)
  | int (n : Int)
  | float (x : Binary64)
  | text (t : Text)
  | bytes (b : List UInt8)
  | list (items : List Value)
  | tuple (items : List Value)
  -- a set, as the list of its members
  | set (items : List Value)
  -- a mapping with distinct keys, which may be one that cannot be changed
  | map (readOnly : Bool) (entries : List (Value × Value))
  -- a record with the current values of its fields, its other attributes, and the texts that its
  -- type writes for it, if it does not leave them to the library of records
  | record (kind : RecordKind) (name : Text) (fields : List (Text × Value))
      (others : List (Text × Value)) (own : Option OwnTexts)
  -- a type of records itself, which is not a record: the name of its own type, that of the module
  -- it is from, and its name
  | recordType (typeName home name : Text)
  -- a value of any other type
  | object (typeName : Text) (own : OwnTexts)

namespace Value

instance : Inhabited Value := ⟨.none⟩

/-- The name of a value's type. -/
def typeName : Value → Text
  | .none => "NoneType".toList
  | .bool _ => "bool".toList
  | .int _ => "int".toList
  | .float _ => "float".toList
  | .text _ => "str".toList
  | .bytes _ => "bytes".toList
  | .list _ => "list".toList
  | .tuple _ => "tuple".toList
  | .set _ => "set".toList
  | .map false _ => "dict".toList
  | .map true _ => "mappingproxy".toList
  | .record _ name _ _ _ => name
  | .recordType typeName _ _ => typeName
  | .object typeName _ => typeName

/-! ## Keys of a mapping -/

/-- The number that a value counts as when it is compared with numbers: a truth value counts
as one or zero and a floating-point number as the whole number it is. -/
def asInt? : Value → Option Int
  | .bool b => some (if b then 1 else 0)
  | .int n => some n
  | .float x => x.toInt?
  | _ => Option.none

mutual

/-- Whether two values are the same key of a mapping. Numbers are compared by what they count
as and tuples by their items, named or not; a value that is not a number differs even from
itself. Lists, mappings and records are no keys. -/
def sameKey (a b : Value) : Bool :=
  match a.asInt?, b.asInt? with
  | some m, some n => m == n
  | _, _ =>
      match a, b with
      | .none, .none => true
      | .float .nan, _ => false
      | .float x, .float y => x == y
      | .text s, .text t => s == t
      | .bytes s, .bytes t => s == t
      | .tuple xs, .tuple ys => sameKeys xs ys
      | .tuple xs, .record .namedTuple _ fs _ _ => sameKeys xs (fs.map Prod.snd)
      | .record .namedTuple _ fs _ _, .tuple ys => sameFields fs ys
      | .record .namedTuple _ fs _ _, .record .namedTuple _ gs _ _ =>
          sameFields fs (gs.map Prod.snd)
      | _, _ => false

/-- Whether the items of two tuples are the same keys, place by place. -/
def sameKeys : List Value → List Value → Bool
  | [], [] => true
  | x :: xs, y :: ys => x.sameKey y && sameKeys xs ys
  | _, _ => false

/-- Whether the fields of a named tuple are the same keys as given items, place by place. -/
def sameFields : List (Text × Value) → List Value → Bool
  | [], [] => true
  | (_, x) :: fs, y :: ys => x.sameKey y && sameFields fs ys
  | _, _ => false

end

/-- Adds an entry to the entries of a mapping. A key that is there already keeps its place and
its form and takes the new value. -/
def insertEntry (entries : List (Value × Value)) (key value : Value) : List (Value × Value) :=
  match entries with
  | [] => [(key, value)]
  | (k, v) :: rest =>
      if k.sameKey key then (k, value) :: rest else (k, v) :: insertEntry rest key value

/-- The mapping with the given entries, later ones replacing earlier ones. -/
def mapOf (readOnly : Bool) (entries : List (Value × Value)) : Value :=
  .map readOnly (entries.foldl (fun es (k, v) => insertEntry es k v) [])

/-! ## Attributes of a record -/

/-- Sets a name among names with values; a new name goes to the end. -/
def setNamed (named : List (Text × Value)) (name : Text) (value : Value) :
    List (Text × Value) :=
  match named with
  | [] => [(name, value)]
  | (n, v) :: rest =>
      if n = name then (n, value) :: rest else (n, v) :: setNamed rest name value

/-- Sets an attribute of a record. An attribute that is a field changes the field, and any other
joins the attributes that are no fields. `own` are the texts that the type of the record writes for
it from then on. What is no record stays as it is. -/
def setAttribute (r : Value) (name : Text) (value : Value) (own : Option OwnTexts) : Value :=
  match r with
  | .record kind n fields others _ =>
      if fields.any fun f => f.1 = name then
        .record kind n (setNamed fields name value) others own
      else .record kind n fields (setNamed others name value) own
  | v => v

end Value

end SqlTemplate
