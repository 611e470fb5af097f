import SqlTemplate.Value.Format

set_option autoImplicit false

/-!
# Lookup tables

A lookup table says which words of a template stand for values. It is made from the arguments of
an expansion: a mapping with texts as keys, or a record. Each name among them, with the marker
in front, is a key of the table.
-/

namespace SqlTemplate

/-- The values that words stand for, each key once, in the order in which they were given. -/
abbrev Lookup := List (Text × Value)

namespace Lookup

/-- The value of a key. -/
def find? (table : Lookup) (key : Text) : Option Value := List.lookup key table

/-- Sets the value of a key. A key that is there already keeps its place. -/
def set (table : Lookup) (key : Text) (value : Value) : Lookup :=
  Value.setNamed table key value

/-- The table with the given keys and values, later ones replacing earlier ones. -/
def ofList (entries : List (Text × Value)) : Lookup :=
  entries.foldl (fun table (key, value) => table.set key value) []

/-- What becomes of a word that is looked up: the text of its value if it is a key, and else the
word as it is. -/
def resolve (table : Lookup) (word : Text) : Counted FormatFault Text :=
  match table.find? word with
  | some v => v.write
  | none => pure word

/-- Why a word cannot be replaced, if it cannot: it is a key, and its value has no text. -/
def fault? (table : Lookup) (word : Text) : Option FormatFault :=
  match (table.resolve word).result with
  | .error fault => some fault
  | .ok _ => none

/-- The text that stands in the place of a word afterwards: the text of its value if it is a key and
the value has one, and else the word. -/
def replace (table : Lookup) (word : Text) : Text :=
  match (table.resolve word).result with
  | .error _ => word
  | .ok t => t

end Lookup

/-! ## Tables from arguments -/

/-- Why arguments cannot be used. -/
inductive UnsupportedArgs where
  -- they are of a type that is neither a mapping nor a record
  | type (name : Text)
  -- a key of the mapping is of a type that is not a text
  | key (name : Text)
  deriving DecidableEq, Repr

/-- What is reported to the user. -/
def UnsupportedArgs.message : UnsupportedArgs → Text
  | .type name => "unsupported args type: ".toList ++ name
  | .key name => "args keys must be strings, got ".toList ++ name

/-- The value of an attribute of a record. A field is found before another attribute of its name. -/
def Value.attribute? (name : Text) : Value → Option Value
  | .record _ _ fields others _ => (Lookup.ofList (others ++ fields)).find? name
  | _ => none

/-- The fields of a record with their current values. The places of a named tuple are paired with
their names, and any other record is asked for its attributes under the names of its fields. -/
def Value.fields (r : Value) : Except UnsupportedArgs (List (Text × Value)) :=
  match r with
  | .record .namedTuple _ fields _ _ =>
      .ok ((fields.map Prod.fst).zip (fields.map Prod.snd))
  | .record _ _ fields _ _ =>
      .ok ((fields.map Prod.fst).filterMap fun name => (r.attribute? name).map (name, ·))
  | v => .error (.type v.typeName)

/-- The entries of a mapping whose keys are texts. -/
def Value.namedEntries : List (Value × Value) → Except UnsupportedArgs (List (Text × Value))
  | [] => .ok []
  | (.text name, v) :: rest => do
      let named ← namedEntries rest
      return (name, v) :: named
  | (k, _) :: _ => .error (.key k.typeName)

/-- The names and values that arguments hold. -/
def Value.namedValues : Value → Except UnsupportedArgs (List (Text × Value))
  | .map _ entries => namedEntries entries
  | v => v.fields

/-- The lookup table of arguments under a marker. -/
def Lookup.ofArgs (marker : Text) (args : Value) : Except UnsupportedArgs Lookup := do
  let named ← args.namedValues
  return ofList (named.map fun (name, v) => (marker ++ name, v))

end SqlTemplate
