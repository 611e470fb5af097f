import SqlTemplate.Json.Scalar

set_option autoImplicit false

/-!
# Values from JSON documents

Arguments are written as JSON. Objects become mappings and arrays lists; a member that is named
again replaces the one before it. Every value, member or element read inside another one comes
behind at least one character of it, so the number of characters of the document bounds how
deeply readings nest, and how many follow one another. A container that is opened inside too many
others is refused before anything in it is read.
-/

namespace SqlTemplate

namespace Json

mutual

/-- Reads a value, with the given bound on what may still be nested or follow. `room` is how
many more containers may be opened. -/
def value : (bound room : Nat) → Text → Except Stop (Read Value)
  | 0, _, t => stop .value t
  | n + 1, room, t =>
      match t, room with
      | '"' :: rest, _ => do
          let (s, rest) ← stringValue rest
          return (.text s, rest)
      | '\x7b' :: _, 0 => .error (.tooDeep .object)
      | '\x7b' :: rest, room + 1 =>
          match skipSpace rest with
          | '\x7d' :: rest => .ok (.map false [], rest)
          | rest => do
              let (entries, rest) ← members n room rest
              return (Value.mapOf false entries, rest)
      | '[' :: _, 0 => .error (.tooDeep .array)
      | '[' :: rest, room + 1 =>
          match skipSpace rest with
          | ']' :: rest => .ok (.list [], rest)
          | rest => do
              let (items, rest) ← elements n room rest
              return (.list items, rest)
      | t, _ => scalarValue t

/-- Reads the members of an object from the name of the next one on. -/
def members : (bound room : Nat) → Text → Except Stop (Read (List (Value × Value)))
  | 0, _, t => stop .name t
  | n + 1, room, t =>
      match t with
      | '"' :: rest => do
          let (name, rest) ← stringValue rest
          match skipSpace rest with
          | ':' :: rest =>
              let (v, rest) ← value n room (skipSpace rest)
              match skipSpace rest with
              | '\x7d' :: rest => return ([(.text name, v)], rest)
              | ',' :: rest =>
                  let (more, rest) ← members n room (skipSpace rest)
                  return ((.text name, v) :: more, rest)
              | rest => stop .comma rest
          | rest => stop .colon rest
      | t => stop .name t

/-- Reads the elements of an array from the next one on. -/
def elements : (bound room : Nat) → Text → Except Stop (Read (List Value))
  | 0, _, t => stop .value t
  | n + 1, room, t => do
      let (v, rest) ← value n room t
      match skipSpace rest with
      | ']' :: rest => return ([v], rest)
      | ',' :: rest =>
          let (more, rest) ← elements n room (skipSpace rest)
          return (v :: more, rest)
      | rest => stop .comma rest

end

/-! ## Documents -/

/-- Reads a document: a value with blanks around it. -/
def document (t : Text) : Except Stop Value := do
  match t with
  | '\ufeff' :: _ => .error (.at .byteOrderMark t.length)
  | _ =>
      let (v, rest) ← value (t.length + 1) maxNesting (skipSpace t)
      match skipSpace rest with
      | [] => return v
      | rest => .error (.at .extra rest.length)

/-- The value that a document stands for. -/
def read (t : Text) : Except Error Value :=
  match document t with
  | .ok v => .ok v
  | .error (.at fault left) =>
      .error (.syntaxFault fault (Place.after (t.take (t.length - left))))
  | .error (.tooManyDigits n) => .error (.tooManyDigits n)
  | .error .loneHalf => .error .loneHalf
  | .error (.tooDeep c) => .error (.tooDeep c)

end Json

end SqlTemplate
