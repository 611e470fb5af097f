import SqlTemplate.Expander

set_option autoImplicit false

/-!
# Settings from the environment

The settings of the program have defaults that environment variables replace. The name of a
variable is the name of a setting behind `SQW_`, in any case; other variables are ignored. All
settings are read, and what is wrong with each is reported in the order of the settings.
-/

namespace SqlTemplate

/-- The settings of the program. -/
structure Settings where
  -- whether the messages for those who watch are left out
  quiet : Bool := true
  -- what stands in front of a name that is to be looked up
  marker : Text := ".".toList
  -- whether delimiters that do not balance are refused
  strict : Bool := true
  -- how deeply scopes may be nested
  maxDepth : Int := 200
  -- how many calls a stage can nest; the interpreter sets it, and no variable replaces it
  room : Nat := Stack.room
  deriving DecidableEq

/-- The settings that an environment variable can replace. -/
inductive Setting where
  | quiet
  | marker
  | strict
  | maxDepth
  deriving DecidableEq, Repr

/-- The name of a setting. -/
def Setting.name : Setting → Text
  | .quiet => "beQuiet".toList
  | .marker => "varMarker".toList
  | .strict => "strictDelimiters".toList
  | .maxDepth => "maxDepth".toList

/-- What is wrong with the text of a setting. -/
inductive SettingFault where
  | notBool
  | notInt
  -- it has more digits than a whole number may have
  | intTooLong
  | tooSmall
  | tooShort
  deriving DecidableEq, Repr

/-- How a fault is called. -/
def SettingFault.name : SettingFault → Text
  | .notBool => "bool_parsing".toList
  | .notInt => "int_parsing".toList
  | .intTooLong => "int_parsing_size".toList
  | .tooSmall => "greater_than_equal".toList
  | .tooShort => "string_too_short".toList

namespace Settings

/-! ## Texts of settings -/

/-- The words for true. -/
def trueWords : List Text :=
  ["1".toList, "true".toList, "t".toList, "yes".toList, "y".toList, "on".toList]

/-- The words for false. -/
def falseWords : List Text :=
  ["0".toList, "false".toList, "f".toList, "no".toList, "n".toList, "off".toList]

/-- Reads a truth value, a word for it in any case. -/
def readBool (t : Text) : Except SettingFault Bool :=
  let word := t.map Char.toLower
  if trueWords.contains word then .ok true
  else if falseWords.contains word then .ok false
  else .error .notBool

/-- Reads a marker, which may not be empty. -/
def readMarker (t : Text) : Except SettingFault Text :=
  if t.isEmpty then .error .tooShort else .ok t

/-! ## Whole numbers -/

/-- The greatest number of characters of a whole number, its sign included. -/
def maxIntLength : Nat := 4300

/-- Reads a plain whole number: a zero, or digits of which the first is not zero, with an
optional minus. One that is too long is refused as such, whatever follows it. -/
def readPlainInt (t : Text) : Except SettingFault Int :=
  let (negative, body) := Decimal.splitMinus t
  match Decimal.wholePart? body with
  | none => .error .notInt
  | some (digits, rest) =>
      if maxIntLength + rest.length < t.length then .error .intTooLong
      else if rest.isEmpty then .ok (Decimal.signedValue negative digits)
      else .error .notInt

/-- Whether a character is ignored at the ends of a number: a blank, but no separator between
units of information. -/
def isPadding (c : Char) : Bool := Text.isBlank c && !(28 ≤ c.toNat && c.toNat ≤ 31)

/-- A text without the padding at its ends. -/
def unpadded (t : Text) : Text :=
  ((t.dropWhile isPadding).reverse.dropWhile isPadding).reverse

/-- A text without the plus it may start with; no minus may follow the plus. -/
def dropPlus? : Text → Option Text
  | '+' :: '-' :: _ => none
  | '+' :: t => some t
  | t => some t

/-- A text without the zeros, and underscores among them, in front of its first other digit. That
digit may have a minus; in front of a point or at the end the last of them stays. A text that
starts with neither a digit nor a minus has no such form. -/
def dropLeadingZeros? (t : Text) : Option Text :=
  let leads (c : Char) : Bool := c == '0' || c == '_'
  match t with
  | '0' :: _ =>
      let last := (t.takeWhile leads).getLastD '0'
      match t.dropWhile leads with
      | [] => some [last]
      | '.' :: rest => some (last :: '.' :: rest)
      | c :: rest => if c.isDigit || c == '-' then some (c :: rest) else none
  | c :: _ => if c.isDigit || c == '-' then some t else none
  | [] => none

/-- A text without the fraction it may end in, a point with one or more zeros. No other point may
stand in it. -/
def dropZeroFraction? (t : Text) : Option Text :=
  match t.dropWhile (· != '.') with
  | [] => some t
  | _ :: zeros =>
      if zeros.isEmpty || zeros.any (· != '0') then none else some (t.takeWhile (· != '.'))

/-- Whether two underscores stand next to each other in a text. -/
def hasDoubleUnderscore : Text → Bool
  | '_' :: '_' :: _ => true
  | _ :: t => hasDoubleUnderscore t
  | [] => false

/-- A text without underscores; they stand one by one, and not at its ends. -/
def dropUnderscores? (t : Text) : Option Text :=
  if t.head? = some '_' || t.getLast? = some '_' || hasDoubleUnderscore t then none
  else some (t.filter (· != '_'))

/-- What is left of a whole number in free form: without padding, a plus, leading zeros, a
fraction of zeros, and underscores between its digits. -/
def cleaned? (t : Text) : Option Text :=
  dropPlus? (unpadded t) >>= dropLeadingZeros? >>= dropZeroFraction? >>= dropUnderscores?

/-- Reads a whole number, in plain form or else in free form. -/
def readInt (t : Text) : Except SettingFault Int :=
  match readPlainInt t with
  | .error .notInt =>
      match cleaned? t with
      | some plain => readPlainInt plain
      | none => .error .notInt
  | result => result

/-- Reads a depth of nesting, which is at least one. -/
def readDepth (t : Text) : Except SettingFault Int := do
  let n ← readInt t
  if n < 1 then .error .tooSmall else .ok n

/-! ## The environment -/

/-- The variables of an environment, each once. A variable that is set again keeps its place. -/
def environment (vars : List (Text × Text)) : List (Text × Text) :=
  let set (env : List (Text × Text)) (v : Text × Text) : List (Text × Text) :=
    if env.any (·.1 = v.1) then env.map fun w => if w.1 = v.1 then v else w else env ++ [v]
  vars.foldl set []

/-- The text that an environment has for a setting, the last one if several variables name
it. -/
def textFor? (env : List (Text × Text)) (s : Setting) : Option Text :=
  let name := Text.lower ("SQW_".toList ++ s.name)
  (env.reverse.find? fun v => Text.lower v.1 = name).map Prod.snd

/-- Reads a setting from the environment; without a variable the default stands. -/
def readSetting {α : Type} (env : List (Text × Text)) (s : Setting) (default : α)
    (read : Text → Except SettingFault α) : Except (Setting × SettingFault) α :=
  match textFor? env s with
  | none => .ok default
  | some t => (read t).mapError fun fault => (s, fault)

/-- The fault of a setting, if it has one. -/
def faultOf {α : Type} : Except (Setting × SettingFault) α → List (Setting × SettingFault)
  | .ok _ => []
  | .error f => [f]

/-- The settings under an environment, or all that is wrong with its variables. -/
def ofEnvironment (vars : List (Text × Text)) :
    Except (List (Setting × SettingFault)) Settings :=
  let env := environment vars
  let defaults : Settings := {}
  let quiet := readSetting env .quiet defaults.quiet readBool
  let marker := readSetting env .marker defaults.marker readMarker
  let strict := readSetting env .strict defaults.strict readBool
  let maxDepth := readSetting env .maxDepth defaults.maxDepth readDepth
  match quiet, marker, strict, maxDepth with
  | .ok quiet, .ok marker, .ok strict, .ok maxDepth =>
      .ok { quiet, marker, strict, maxDepth }
  | _, _, _, _ => .error (faultOf quiet ++ faultOf marker ++ faultOf strict ++ faultOf maxDepth)

/-- The expander that the settings describe. -/
def expander (s : Settings) : Except SetupError Expander :=
  Expander.create s.marker s.strict s.maxDepth s.room

end Settings

end SqlTemplate
