import SqlTemplate.Options
import SqlTemplate.Text.Digit

set_option autoImplicit false

/-!
# Reading the command line

The command line is a list of words. A word that starts with a dash and is no negative number
and has no space in it is an option; options with a value take the word behind them or the text
behind an equals sign. A long option may be shortened as long as it stays the only one with that
beginning, and short options may be written in a row. The last of repeated options counts. Words
that belong to no option are collected and refused together at the end, so whatever goes wrong
before that is reported first.
-/

namespace SqlTemplate

namespace Options

/-! ## Words of the command line -/

/-- A word of the command line by its role. -/
inductive Word where
  -- a value, or a word that belongs to no option
  | plain (text : Text)
  -- the two dashes behind which no word is an option
  | dashes
  -- an option, spelled out, with what is written directly behind it: the text behind an equals sign
  -- or, behind a short option, any text
  | option (flag : Flag) (short : Bool) (attached : Option Text)
  -- a word that looks like an option and is none
  | unknown (text : Text)
  deriving DecidableEq, Repr

/-- A text before its first equals sign, and what follows the sign if there is one. -/
def splitEquals (t : Text) : Text × Option Text :=
  match t.dropWhile (· != '=') with
  | _ :: value => (t.takeWhile (· != '='), some value)
  | [] => (t, none)

/-- Whether a text is one or more digits, up to a newline at its end. -/
def isDigits (t : Text) : Bool :=
  match t.dropWhile Text.isDecimalDigit with
  | [] => !t.isEmpty
  | ['\n'] => t.length != 1
  | _ => false

/-- Whether a word that starts with a dash is a negative number. -/
def isNegativeNumber (t : Text) : Bool :=
  let body := t.drop 1
  isDigits body ||
    match body.dropWhile Text.isDecimalDigit with
    | '.' :: fraction => isDigits fraction
    | _ => false

/-- Whether a spelling is that of a short option. -/
def isShort (spelling : Text) : Bool := spelling.length == 2

/-- The options that a word may be short for: a long one by its beginning, up to an equals
sign, and a short one with something attached. -/
def candidates (w : Text) : List (Text × Flag × Option Text) :=
  match w with
  | '-' :: '-' :: _ =>
      let (start, value) := splitEquals w
      (Flag.table.filter fun e => start.isPrefixOf e.1).map fun (s, f) => (s, f, value)
  | _ =>
      (Flag.table.filter fun e => e.1 = w.take 2).map fun (s, f) => (s, f, some (w.drop 2))

/-- The role of a word in front of the two dashes. -/
def classify (w : Text) : Except Refusal Word :=
  match w with
  | '-' :: _ :: _ =>
      match Flag.ofSpelling? w with
      | some f => .ok (.option f (isShort w) none)
      | none =>
          let (start, value) := splitEquals w
          match value, Flag.ofSpelling? start with
          | some v, some f => .ok (.option f (isShort start) (some v))
          | _, _ =>
              match candidates w with
              | [(s, f, attached)] => .ok (.option f (isShort s) attached)
              | [] =>
                  if isNegativeNumber w || w.contains ' ' then .ok (.plain w)
                  else .ok (.unknown w)
              | several => .error (.ambiguous w (several.map Prod.fst))
  | _ => .ok (.plain w)

/-- The roles of the words of a command line. -/
def classifyAll : List Text → Except Refusal (List Word)
  | [] => .ok []
  | w :: ws =>
      if w = "--".toList then .ok (.dashes :: ws.map .plain)
      else do
        let word ← classify w
        let words ← classifyAll ws
        return word :: words

/-! ## Options in order -/

/-- The value that is attached to an option; two dashes alone stand for none. -/
def attachedValue (t : Text) : Option Text := if t = "--".toList then none else some t

/-- Sets an option that has a value. -/
def setValue (o : Options) (f : Flag) (v : Option Text) : Options :=
  match f with
  | .args => { o with args := v }
  | .argsFile => { o with argsFile := v }
  | .pattern => { o with pattern := v }
  | .help | .showTree | .version => o

/-- Carries out an option without a value. -/
def perform (o : Options) (f : Flag) : Except Refusal Options :=
  match f with
  | .help => .error .help
  | .version => .error .version
  | .showTree => .ok { o with showTree := true }
  | .args | .argsFile | .pattern => .ok o

/-- Checks what is attached to a short option without a value: further ones, up to the end of the
word. -/
def checkRow (f : Flag) : Text → Except Refusal Unit
  | [] => .ok ()
  | c :: rest =>
      match Flag.ofSpelling? ['-', c] with
      | some g => checkRow g rest
      | none => .error (.ignoredValue f (c :: rest))

/-- Checks what is attached to an option without a value. -/
def checkAttached (f : Flag) (short : Bool) (t : Text) : Except Refusal Unit :=
  if short && !t.isEmpty then checkRow f t else .error (.ignoredValue f t)

/-- Takes the words in order; `others` are the words so far that belong to no option, the last
one first. -/
def process (o : Options) (others : List Text) : List Word → Except Refusal Options
  | [] => if others.isEmpty then .ok o else .error (.unrecognized others.reverse)
  | .plain t :: ws => process o (t :: others) ws
  | .dashes :: ws => process o ("--".toList :: others) ws
  | .unknown t :: ws => process o (t :: others) ws
  | .option f short attached :: ws =>
      if f.takesValue then
        match attached, ws with
        | some t, ws => process (o.setValue f (attachedValue t)) others ws
        | none, .plain v :: ws => process (o.setValue f (some v)) others ws
        | none, _ => .error (.missingValue f)
      else
        match attached with
        | none =>
            match o.perform f with
            | .error e => .error e
            | .ok o' => process o' others ws
        | some t =>
            match checkAttached f short t with
            | .error e => .error e
            | .ok () =>
                match o.perform f with
                | .error e => .error e
                | .ok o' => process o' others ws

/-- The options of a command line. -/
def read (argv : List Text) : Except Refusal Options := do
  process {} [] (← classifyAll argv)

end Options

end SqlTemplate
