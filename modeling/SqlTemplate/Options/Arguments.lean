import SqlTemplate.Files.Snapshot
import SqlTemplate.Json.Reader
import SqlTemplate.Options
import SqlTemplate.Text.Utf8

set_option autoImplicit false

/-!
# The arguments of a run

Arguments come from the file that the options name, or else from the command line, in either case
as JSON.
-/

namespace SqlTemplate

/-- Why the arguments of a run cannot be loaded. -/
inductive LoadError where
  | file (reason : FileError)
  -- the name of the file holds a character of code zero
  | nullCharacter
  | encoding (reason : Utf8.Fault)
  | json (reason : Json.Error)
  deriving DecidableEq

/-- What is reported to the user. -/
def LoadError.message : LoadError → Text
  | .file e => e.message
  | .nullCharacter => "embedded null byte".toList
  | .encoding e => e.message
  | .json e => e.message

/-- The value of a JSON text. -/
def readJson (t : Text) : Except LoadError Value := (Json.read t).mapError .json

/-- The text of a file. -/
def readTextFile (s : Snapshot) (path : Path) : Except LoadError Text :=
  if path.names.any (·.contains '\x00') then .error .nullCharacter
  else
    match s.read path with
    | .error e => .error (.file e)
    | .ok content => (Utf8.readFile content).mapError .encoding

/-- Whether a failure ends a run on the spot and is not only reported. -/
def LoadError.endsRun : LoadError → Bool
  | .json (.tooDeep _) | .json .loneHalf => true
  | _ => false

/-- The arguments that the options give: those of the file if one is named, and else those on
the command line, if there are any. -/
def Options.loadArgs (o : Options) (s : Snapshot) : Except LoadError Value :=
  match o.argsFile.getD [], o.args.getD [] with
  | [], [] => .ok .none
  | [], args => readJson args
  | path, _ => readTextFile s (Path.ofText path) >>= readJson

end SqlTemplate
