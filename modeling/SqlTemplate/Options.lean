import SqlTemplate.Text.Blank
import SqlTemplate.Text.Quoted

set_option autoImplicit false

/-!
# Options

What the program can be asked to do, how the options of the command line are spelled, and why a
command line is not carried out.
-/

namespace SqlTemplate

/-- What the program was asked to do. An option that was given without a value holds none. -/
structure Options where
  -- the arguments, as JSON; empty for none
  args : Option Text := some []
  -- the file with the arguments; empty for none
  argsFile : Option Text := some []
  pattern : Option Text := some "**/*.sql".toList
  showTree : Bool := false
  deriving DecidableEq

/-- The version of the program. -/
def version : Text := "0.1.0".toList

/-- The options of the command line. -/
inductive Flag where
  | help
  | args
  | argsFile
  | pattern
  | showTree
  | version
  deriving DecidableEq, Repr

namespace Flag

/-- How an option is written. -/
def spellings : Flag → List Text
  | .help => ["-h".toList, "--help".toList]
  | .args => ["--args".toList]
  | .argsFile => ["--argsFile".toList]
  | .pattern => ["--pattern".toList]
  | .showTree => ["--showAST".toList]
  | .version => ["-V".toList, "--version".toList]

/-- Whether an option has a value. -/
def takesValue : Flag → Bool
  | .args | .argsFile | .pattern => true
  | .help | .showTree | .version => false

/-- How an option is called in messages. -/
def title (f : Flag) : Text := Text.joinWith ['/'] f.spellings

/-- The options, in the order in which messages list them. -/
def all : List Flag := [.help, .args, .argsFile, .pattern, .showTree, .version]

/-- Every spelling with its option. -/
def table : List (Text × Flag) := all.flatMap fun f => f.spellings.map fun s => (s, f)

/-- The option with the given spelling. -/
def ofSpelling? (s : Text) : Option Flag := List.lookup s table

end Flag

/-- Why the command line is not carried out. -/
inductive Refusal where
  | help
  | version
  -- a shortened option can mean several
  | ambiguous (word : Text) (matching : List Text)
  | missingValue (flag : Flag)
  | ignoredValue (flag : Flag) (value : Text)
  | unrecognized (words : List Text)
  deriving DecidableEq, Repr

/-- What is reported to the user of a command line that is wrong; the version when it is asked
for. Reports have no blanks at their end. -/
def Refusal.message : Refusal → Text
  | .help => []
  | .version => SqlTemplate.version
  | .ambiguous w ms =>
      "ambiguous option: ".toList ++ w ++ " could match ".toList
        ++ Text.joinWith ", ".toList ms
  | .missingValue f => "argument ".toList ++ f.title ++ ": expected one argument".toList
  | .ignoredValue f v =>
      "argument ".toList ++ f.title ++ ": ignored explicit argument ".toList ++ v.quoted
  | .unrecognized ws => Text.trimEnd ("unrecognized arguments: ".toList ++ Text.unwords ws)

/-- The exit code of the program when the command line is not carried out. -/
def Refusal.exitCode : Refusal → Nat
  | .help | .version => 0
  | _ => 2

end SqlTemplate
