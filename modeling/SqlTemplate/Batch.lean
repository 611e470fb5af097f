import SqlTemplate.Console
import SqlTemplate.Files.Glob
import SqlTemplate.Node.Display
import SqlTemplate.Options.Arguments
import SqlTemplate.Settings

set_option autoImplicit false

/-!
# A run over a directory of templates

The program expands every template below an input directory that a pattern selects and writes
the result under the same names below an output directory. A run takes a snapshot of the files to
what was printed, the files afterwards, and how the run ended.

A template that does not expand is reported, nothing is written for it, and the run goes on with
the next one; the exit code is then one. What ends a run on the spot is a template that is no
text or needs a value that has none, a structure that is nested too deeply to be shown, something
that the console does not print, a pattern that is none, or a file that cannot be written. The files
written before that stay.
-/

namespace SqlTemplate

/-- What ends a run on the spot. -/
inductive RunError where
  | args (reason : LoadError)
  | noPattern
  | pattern (reason : Glob.PatternError)
  -- a path cannot be followed, or a file cannot be written
  | file (reason : FileError)
  | encoding (reason : Utf8.Fault)
  | setup (reason : SetupError)
  -- a value that a template needs has no text
  | noText (fault : FormatFault)
  -- a tree is nested too deeply to be shown
  | exhausted
  -- the console does not print something
  | console (message : Text)

/-- What is reported to the user. -/
def RunError.message : RunError → Text
  | .args e => e.message
  | .noPattern => "Unacceptable pattern: []".toList
  | .pattern e => e.message
  | .file e => e.message
  | .encoding e => e.message
  | .setup e => e.message
  | .noText fault => fault.message
  | .exhausted => Stack.exhaustedMessage
  | .console message => message

/-- What a run has done so far. -/
structure Progress where
  console : List ConsoleItem := []
  files : Snapshot
  count : Nat := 0
  -- whether a template did not expand
  failed : Bool := false

/-- Prints an item, unless the console refuses it, which ends the run. -/
def Progress.print (s : Progress) (console : Console) (item : ConsoleItem) :
    Progress × Option RunError :=
  match console.fault? item with
  | some message => (s, some (.console message))
  | none => ({ s with console := s.console ++ [item] }, none)

/-- What a run does with every template. -/
structure Batch where
  console : Console
  expander : Expander
  -- the arguments, none to copy the templates
  args : Value
  showTree : Bool
  input : List Text
  output : List Text

namespace Batch

/-- What is written for a template with the given expansion. An expansion by arguments ends in
a newline; a template that is only copied has none added. -/
def written (b : Batch) (expansion : Text) : List UInt8 :=
  match b.args with
  | .none => Utf8.encode expansion
  | _ => Utf8.encode (expansion ++ ['\n'])

/-- The line that reports a template that does not expand. -/
def failureLine (path : Path) (error : Text) : Text :=
  "[bold red]".toList ++ path.text ++ ":[/bold red] ".toList ++ error

/-- Shows the structure of a template, if that is wanted and the template has one. -/
def show? (b : Batch) (title template : Text) (s : Progress) : Progress × Option RunError :=
  if b.showTree then
    match b.expander.build template with
    | .error _ => (s, none)
    | .ok tree =>
        match tree.outline b.console.escape b.expander.room title with
        | .ok o => s.print b.console (.outline o)
        | .error .exhausted => (s, some .exhausted)
        | .error (.foreign x) => x.elim
  else (s, none)

/-- Writes or reports what became of a template: `names` lead to it from the input directory. -/
def deliver (b : Batch) (names : List Text) (expansion : Expansion) (s : Progress) :
    Progress × Option RunError :=
  match expansion.error with
  | some e =>
      let path : Path := { names := b.input ++ names }
      { s with failed := true }.print b.console (.line (failureLine path e))
  | none =>
      match s.files.store (b.output ++ names) (b.written expansion.text) with
      | .ok files => ({ s with files }, none)
      | .error e => (s, some (.file e))

/-- Takes one template through the run. -/
def expandFile (b : Batch) (names : List Text) (template : Text) (s : Progress) :
    Progress × Option RunError :=
  match b.show? (names.getLastD []) template s with
  | (s, some e) => (s, some e)
  | (s, none) =>
      match b.expander.expand template b.args with
      | .error fault => (s, some (.noText fault))
      | .ok expansion => b.deliver names expansion s

/-- Takes what a selected path leads to through the run. Only files are templates. -/
def processPath (b : Batch) (names : List Text) (s : Progress) : Progress × Option RunError :=
  match s.files.lookAt (b.input ++ names) with
  | .ok (.file content) =>
      let s := { s with count := s.count + 1 }
      match Utf8.readFile content with
      | .error e => (s, some (.encoding e))
      | .ok template => b.expandFile names template s
  | _ => (s, none)

/-- Takes selected paths through the run in order, up to an error that ends it. -/
def processPaths (b : Batch) : List (List Text) → Progress → Progress × Option RunError
  | [], s => (s, none)
  | names :: rest, s =>
      match b.processPath names s with
      | (s', some e) => (s', some e)
      | (s', none) => b.processPaths rest s'

end Batch

/-- How a run ended, what was printed and the files afterwards. -/
structure RunResult where
  console : List ConsoleItem
  files : Snapshot
  -- the exit code, or what ended the run on the spot
  ending : Except RunError Nat

/-- The line that reports arguments that cannot be loaded. -/
def loadFailureLine (e : LoadError) : Text :=
  "[bold red]Could not load arguments:[/bold red] ".toList ++ e.message

/-- The line that reports that there was no template. -/
def noTemplatesLine (pattern : Text) (input : Path) : Text :=
  "[bold yellow]No templates matching '".toList ++ pattern ++ "' in ".toList ++ input.text
    ++ "[/bold yellow]".toList

/-- The line that every run starts with. -/
def banner : Text := "sqlweave: conditional SQL template expansion".toList

/-- Ends a run over templates: where there were none, a line says so. -/
def Batch.finish (b : Batch) (pattern : Text) (s : Progress) : Progress × Option RunError :=
  if s.count = 0 then s.print b.console (.line (noTemplatesLine pattern { names := b.input }))
  else (s, none)

/-- What became of a run that has got so far, and has ended with an error if there was one. -/
def RunResult.ofProgress : Progress × Option RunError → RunResult
  | (s, some e) => { console := s.console, files := s.files, ending := .error e }
  | (s, none) =>
      { console := s.console, files := s.files, ending := .ok (if s.failed then 1 else 0) }

@[simp] theorem RunResult.ofProgress_error (s : Progress) (e : RunError) :
    ofProgress (s, some e) = { console := s.console, files := s.files, ending := .error e } :=
  rfl

/-- Expands the templates below an input directory that a pattern selects. -/
def Batch.processPattern (b : Batch) (pattern : Text) (files : Snapshot) : RunResult :=
  match Glob.Pattern.ofText pattern with
  | .error e => .ofProgress ({ files }, some (.pattern e))
  | .ok selectors =>
      match Glob.selectIn files b.input selectors with
      | .error e => .ofProgress ({ files }, some (.file e))
      | .ok paths =>
          match b.processPaths paths { files } with
          | (s, some e) => .ofProgress (s, some e)
          | (s, none) => .ofProgress (b.finish pattern s)

/-- Expands the templates below an input directory into an output directory. -/
def processFiles (console : Console) (settings : Settings) (o : Options)
    (input output : List Text) (files : Snapshot) : RunResult :=
  match o.loadArgs files with
  | .error e =>
      let s : Progress := { files, failed := true }
      if e.endsRun then .ofProgress ({ files }, some (.args e))
      else .ofProgress (s.print console (.line (loadFailureLine e)))
  | .ok args =>
      match settings.expander, o.pattern with
      | .error e, _ => .ofProgress ({ files }, some (.setup e))
      | .ok _, none => .ofProgress ({ files }, some .noPattern)
      | .ok expander, some pattern =>
          let batch : Batch := { console, expander, args, showTree := o.showTree, input, output }
          batch.processPattern pattern files

/-- A run of the program: the banner, and then the templates. -/
def run (console : Console) (settings : Settings) (o : Options) (input output : List Text)
    (files : Snapshot) : RunResult :=
  match ({ files } : Progress).print console (.line banner) with
  | (s, some e) => .ofProgress (s, some e)
  | (s, none) =>
      let r := processFiles console settings o input output files
      { r with console := s.console ++ r.console }

end SqlTemplate
