import SqlTemplate.Batch
import SqlTemplate.Options.CommandLine

set_option autoImplicit false

/-!
# The command line

The program as it is run: options, then the input directory and the output directory, both below
the working directory. This layer reads the files into a snapshot, lets the run take place in it,
and then writes what the run has changed and prints what it has printed.
-/

namespace SqlTemplate

/-- The environment variables that are read. -/
def settingVariables : List String :=
  ["SQW_BEQUIET", "SQW_VARMARKER", "SQW_STRICTDELIMITERS", "SQW_MAXDEPTH"]

/-- The settings under the environment of the program. -/
def loadSettings : IO (Except (List (Setting × SettingFault)) Settings) := do
  let vars ← settingVariables.filterMapM fun name => do
    return (← IO.getEnv name).map fun value => (name.toList, value.toList)
  return Settings.ofEnvironment vars

/-- The name in the file system of what stands at a place. -/
def fileName (names : List Text) : String := String.ofList (Path.text { root := ['/'], names })

/-- Adds a directory and those around it to a snapshot. -/
def loadAround (s : Snapshot) (names : List Text) : Snapshot :=
  (List.range names.length).foldl (fun s n => s.set (names.take (n + 1)) .directory) s

/-- Adds a file to a snapshot, if it can be read. -/
def loadFile (s : Snapshot) (names : List Text) : IO Snapshot := do
  try
    let content ← IO.FS.readBinFile (fileName names)
    return s.set names (.file content.toList)
  catch _ => return s

/-- Adds a directory and everything below it to a snapshot. -/
partial def loadDirectory (s : Snapshot) (names : List Text) : IO Snapshot := do
  let entries ← (← IO.FS.realPath (fileName names)).readDir
  entries.foldlM
    (fun s entry => do
      let below := names ++ [entry.fileName.toList]
      if ← entry.path.isDir then loadDirectory s below else loadFile s below)
    (loadAround s names)

/-- Adds the file that a path leads to to a snapshot, if there is one. -/
def loadPath (s : Snapshot) (path : Path) : IO Snapshot := do
  let names := ((s.start path).resolve path.names).names
  let s' ← loadFile s names
  return if (s'.entry? (.inside names)).isSome then loadAround s' names.dropLast else s

/-- Brings the file system to the state of a snapshot: what stands in `before` is there
already. -/
def saveChanges (before after : Snapshot) : IO Unit := do
  for (names, entry) in after.entries do
    if before.entry? (.inside names) != some entry then
      match entry with
      | .directory => IO.FS.createDirAll (fileName names)
      | .file content => IO.FS.writeBinFile (fileName names) content.toByteArray

/-- The console, which prints everything, without styles. -/
def plainConsole : Console := { escape := Markup.escape }

/-- Prints on the console, without styles. -/
def printItem : ConsoleItem → IO Unit
  | .line markup => IO.println (String.ofList (Markup.plain markup))
  | .outline o => IO.print (String.ofList o.render)

/-- Carries out the options on an input and an output directory. -/
def runOptions (settings : Settings) (o : Options) (input output : Text) : IO UInt32 := do
  let inputNames := Path.namesIn input
  let outputNames := Path.namesIn output
  let home := Path.namesIn (← IO.currentDir).toString.toList
  let start : Snapshot := loadAround { home, entries := [] } home
  let place (names : List Text) : List Text := ((Place.inside home).resolve names).names
  IO.FS.createDirAll (fileName (place outputNames))
  let before ← loadDirectory start (place inputNames)
  let before ← loadDirectory before (place outputNames)
  let before ← loadPath before (Path.ofText (o.argsFile.getD []))
  let r := run plainConsole settings o inputNames outputNames before
  saveChanges before r.files
  for item in r.console do
    printItem item
  match r.ending with
  | .ok code => return code.toUInt32
  | .error e =>
      IO.eprintln (String.ofList e.message)
      return 1

end SqlTemplate

open SqlTemplate in
/-- The last two words of the command line are the directories, and the others the options. -/
def main (argv : List String) : IO UInt32 := do
  let words := argv.map String.toList
  let options := words.take (words.length - 2)
  match words.drop (words.length - 2), Options.read options with
  | [input, output], .ok o =>
      match ← loadSettings with
      | .ok settings => runOptions settings o input output
      | .error faults =>
          for (setting, fault) in faults do
            IO.eprintln (String.ofList (setting.name ++ ": ".toList ++ fault.name))
          return 1
  | _, _ =>
      match Options.read words with
      | .error refusal =>
          let message := String.ofList refusal.message
          if refusal.exitCode = 0 then IO.println message else IO.eprintln message
          return refusal.exitCode.toUInt32
      | .ok _ =>
          IO.eprintln "an input and an output directory are required"
          return 2
