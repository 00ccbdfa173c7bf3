import ClipGraph.Failure
import ClipGraph.Toml.Reader

/-!
# Settings

What a user may choose once for all projects: what to log and where, and how scripts are written
beside their projects.

Settings stand in a TOML document under four keys, one pair to a line. A key that is not there leaves
its setting as it is by standard, and other keys are of no concern. A value of the wrong kind is a
fault of the document, found before the extension is looked at. The document is loaded from a file
that is named, or from the usual place, where no file means the standard settings.
-/

namespace ClipGraph

structure Settings where
  logFilter : Option String
  logDirectory : Option FilePath
  scriptExtension : String
  overwrite : Bool
  deriving DecidableEq, Repr

namespace Settings

def standard : Settings := ⟨none, none, "vpy", false⟩

/-- The filter for the log when none is chosen. -/
def standardLogFilter : String := "info,vsgraph=debug"

def effectiveLogFilter (s : Settings) : String := s.logFilter.getD standardLogFilter

/-- Where the script of a project goes when it is written beside it. -/
def scriptPath (s : Settings) (project : FilePath) : FilePath :=
  project.withExtension (Utf8.encode s.scriptExtension)

/-- Whether an extension only names a kind of file, and neither a place nor a second extension. -/
def isBareExtension (extension : String) : Bool :=
  !extension.isEmpty && extension.toList.all fun c => c != '/' && c != '\\' && c != '.'

def logFilterKey : String := "log_filter"

def logDirectoryKey : String := "log_dir"

def scriptExtensionKey : String := "script_extension"

def overwriteKey : String := "overwrite"

/-- The text under a key, if the key is there. Nothing comes of a value of another kind. -/
def text? (entries : Toml.Entries) (key : String) : Option (Option String) :=
  match entries.lookup key with
  | none => some none
  | some (.scalar (.string s)) => some (some s)
  | some _ => none

def boolean? (entries : Toml.Entries) (key : String) : Option (Option Bool) :=
  match entries.lookup key with
  | none => some none
  | some (.scalar (.boolean b)) => some (some b)
  | some _ => none

def ofEntries? (entries : Toml.Entries) : Option Settings := do
  let logFilter ← text? entries logFilterKey
  let logDirectory ← text? entries logDirectoryKey
  let extension ← text? entries scriptExtensionKey
  let overwrite ← boolean? entries overwriteKey
  return ⟨logFilter, logDirectory.map FilePath.ofText, extension.getD standard.scriptExtension,
    overwrite.getD standard.overwrite⟩

def parse (text : String) : Except ConfigFault Settings :=
  match (Toml.Entries.ofText? text).bind ofEntries? with
  | none => .error .badToml
  | some s =>
    if isBareExtension s.scriptExtension then .ok s else .error (.badExtension s.scriptExtension)

def line (key : String) (value : List Char) : List Char :=
  key.toList ++ " = ".toList ++ value ++ ['\n']

def textLine (key text : String) : List Char := line key (Toml.Quoted.write text.toList)

def booleanLine (key : String) (b : Bool) : List Char :=
  line key (if b then "true".toList else "false".toList)

/-- The document that holds the settings. A directory whose path is no text cannot be written. -/
def write (s : Settings) : Except ConfigFault String := do
  let logFilter := match s.logFilter with
    | some filter => textLine logFilterKey filter
    | none => []
  let logDirectory ← match s.logDirectory with
    | none => .ok []
    | some path =>
      match path.text? with
      | some text => .ok (textLine logDirectoryKey text)
      | none => .error .unwritableLogDir
  return .ofList (logFilter ++ logDirectory ++ textLine scriptExtensionKey s.scriptExtension ++
    booleanLine overwriteKey s.overwrite)

variable {m : Type → Type} [Monad m] [Disk m]

/-- The usual file of settings below the directory where a user keeps such things. -/
def usualPath (directory : FilePath) : FilePath :=
  (directory.join "dev.vsgraph").join "config.toml"

def load (path : FilePath) : m (Except Failure Settings) := do
  match ← Disk.readText path with
  | .error cause => return .error (.config (.unreadable .config path cause))
  | .ok text =>
    match parse text with
    | .ok s => return .ok s
    | .error fault =>
      return .error (.within s!"Failed to parse config file {path.quoted}" (.config fault))

/-- Loads the settings at the usual path, if there are any. -/
def loadUsual (path : Option FilePath) : m (Except Failure Settings) := do
  match path with
  | none => return .ok standard
  | some path => if ← Disk.pathExists path then load path else return .ok standard

/-- Loads settings from the path that is named, or else from the usual one. What cannot be loaded is
as if nothing were chosen. -/
def loadOrStandard (named usual : Option FilePath) : m Settings := do
  let loaded ← match named with
    | some path => load path
    | none => loadUsual usual
  match loaded with
  | .ok s => return s
  | .error _ => return standard

/-- Saves settings at a path, whose directory is made first. -/
def save (s : Settings) (path : FilePath) : m (Except Failure Unit) := do
  match ← Disk.makeParent path with
  | .error cause => return .error (.config (.noDirectory .config cause))
  | .ok () =>
    match s.write with
    | .error fault => return .error (.config fault)
    | .ok text =>
      match ← Disk.writeText path text with
      | .error cause => return .error (.config (.unwritable .config path cause))
      | .ok () => return .ok ()

end Settings

end ClipGraph
