import ClipGraph.CommandLine.Help
import ClipGraph.CommandLine.Report
import ClipGraph.LogFilter
import ClipGraph.Project.File
import ClipGraph.Script
import ClipGraph.Settings

/-!
# Runs of the program

A run reads its arguments, loads the settings and then carries out one command on one project. Files
are only read until a script is there to be written, and a script is written in one step.
-/

namespace ClipGraph.CommandLine

/-- What a run takes from its surroundings: where a user keeps settings, and a log filter that counts
before that of the settings. -/
structure Environment where
  settingsDirectory : Option FilePath
  logFilter : Option String
  deriving Repr

structure Outcome where
  status : UInt8
  output : String
  errors : String
  deriving DecidableEq, Repr

section
variable {m : Type → Type} [Monad m] [Disk m]

/-- The settings for a run. Those that are named have to load; without a name, what does not load is
as if nothing were chosen. -/
def loadSettings (environment : Environment) (named : Option FilePath) :
    m (Except RunFault Settings) := do
  match named with
  | some path =>
    match ← Settings.load path with
    | .ok settings => return .ok settings
    | .error failure => return .error (.badSettings path failure)
  | none =>
    return .ok (← Settings.loadOrStandard none
      (environment.settingsDirectory.map Settings.usualPath))

/-- The file in a log directory that is written to. -/
def logName : String := "vsgraph.log"

/-- Checks the log filter and makes the directory that the log lies in. What is logged is of no
concern here. -/
def prepareLog (environment : Environment) (settings : Settings) : m (Except RunFault Unit) := do
  if environment.logFilter.any LogFilter.isValid || LogFilter.isValid settings.effectiveLogFilter then
    match settings.logDirectory with
    | none => return .ok ()
    | some directory =>
      match ← Disk.makeParent (directory.join logName) with
      | .ok () => return .ok ()
      | .error cause => return .error (.noLog directory cause)
  else return .error .badLogFilter

def loadGraph (project : FilePath) : m (Except RunFault Graph) := do
  match ← Project.load project with
  | .error failure => return .error (.badProject failure)
  | .ok p =>
    match p.toGraph with
    | .error fault => return .error (.badGraph project fault)
    | .ok g => return .ok g

/-- Writes a script to a target, which must not be there yet unless it may be overwritten. -/
def writeScript (script : Script) (target : FilePath) (overwrite : Bool) :
    m (Except RunFault Unit) := do
  if (← Disk.pathExists target) && !overwrite then return .error (.targetExists target)
  else
    match ← Disk.writeText target script.text with
    | .ok () => return .ok ()
    | .error cause => return .error (.unwritable target cause)

end

/-- A fault of compilation with the nodes that it points at. -/
def blame (purpose : Purpose) (project : FilePath) (g : Graph) (fault : CompileFault) : RunFault :=
  .noScript purpose project fault (fault.nodes.filterMap fun id => (g.node? id).map (id, ·))

def compileFor (purpose : Purpose) (project : FilePath) (g : Graph) : Except RunFault Script :=
  g.compile.mapError (blame purpose project g)

def checkText (project : FilePath) (stats : ScriptStats) : String :=
  s!"{project.display}: ok ({stats.emitted} of {stats.total} nodes emitted)\n"

/-- A node on a line of its own: place in the order, number, kind and label. -/
def orderLine (place : Nat) (id : NodeId) (node : Node) : String :=
  s!"{place}\t{id.text}\t{node.kind.title}\t{node.label}\n"

def orderText (g : Graph) : String :=
  String.join (g.order.zipIdx.filterMap fun (id, place) =>
    (g.node? id).map (orderLine place id))

def listOrder (project : FilePath) (g : Graph) : Except RunFault String :=
  match g.validate with
  | .error fault => .error (blame .validation project g fault)
  | .ok () => .ok (orderText g)

section
variable {m : Type → Type} [Monad m] [Disk m]

/-- Carries out a command and answers what it prints. -/
def perform (settings : Settings) (command : Command) : m (Except RunFault String) := do
  match command with
  | .compile project output write force =>
    match ← loadGraph project with
    | .error fault => return .error fault
    | .ok g =>
      match compileFor .script project g with
      | .error fault => return .error fault
      | .ok script =>
        match if write then some (settings.scriptPath project) else output with
        | none => return .ok script.text
        | some target =>
          match ← writeScript script target (force || settings.overwrite) with
          | .error fault => return .error fault
          | .ok () => return .ok ""
  | .check project =>
    match ← loadGraph project with
    | .error fault => return .error fault
    | .ok g =>
      return (compileFor .validation project g).map fun script => checkText project script.stats
  | .order project =>
    match ← loadGraph project with
    | .error fault => return .error fault
    | .ok g => return listOrder project g

/-- Does what the program is asked to do and answers what it prints. -/
def carryOut (environment : Environment) (invocation : Invocation) :
    m (Except RunFault String) := do
  match ← loadSettings environment invocation.config with
  | .error fault => return .error fault
  | .ok settings =>
    match ← prepareLog environment settings with
    | .error fault => return .error fault
    | .ok () => perform settings invocation.command

/-- What remains of a run that stops at its arguments. -/
def Halt.outcome : Halt → Outcome
  | .refused refusal => ⟨2, "", refusal.message ++ refusal.advice⟩
  | .help topic => ⟨0, helpText topic, ""⟩
  | .version => ⟨0, versionText, ""⟩

def run (environment : Environment) (arguments : List String) : m Outcome := do
  match Invocation.ofArguments arguments with
  | .error halt => return halt.outcome
  | .ok invocation =>
    match ← carryOut environment invocation with
    | .error fault => return ⟨1, "", fault.report⟩
    | .ok text => return ⟨0, text, ""⟩

end
end ClipGraph.CommandLine
