import ClipGraph.Failure
import ClipGraph.Graph

/-!
# Reports of failed runs

A run fails for one reason. Its report opens with what could not be done and lists the causes below,
numbered if there are several. A cause of several lines is indented as a whole.
-/

namespace ClipGraph.CommandLine

inductive Purpose where
  | script
  | validation
  deriving DecidableEq, Repr

inductive RunFault where
  | badSettings (path : FilePath) (failure : Failure)
  | badLogFilter
  | noLog (directory : FilePath) (cause : DiskFault)
  | badProject (failure : Failure)
  | badGraph (project : FilePath) (fault : GraphFault)
  /-- A graph without a script. `offenders` are the nodes that its fault points at. -/
  | noScript (purpose : Purpose) (project : FilePath) (fault : CompileFault)
    (offenders : List (NodeId × Node))
  | targetExists (target : FilePath)
  | unwritable (target : FilePath) (cause : DiskFault)
  deriving DecidableEq, Repr

namespace RunFault

def heading : RunFault → String
  | .badSettings path _ => s!"failed to load config: {path.display}"
  | .badLogFilter => "invalid log filter"
  | .noLog directory _ => s!"failed to create log directory: {directory.display}"
  | .badProject failure => failure.message
  | .badGraph project _ => s!"invalid graph in {project.display}"
  | .noScript .script project _ _ => s!"failed to compile {project.display}"
  | .noScript .validation project _ _ => s!"{project.display} failed validation"
  | .targetExists target =>
    s!"{target.display} already exists (use --force or set overwrite = true)"
  | .unwritable target _ => s!"failed to write script: {target.display}"

def listed (nodes : List (NodeId × Node)) : String :=
  String.intercalate ", " (nodes.map fun (id, node) => s!"{id.text} '{node.label}'")

/-- What lies below, nearest first. -/
def causes : RunFault → List String
  | .badSettings _ failure => failure.message :: failure.causes
  | .badLogFilter => ["invalid filter directive"]
  | .noLog _ cause => [cause.message]
  | .badProject failure => failure.causes
  | .badGraph _ fault => (Failure.graph fault).message :: (Failure.graph fault).causes
  | .noScript _ _ fault offenders =>
    (if offenders.isEmpty then [] else ["offending nodes: " ++ listed offenders]) ++
      fault.message :: fault.causes
  | .targetExists _ => []
  | .unwritable _ cause => [cause.message]

end RunFault

/-- A text with every line after the first indented. -/
def indent (blanks : Nat) (text : String) : String :=
  String.ofList (text.toList.flatMap fun c =>
    if c = '\n' then '\n' :: List.replicate blanks ' ' else [c])

def numberedCause (number : Nat) (cause : String) : String :=
  let digits := toString number
  String.ofList (List.replicate (5 - digits.length) ' ') ++ digits ++ ": " ++ indent 7 cause ++ "\n"

def causeList : List String → String
  | [] => ""
  | [cause] => "\nCaused by:\n    " ++ indent 4 cause ++ "\n"
  | causes =>
    "\nCaused by:\n" ++ String.join (causes.zipIdx.map fun (cause, i) => numberedCause i cause)

def RunFault.report (fault : RunFault) : String :=
  "Error: " ++ fault.heading ++ "\n" ++ causeList fault.causes

end ClipGraph.CommandLine
