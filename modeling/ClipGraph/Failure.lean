import ClipGraph.Disk
import ClipGraph.Json.Fault
import ClipGraph.Script.Fault

/-!
# Failures

Everything that can go wrong outside the compiler, the faults of graphs and scripts included. A
failure may be wrapped in notes on what was being done; each layer shows the ones below it.
-/

namespace ClipGraph

inductive FileRole where
  | project
  | config
  deriving DecidableEq, Repr

def FileRole.text : FileRole → String
  | .project => "project"
  | .config => "config"

inductive ConfigFault where
  | unreadable (role : FileRole) (path : FilePath) (cause : DiskFault)
  | unwritable (role : FileRole) (path : FilePath) (cause : DiskFault)
  | noDirectory (role : FileRole) (cause : DiskFault)
  | newerVersion (version newest : UInt32)
  | badExtension (extension : String)
  /-- The text is no TOML, or a value in it is of the wrong kind. -/
  | badToml
  /-- A directory for logs that is no text cannot be written. -/
  | unwritableLogDir
  | other (text : String)
  deriving DecidableEq, Repr

def ConfigFault.message : ConfigFault → String
  | .unreadable role path cause =>
    s!"Failed to read {role.text} file {path.quoted}: {cause.message}"
  | .unwritable role path cause =>
    s!"Failed to write {role.text} file {path.quoted}: {cause.message}"
  | .noDirectory role cause => s!"Failed to create {role.text} directory: {cause.message}"
  | .newerVersion version newest =>
    s!"Unsupported project file version {version.toNat} (newest supported is {newest.toNat})"
  | .badExtension extension =>
    s!"script_extension must be a bare extension, got {Text.quoted extension}"
  | .badToml => "TOML parse error"
  | .unwritableLogDir => "Failed to serialize config: path contains invalid UTF-8 characters"
  | .other text => text

inductive DocumentFault where
  | json (fault : Json.Fault)
  | other (text : String)
  deriving DecidableEq, Repr

def DocumentFault.message : DocumentFault → String
  | .json fault => fault.message
  | .other text => text

inductive Failure where
  | graph (fault : GraphFault)
  | compile (fault : CompileFault)
  | config (fault : ConfigFault)
  | disk (fault : DiskFault)
  | document (fault : DocumentFault)
  | within (note : String) (inner : Failure)
  deriving DecidableEq, Repr

/-- The texts of what lies below a fault of compilation. -/
def CompileFault.causes : CompileFault → List String
  | .invalidGraph fault => [fault.message]
  | _ => []

namespace Failure

def message : Failure → String
  | .graph fault => s!"Graph error: {fault.message}"
  | .compile fault => s!"Compile error: {fault.message}"
  | .config fault => s!"Configuration error: {fault.message}"
  | .disk fault => s!"IO error: {fault.message}"
  | .document fault => s!"Serialization error: {fault.message}"
  | .within note inner => s!"{note}: {inner.message}"

def compileFault? : Failure → Option CompileFault
  | .compile fault => some fault
  | .within _ inner => inner.compileFault?
  | _ => none

/-- The texts of what a failure comes from, nearest first. -/
def causes : Failure → List String
  | .graph fault => [fault.message]
  | .compile fault => fault.message :: fault.causes
  | .config _ => []
  | .disk fault => [fault.message]
  | .document _ => []
  | .within _ inner => inner.message :: inner.causes

end Failure
end ClipGraph
