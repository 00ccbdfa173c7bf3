import ClipGraph.Failure
import ClipGraph.Project.Reader
import ClipGraph.Project.Writer

/-!
# Project files

A project from its text, from a file and to a file. A text of a newer version than this library
knows is refused after it has been read.
-/

namespace ClipGraph.Project

def parse (text : String) : Except Failure Project :=
  match Json.Reader.document reader text with
  | .error fault => .error (.document (.json fault))
  | .ok p =>
    if p.version ≤ currentVersion then .ok p
    else .error (.config (.newerVersion p.version currentVersion))

def load {m : Type → Type} [Monad m] [Disk m] (path : FilePath) :
    m (Except Failure Project) := do
  match ← Disk.readText path with
  | .error cause => return .error (.config (.unreadable .project path cause))
  | .ok text =>
    match parse text with
    | .ok p => return .ok p
    | .error failure => return .error (.within s!"Failed to load project file {path.quoted}" failure)

/-- Saves a project at a path, whose directory is made first. -/
def save {m : Type → Type} [Monad m] [Disk m] (p : Project) (path : FilePath) :
    m (Except Failure Unit) := do
  match ← Disk.makeParent path with
  | .error cause => return .error (.config (.noDirectory .project cause))
  | .ok () =>
    match p.write with
    | .error fault => return .error (.document (.json fault))
    | .ok text =>
      match ← Disk.writeText path text with
      | .error cause => return .error (.config (.unwritable .project path cause))
      | .ok () => return .ok ()

end ClipGraph.Project
