import ClipGraph.FilePath

/-!
# Files and directories

What the rest of the library asks of a file system, and what can go wrong with it.
-/

namespace ClipGraph

inductive DiskFault where
  | notFound
  | exists
  | notDirectory
  | isDirectory
  /-- A file that is read as text holds something else. -/
  | notText
  | nameTooLong
  /-- A path holds a zero byte, which no name may. -/
  | zeroInName
  /-- Anything else that the system reports. -/
  | other (text : String)
  deriving DecidableEq, Repr

def DiskFault.message : DiskFault → String
  | .notFound => "No such file or directory (os error 2)"
  | .exists => "File exists (os error 17)"
  | .notDirectory => "Not a directory (os error 20)"
  | .isDirectory => "Is a directory (os error 21)"
  | .notText => "stream did not contain valid UTF-8"
  | .nameTooLong => "File name too long (os error 36)"
  | .zeroInName => "file name contained an unexpected NUL byte"
  | .other text => text

class Disk (m : Type → Type) where
  /-- The text of a file. -/
  readText : FilePath → m (Except DiskFault String)
  /-- Puts a text into a file, which is made if it is not there. -/
  writeText : FilePath → String → m (Except DiskFault Unit)
  /-- Makes a directory and whatever directories it lies in. -/
  makeDirectories : FilePath → m (Except DiskFault Unit)
  /-- Whether there is anything at a path. -/
  pathExists : FilePath → m Bool

def Disk.makeParent {m : Type → Type} [Monad m] [Disk m] (path : FilePath) :
    m (Except DiskFault Unit) :=
  match path.parent? with
  | none => return .ok ()
  | some parent => Disk.makeDirectories parent

end ClipGraph
