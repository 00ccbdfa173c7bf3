import ClipGraph.CommandLine.Run

/-!
# The program

The command line on the files of the system. Settings are kept below `XDG_CONFIG_HOME`, or below
`.config` in the home directory.
-/

namespace ClipGraph

def DiskFault.ofSystem : IO.Error → DiskFault
  | .noFileOrDirectory _ _ _ => .notFound
  | .alreadyExists _ _ _ => .exists
  | .inappropriateType _ code _ => if code = 20 then .notDirectory else .isDirectory
  | .invalidArgument _ 36 _ => .nameTooLong
  | fault => .other (toString fault)

def onSystem {α : Type} (action : IO α) : IO (Except DiskFault α) := do
  try
    return .ok (← action)
  catch fault => return .error (DiskFault.ofSystem fault)

instance : Disk IO where
  readText path := do
    match ← onSystem (IO.FS.readBinFile path.display) with
    | .error fault => return .error fault
    | .ok bytes =>
      match Utf8.decode? bytes.toList with
      | some text => return .ok text
      | none => return .error .notText
  writeText path text := onSystem (IO.FS.writeFile path.display text)
  makeDirectories path :=
    if path.bytes = [] then return .ok () else onSystem (IO.FS.createDirAll path.display)
  pathExists path := do
    match ← onSystem (IO.FS.realPath path.display) with
    | .ok _ => return true
    | .error _ => return false

/-- The directory in which a user keeps settings. -/
def settingsDirectory : IO (Option FilePath) := do
  match ← IO.getEnv "XDG_CONFIG_HOME" with
  | some directory =>
    if (FilePath.ofText directory).isAbsolute then return some (.ofText directory)
  | none => pure ()
  return (← IO.getEnv "HOME").map fun home => (FilePath.ofText home).join ".config"

end ClipGraph

def main (arguments : List String) : IO UInt32 := do
  let directory ← ClipGraph.settingsDirectory
  let outcome ← ClipGraph.CommandLine.run ⟨directory, none⟩ arguments
  (← IO.getStdout).putStr outcome.output
  (← IO.getStderr).putStr outcome.errors
  return outcome.status.toUInt32
