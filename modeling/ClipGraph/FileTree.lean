import ClipGraph.Disk

/-!
# File trees

A file system as a value: which places hold a file or a directory, and the directory in which
relative paths start. A path is followed part by part, and every part but the last has to lead to a
directory that is there. The root always is, and it lies in itself.
-/

namespace ClipGraph

/-- A place in a tree: the names on the way from the root. -/
abbrev Location := List (List UInt8)

inductive Content where
  | file (bytes : List UInt8)
  | directory
  deriving DecidableEq, Repr

structure FileTree where
  home : Location
  entries : List (Location × Content)
  deriving DecidableEq, Repr

namespace FilePath

/-- Whether a path can only name a directory, because a slash or a dot follows its last part. -/
def namesDirectory (p : FilePath) : Bool := trimmed p.bytes != p.bytes

/-- Whether the last piece of a path is a dot, so that the directory it names has to be there. -/
def endsInDot (p : FilePath) : Bool :=
  lastPiece (p.bytes.reverse.dropWhile (· = slash)).reverse == [dot]

/-- A path and the paths it lies in, nearest first. -/
def chain (p : FilePath) : List FilePath :=
  match p.parent? with
  | none => [p]
  | some q => if _h : q.bytes.length < p.bytes.length then p :: chain q else [p]
termination_by p.bytes.length

end FilePath

namespace FileTree

def nameLimit : Nat := 255

def pathLimit : Nat := 4096

def emptyAt (home : Location) : FileTree := ⟨home, [(home, .directory)]⟩

def at? (t : FileTree) (place : Location) : Option Content :=
  if place = [] then some .directory else t.entries.lookup place

def put (t : FileTree) (place : Location) (content : Content) : FileTree :=
  { t with entries := (place, content) :: t.entries.filter (·.1 ≠ place) }

/-- Where one more part leads from a place, which has to be a directory. -/
def step (t : FileTree) (place : Location) (part : FilePath.Part) : Except DiskFault Location :=
  match t.at? place with
  | none => .error .notFound
  | some (.file _) => .error .notDirectory
  | some .directory =>
    match part with
    | .root => .ok []
    | .current => .ok place
    | .parent => .ok place.dropLast
    | .name bytes => if nameLimit < bytes.length then .error .nameTooLong else .ok (place ++ [bytes])

/-- The place that a path leads to. There need not be anything. -/
def find (t : FileTree) (path : FilePath) : Except DiskFault Location :=
  if path.bytes.contains 0 then .error .zeroInName
  else if path.bytes = [] then .error .notFound
  else if pathLimit ≤ path.bytes.length then .error .nameTooLong
  else path.parts.foldlM t.step t.home

def contentAt (t : FileTree) (path : FilePath) : Except DiskFault Content := do
  match t.at? (← t.find path) with
  | none => .error .notFound
  | some (.file bytes) =>
    if path.namesDirectory then .error .notDirectory else .ok (.file bytes)
  | some .directory => .ok .directory

def hasPath (t : FileTree) (path : FilePath) : Bool := (t.contentAt path).isOk

def isDirectory (t : FileTree) (path : FilePath) : Bool :=
  match t.contentAt path with
  | .ok .directory => true
  | _ => false

def readBytes (t : FileTree) (path : FilePath) : Except DiskFault (List UInt8) := do
  match ← t.contentAt path with
  | .file bytes => .ok bytes
  | .directory => .error .isDirectory

/-- Puts bytes into a file. A slash behind its name can only be that of a directory. -/
def writeBytes (t : FileTree) (path : FilePath) (bytes : List UInt8) :
    Except DiskFault FileTree := do
  let place ← t.find path
  match t.at? place with
  | some .directory => .error .isDirectory
  | found =>
    if path.endsInDot then .error (if found.isSome then .notDirectory else .notFound)
    else if path.namesDirectory then .error .isDirectory
    else .ok (t.put place (.file bytes))

def makeDirectory (t : FileTree) (path : FilePath) : Except DiskFault FileTree := do
  let place ← t.find path
  match t.at? place with
  | some .directory => .error .exists
  | some (.file _) => .error (if path.endsInDot then .notDirectory else .exists)
  | none => if path.endsInDot then .error .notFound else .ok (t.put place .directory)

/-- Makes the first directory of a chain, and before it those it lies in that are missing. -/
def makeChain (t : FileTree) : List FilePath → FileTree × Except DiskFault Unit
  | [] => (t, .error (.other "failed to create whole tree"))
  | path :: rest =>
    if path.bytes = [] then (t, .ok ())
    else match t.makeDirectory path with
      | .ok t => (t, .ok ())
      | .error .notFound =>
        match makeChain t rest with
        | (t, .error fault) => (t, .error fault)
        | (t, .ok ()) =>
          match t.makeDirectory path with
          | .ok t => (t, .ok ())
          | .error fault => (t, if t.isDirectory path then .ok () else .error fault)
      | .error fault => (t, if t.isDirectory path then .ok () else .error fault)

def makeDirectories (t : FileTree) (path : FilePath) : FileTree × Except DiskFault Unit :=
  t.makeChain path.chain

/-- A tree is a disk whose operations take it from state to state. -/
instance : Disk (StateM FileTree) where
  readText path := do
    match (← get).readBytes path with
    | .error fault => return .error fault
    | .ok bytes =>
      match Utf8.decode? bytes with
      | some text => return .ok text
      | none => return .error .notText
  writeText path text := do
    match (← get).writeBytes path (Utf8.encode text) with
    | .error fault => return .error fault
    | .ok t => set t; return .ok ()
  makeDirectories path := do
    let (t, result) := (← get).makeDirectories path
    set t
    return result
  pathExists path := do return (← get).hasPath path

end FileTree
end ClipGraph
