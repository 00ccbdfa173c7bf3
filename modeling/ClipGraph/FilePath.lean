import ClipGraph.Text.Utf8
import ClipGraph.Text.Shown

/-!
# File paths

A path is a sequence of bytes, which need not be text. Its parts are what lies between slashes:
empty pieces and dots mean nothing, except that a leading dot is kept. Two spellings with the same
parts are the same path. The file name is the last part, and the extension is what follows the last
dot of the name when something stands before that dot.
-/

namespace ClipGraph

structure FilePath where
  bytes : List UInt8
  deriving DecidableEq, Repr

namespace FilePath

def slash : UInt8 := 0x2f

def dot : UInt8 := 0x2e

def ofText (s : String) : FilePath := ⟨Utf8.encode s⟩

def text? (p : FilePath) : Option String := Utf8.decode? p.bytes

/-- The path for people to read, with a mark for whatever is no character. -/
def display (p : FilePath) : String := Utf8.decodeLossy p.bytes

def quoted (p : FilePath) : String := Text.quoted p.display

@[simp] theorem text?_ofText (s : String) : (ofText s).text? = some s := by simp [text?, ofText]

inductive Part where
  | root
  | current
  | parent
  | name (bytes : List UInt8)
  deriving DecidableEq, Repr

/-- The pieces between slashes. There is always at least one. -/
def pieces : List UInt8 → List (List UInt8)
  | [] => [[]]
  | b :: rest =>
    if b = slash then [] :: pieces rest
    else match pieces rest with
      | piece :: more => (b :: piece) :: more
      | [] => [[b]]

/-- The part that a piece past the beginning stands for, if any. -/
def partOf (piece : List UInt8) : Option Part :=
  if piece = [] ∨ piece = [dot] then none
  else if piece = [dot, dot] then some .parent
  else some (.name piece)

def isAbsolute (p : FilePath) : Bool := p.bytes.head? == some slash

def parts (p : FilePath) : List Part :=
  let all := pieces p.bytes
  let first := if p.isAbsolute then [.root] else if all.head? = some [dot] then [.current] else []
  first ++ all.filterMap partOf

/-- Sameness of paths: the same parts in the same order. -/
def same (p q : FilePath) : Bool := p.parts == q.parts

/-- The reversed bytes without the slashes and dots that follow the last part. -/
def trimmedRev : List UInt8 → List UInt8
  | [] => []
  | b :: rest =>
    if b = slash then trimmedRev rest
    else if b = dot ∧ rest.head? = some slash then trimmedRev rest
    else b :: rest

/-- The bytes up to the end of the last part. -/
def trimmed (bytes : List UInt8) : List UInt8 := (trimmedRev bytes.reverse).reverse

def lastPiece (bytes : List UInt8) : List UInt8 :=
  (bytes.reverse.takeWhile (· ≠ slash)).reverse

def beforeLastPiece (bytes : List UInt8) : List UInt8 :=
  (bytes.reverse.dropWhile (· ≠ slash)).reverse

def fileName? (p : FilePath) : Option (List UInt8) :=
  let last := lastPiece (trimmed p.bytes)
  if last = [] ∨ last = [dot] ∨ last = [dot, dot] then none else some last

/-- A name cut at its last dot. A name that only starts with its last dot has no extension. -/
def splitName (name : List UInt8) : List UInt8 × Option (List UInt8) :=
  let after := (name.reverse.takeWhile (· ≠ dot)).reverse
  let stem := name.take (name.length - after.length - 1)
  if after.length = name.length ∨ stem = [] then (name, none) else (stem, some after)

def stem? (p : FilePath) : Option (List UInt8) := p.fileName?.map fun name => (splitName name).1

def extension? (p : FilePath) : Option (List UInt8) :=
  p.fileName?.bind fun name => (splitName name).2

/-- The path that holds the last part. The root and the empty path have none. -/
def parent? (p : FilePath) : Option FilePath :=
  let body := trimmed p.bytes
  if body = [] then none
  else
    let rest := trimmed (beforeLastPiece body)
    some ⟨if rest = [] ∧ p.isAbsolute then [slash] else rest⟩

/-- The path ending after its stem, with the new extension behind a dot. A path without a file name
stays as it is, and an empty extension adds nothing. -/
def setExtension (p : FilePath) (extension : List UInt8) : FilePath :=
  match p.fileName? with
  | none => p
  | some name =>
    let directory := beforeLastPiece (trimmed p.bytes)
    let suffix := if extension = [] then [] else dot :: extension
    ⟨directory ++ (splitName name).1 ++ suffix⟩

/-- The path with another extension. An old extension is first taken off the end of the path, by its
length. -/
def withExtension (p : FilePath) (extension : List UInt8) : FilePath :=
  match p.extension? with
  | none => p.setExtension extension
  | some old => FilePath.setExtension ⟨p.bytes.take (p.bytes.length - old.length)⟩ extension

def join (p : FilePath) (name : String) : FilePath :=
  if p.bytes = [] then ofText name else ⟨p.bytes ++ slash :: Utf8.encode name⟩

end FilePath
end ClipGraph
