import ClipGraph.Toml.Moment
import ClipGraph.Toml.Number
import ClipGraph.Toml.Quoted
import ClipGraph.Toml

/-!
# Reading TOML documents

A document is read line by line into pairs and headers, which then build the table in their order.
A value between brackets or braces may lie over several lines only where an array allows it. Every
fault is the same one, so readers answer nothing where a text is no TOML.
-/

namespace ClipGraph.Toml

/-- How deep brackets and braces may be nested, and how many keys dots may join. -/
def nestingLimit : Nat := 79

def isBareKey (c : Char) : Bool := c.isAlphanum || c == '_' || c == '-'

def readKey (cs : List Char) : Option (String × List Char) :=
  match Quoted.readLine? cs with
  | some (key, after) => some (.ofList key, after)
  | none =>
    match cs.takeWhile isBareKey with
    | [] => none
    | key => some (.ofList key, cs.dropWhile isBareKey)

/-- Reads keys joined by dots, with the blanks around them. -/
def readKeys (cs : List Char) : Option (List String × List Char) := do
  let (key, after) ← readKey (skipBlanks cs)
  match skipBlanks after with
  | '.' :: rest =>
    if _h : rest.length < cs.length then
      let (keys, after) ← readKeys rest
      return (key :: keys, after)
    else none
  | rest => return ([key], rest)
termination_by cs.length

/-- Keys joined by dots: those before the last one, and the last one. -/
structure Path where
  before : List String
  key : String
  deriving DecidableEq, Repr

def readPath (cs : List Char) : Option (Path × List Char) := do
  let (keys, after) ← readKeys cs
  let key ← keys.getLast?
  if keys.length ≤ nestingLimit then return (⟨keys.dropLast, key⟩, after) else none

def readScalar : Reader Scalar
  | 't' :: 'r' :: 'u' :: 'e' :: rest => some (.boolean true, rest)
  | 'f' :: 'a' :: 'l' :: 's' :: 'e' :: rest => some (.boolean false, rest)
  | cs =>
    ((Quoted.read? cs).map fun (s, after) => (.string (.ofList s), after)) <|>
    ((Moment.read? cs).map fun (m, after) => (.moment m, after)) <|>
    ((readFloat cs).map fun (x, after) => (.float x, after)) <|>
    ((readInteger cs).map fun (n, after) => (.integer n, after))

/-- Reads the items of an array up to the bracket that closes it. -/
def readItems (read : Reader Toml) (cs : List Char) : Option (List Toml × List Char) :=
  match skipFiller false cs with
  | ']' :: rest => some ([], rest)
  | start => do
    let (item, after) ← read start
    match skipFiller false after with
    | ']' :: rest => return ([item], rest)
    | ',' :: rest =>
      if _h : rest.length < cs.length then
        let (items, after) ← readItems read rest
        return (item :: items, after)
      else none
    | _ => none
termination_by cs.length

def readPair (read : Reader Toml) (cs : List Char) : Option ((Path × Toml) × List Char) := do
  let (path, after) ← readPath cs
  let after ← expect '=' after
  let (v, after) ← read (skipBlanks after)
  return ((path, v), after)

/-- Reads the pairs between braces up to the brace that closes them. There is at least one. -/
def readPairs (read : Reader Toml) (cs : List Char) : Option (List (Path × Toml) × List Char) := do
  let (pair, after) ← readPair read cs
  match skipBlanks after with
  | '\x7d' :: rest => return ([pair], rest)
  | ',' :: rest =>
    if _h : rest.length < cs.length then
      let (pairs, after) ← readPairs read rest
      return (pair :: pairs, after)
    else none
  | _ => none
termination_by cs.length

def readBraces (read : Reader Toml) (cs : List Char) : Option (Toml × List Char) :=
  match skipBlanks cs with
  | '\x7d' :: rest => some (.table .braces [], rest)
  | start => do
    let (pairs, after) ← readPairs read start
    let empty : Entries := []
    let entries ← pairs.foldlM (fun entries (path, v) => entries.addAt path.before path.key v) empty
    return (.table .braces entries, after)

/-- Reads a value in which brackets and braces are nested no deeper than `depth`. -/
def readValue : Nat → Reader Toml
  | depth + 1, '[' :: rest =>
    (readItems (readValue depth) rest).map fun (items, after) => (.array items, after)
  | depth + 1, '\x7b' :: rest => readBraces (readValue depth) rest
  | _, cs => (readScalar cs).map fun (s, after) => (.scalar s, after)

inductive Line where
  | blank
  | pair (path : Path) (value : Toml)
  | header (path : Path)
  | repeatedHeader (path : Path)
  deriving Repr

/-- Reads what a line says, up to where only blanks and a comment may follow. -/
def readStatement : Reader Line
  | '[' :: '[' :: rest => do
    let (path, after) ← readPath rest
    let after ← expect ']' after
    let after ← expect ']' after
    return (.repeatedHeader path, after)
  | '[' :: rest => do
    let (path, after) ← readPath rest
    let after ← expect ']' after
    return (.header path, after)
  | cs => do
    let ((path, v), after) ← readPair (readValue nestingLimit) cs
    return (.pair path v, after)

def readWholeLine (cs : List Char) : Option (Line × List Char) :=
  match lineEnd? cs with
  | some after => some (.blank, after)
  | none => do
    let (line, after) ← readStatement (skipBlanks cs)
    return (line, ← lineEnd? after)

def readLines (cs : List Char) : Option (List Line) :=
  if cs.isEmpty then some []
  else do
    let (line, after) ← readWholeLine cs
    if _h : after.length < cs.length then
      let rest ← readLines after
      return line :: rest
    else none
termination_by cs.length

/-- A document under construction: its entries, and the path of the table that pairs go to. -/
structure Draft where
  entries : Entries
  current : List String
  deriving Repr

def Draft.take (d : Draft) : Line → Option Draft
  | .blank => some d
  | .pair path v =>
    (Entries.changeAt false (fun _ inner => inner.addAt path.before path.key v) d.current .header
      d.entries).map fun entries => { d with entries }
  | .header path =>
    (d.entries.openAt path.before path.key Entries.openTable).map fun entries =>
      ⟨entries, path.before ++ [path.key]⟩
  | .repeatedHeader path =>
    (d.entries.openAt path.before path.key Entries.openNext).map fun entries =>
      ⟨entries, path.before ++ [path.key]⟩

/-- The text without the mark of byte order that may stand before it. -/
def skipByteOrderMark : List Char → List Char
  | '\ufeff' :: rest => rest
  | cs => cs

def Entries.ofText? (text : String) : Option Entries := do
  let lines ← readLines (skipByteOrderMark text.toList)
  let d ← lines.foldlM Draft.take ⟨[], []⟩
  return d.entries

end ClipGraph.Toml
