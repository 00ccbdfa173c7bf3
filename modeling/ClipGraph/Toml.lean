import ClipGraph.Number.Binary64

/-!
# TOML values

A document is a table: keys with values in the order of the text. A table remembers how it came
about, because that decides what may still be added to it.

A table grows by keys, by dotted keys and by headers. No key is given twice, and a table is written
in one way only: a dotted key does not reach into a table with a header of its own, a header does
not name a table made by a dotted key, and nothing reaches into braces.
-/

namespace ClipGraph

namespace Toml

inductive Scalar where
  | string (s : String)
  | boolean (b : Bool)
  | integer (n : Int)
  | float (x : Binary64)
  /-- A date, a time or both, as written. -/
  | moment (text : String)
  deriving DecidableEq, Repr

inductive Origin where
  /-- By a header of its own. The document itself counts as such a table. -/
  | header
  /-- By the header of a table inside it. -/
  | implied
  /-- By a dotted key. -/
  | dotted
  /-- By braces, which leave nothing to add. -/
  | braces
  deriving DecidableEq, Repr

end Toml

inductive Toml where
  | scalar (s : Toml.Scalar)
  | array (items : List Toml)
  | table (origin : Toml.Origin) (entries : List (String × Toml))
  /-- The tables under one repeated header. Only the last may still grow. -/
  | tables (earlier : List Toml) (last : List (String × Toml))
  deriving Repr, Inhabited

abbrev Toml.Entries := List (String × Toml)

namespace Toml

/-- Whether a path may lead through a table, as part of a dotted key or of a header. -/
def Origin.isOpen (dotted : Bool) : Origin → Bool
  | .braces => false
  | .header => !dotted
  | .implied => true
  | .dotted => true

namespace Entries

def has (entries : Entries) (key : String) : Bool := entries.any (·.1 == key)

/-- The table with another value for a key that it has. -/
def put (entries : Entries) (key : String) (value : Toml) : Entries :=
  entries.map fun e => if e.1 = key then (key, value) else e

def add (entries : Entries) (key : String) (value : Toml) : Entries := entries ++ [(key, value)]

/-- Changes the table at a path and makes the tables on the way that are not there yet. The change
is told how the table came about. A path that meets tables under a repeated header goes on in the
last one. -/
def changeAt (dotted : Bool) (change : Origin → Entries → Option Entries) :
    List String → Origin → Entries → Option Entries
  | [], origin, entries => change origin entries
  | key :: path, _, entries =>
    match entries.lookup key with
    | none =>
      let origin : Origin := if dotted then .dotted else .implied
      (changeAt dotted change path origin []).map fun inner => entries.add key (.table origin inner)
    | some (.table origin inner) =>
      if origin.isOpen dotted then
        (changeAt dotted change path origin inner).map fun inner =>
          entries.put key (.table origin inner)
      else none
    | some (.tables earlier last) =>
      (changeAt dotted change path .header last).map fun last =>
        entries.put key (.tables earlier last)
    | some _ => none

/-- Adds a value under a dotted key: the keys before the last dot and the last key. -/
def addAt (entries : Entries) (path : List String) (key : String) (value : Toml) :
    Option Entries :=
  let change (origin : Origin) (inner : Entries) : Option Entries :=
    if (path.isEmpty || origin == .dotted) && !inner.has key then some (inner.add key value)
    else none
  changeAt true change path .header entries

/-- Opens the table of a header. A table that headers inside it have implied gets its own. -/
def openTable (entries : Entries) (key : String) : Option Entries :=
  match entries.lookup key with
  | none => some (entries.add key (.table .header []))
  | some (.table .implied inner) => some (entries.put key (.table .header inner))
  | some _ => none

def openNext (entries : Entries) (key : String) : Option Entries :=
  match entries.lookup key with
  | none => some (entries.add key (.tables [] []))
  | some (.tables earlier last) =>
    some (entries.put key (.tables (earlier ++ [.table .header last]) []))
  | some _ => none

/-- Changes a table below the document by what a header at its path asks for. -/
def openAt (entries : Entries) (path : List String) (key : String)
    (opening : Entries → String → Option Entries) : Option Entries :=
  changeAt false (fun _ inner => opening inner key) path .header entries

end Entries

end Toml

end ClipGraph
