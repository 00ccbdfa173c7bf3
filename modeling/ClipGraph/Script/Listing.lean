import Std.Data.HashMap
import ClipGraph.Graph
import ClipGraph.Script.Fault
import ClipGraph.Script.Statement
import ClipGraph.Text.Classes

/-!
# From an order of nodes to statements

Nodes are taken in a given order. A source is loaded, a filter is called on the variable of the node
that feeds it, and an output is bound to one. The feeding node has to have a variable by then, so a
statement never reads a variable that no earlier statement defines.

The plugin function that reads a media file is chosen by a hint. Case and surrounding blanks of the
hint do not matter, and a hint that is unknown or absent chooses the default.
-/

namespace ClipGraph

structure Adapter where
  /-- The hint that chooses the adapter. -/
  hint : String
  /-- The function to call, with its plugin. -/
  function : String
  deriving DecidableEq, Repr

namespace Adapter

def fallback : Adapter := ⟨"ffms2", "ffms2.Source"⟩

def table : List Adapter :=
  [⟨"lsmashsource", "lsmas.LWLibavSource"⟩, ⟨"bestsource", "bs.VideoSource"⟩,
    ⟨"d2vsource", "d2v.Source"⟩, ⟨"dgdecnv", "dgdecodenv.DGSource"⟩]

def sameLetters (a b : List Char) : Bool := a.map Char.toLower == b.map Char.toLower

def select (hint : Option String) : Adapter :=
  match hint with
  | none => fallback
  | some hint =>
    let wanted := Text.trimBlanks hint.toList
    (table.find? fun adapter => sameLetters adapter.hint.toList wanted).getD fallback

end Adapter

/-- Which connector feeds each connected input. -/
abbrev Feeds := Std.HashMap Connector Connector

/-- The feeds of a list of connections, or the first target that occurs again. -/
def Feeds.ofConnections : List Connection → Feeds → Except GraphFault Feeds
  | [], feeds => .ok feeds
  | c :: rest, feeds =>
    if feeds.contains c.target then .error (.inputTaken c.target)
    else ofConnections rest (feeds.insert c.target c.source)

/-- The statements so far, and the variable of every node that has one. -/
structure Listing where
  body : Array Statement
  bindings : Array Statement
  clips : Std.HashMap NodeId Variable

namespace Listing

def empty : Listing := ⟨#[], #[], ∅⟩

def program (l : Listing) : Program := ⟨l.body.toList, l.bindings.toList⟩

def define (l : Listing) (id : NodeId) (s : Statement) (v : Variable) : Listing :=
  { l with body := l.body.push s, clips := l.clips.insert id v }

def inputOf? (l : Listing) (feeds : Feeds) (id : NodeId) (node : Node) : Option Variable := do
  let input ← node.input? id
  let source ← feeds[input]?
  l.clips[source.node]?

/-- The listing after one more node of the order. -/
def take (l : Listing) (feeds : Feeds) (nodes : Array Node) (position : Nat) (id : NodeId) :
    Except CompileFault Listing :=
  match nodes[id.index]? with
  | none => .error (.danglingInput id)
  | some (.source s) =>
    match s.path.text? with
    | none => .error (.invalidGraph (.badPath id))
    | some path => .ok (l.define id (.load id (Adapter.select s.hint).function path) (.source id))
  | some (.filter f) =>
    match l.inputOf? feeds id (.filter f) with
    | none => .error (.danglingInput id)
    | some input =>
      .ok (l.define id (.call id position f.plugin f.function input f.arguments)
        (.filter id position))
  | some (.output o) =>
    match l.inputOf? feeds id (.output o) with
    | none => .error (.danglingInput id)
    | some input => .ok { l with bindings := l.bindings.push (.bind input o.slot) }

/-- The listing after the rest of the order, whose first node has the given position. -/
def takeAll (feeds : Feeds) (nodes : Array Node) (position : Nat) (l : Listing) :
    List NodeId → Except CompileFault Listing
  | [] => .ok l
  | id :: rest =>
    match l.take feeds nodes position id with
    | .error fault => .error fault
    | .ok l => takeAll feeds nodes (position + 1) l rest

end Listing

/-- The program of a graph for the nodes in `order`. -/
def Graph.programFor (g : Graph) (order : List NodeId) : Except CompileFault Program :=
  match Feeds.ofConnections g.connections.toList ∅ with
  | .error fault => .error (.invalidGraph fault)
  | .ok feeds => (Listing.takeAll feeds g.nodes 0 .empty order).map Listing.program

end ClipGraph
