import ClipGraph.Guarded.Order
import ClipGraph.Script

/-!
# Compiling, guarded

The phases of a compilation over nodes and connections as they come. Connectors may name nodes and
ports that are not there, and the order to write statements in may be any list of nodes.
-/

namespace ClipGraph.Guarded

def validate (g : Graph) : Guarded (Except CompileFault Unit) := do
  if !g.nodes.any Node.isSource then return .error .noSource
  if !g.nodes.any Node.isOutput then return .error .noOutput
  match ← cycle? g.size g.connections.toList with
  | some nodes => return .error (.cycle (nodes.map NodeId.ofIndex))
  | none => return .ok ()

def sort (g : Graph) : Guarded (List NodeId) := do
  return (← order (g.nodes.map Node.isOutput) g.connections.toList).map NodeId.ofIndex

def emissionSet (g : Graph) : Guarded (Array Bool) :=
  emitted (g.nodes.map Node.isOutput) g.connections.toList

def input? (n : Node) (id : NodeId) : Guarded (Option Connector) :=
  match n.ports.findIdx? (·.direction == .input) with
  | none => return none
  | some port => connector? id (UInt16.ofNat port)

def inputOf? (l : Listing) (feeds : Feeds) (id : NodeId) (node : Node) :
    Guarded (Option Variable) := do
  match ← input? node id with
  | none => return none
  | some input => return feeds[input]?.bind fun source => l.clips[source.node]?

def take (l : Listing) (feeds : Feeds) (nodes : Array Node) (position : Nat) (id : NodeId) :
    Guarded (Except CompileFault Listing) := do
  match nodes[id.index]? with
  | none => return .error (.danglingInput id)
  | some (.source s) =>
    match s.path.text? with
    | none => return .error (.invalidGraph (.badPath id))
    | some path =>
      return .ok (l.define id (.load id (Adapter.select s.hint).function path) (.source id))
  | some (.filter f) =>
    match ← inputOf? l feeds id (.filter f) with
    | none => return .error (.danglingInput id)
    | some input =>
      return .ok (l.define id (.call id position f.plugin f.function input f.arguments)
        (.filter id position))
  | some (.output o) =>
    match ← inputOf? l feeds id (.output o) with
    | none => return .error (.danglingInput id)
    | some input => return .ok { l with bindings := l.bindings.push (.bind input o.slot) }

/-- The listing after the rest of the order, whose first node has the given position. -/
def takeAll (feeds : Feeds) (nodes : Array Node) (position : Nat) (l : Listing) :
    List NodeId → Guarded (Except CompileFault Listing)
  | [] => return .ok l
  | id :: rest => do
    match ← take l feeds nodes position id with
    | .error fault => return .error fault
    | .ok l => takeAll feeds nodes (position + 1) l rest

def emit (g : Graph) (order : List NodeId) : Guarded (Except CompileFault Program) := do
  match Feeds.ofConnections g.connections.toList ∅ with
  | .error fault => return .error (.invalidGraph fault)
  | .ok feeds => return (← takeAll feeds g.nodes 0 .empty order).map Listing.program

/-- The nodes without a statement, by their flags. Compiling warns of them. -/
def omitted (flags : Array Bool) : List Nat → Guarded (List Nat)
  | [] => return []
  | node :: nodes => do
    let isEmitted ← read flags node
    let rest ← omitted flags nodes
    return if isEmitted then rest else node :: rest

/-- Compiles a graph, validated once more. -/
def compile (g : Graph) : Guarded (Except CompileFault Script) := do
  match ← validate g with
  | .error fault => return .error fault
  | .ok () =>
    let nodes ← sort g
    let flags ← emissionSet g
    let _ ← omitted flags (List.range g.size)
    match ← emit g nodes with
    | .error fault => return .error fault
    | .ok program => return .ok ⟨program, g.stats nodes⟩

def compileParts (g : Graph) : Guarded (Except CompileFault Script) := do
  match ← validate g with
  | .error fault => return .error fault
  | .ok () =>
    match Graph.ofParts g.nodes g.connections with
    | .error fault => return .error (.invalidGraph fault)
    | .ok built => compile built

end ClipGraph.Guarded
