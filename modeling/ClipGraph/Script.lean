import ClipGraph.Graph.Draft
import ClipGraph.Script.Listing
import ClipGraph.Wiring.Cycle
import ClipGraph.Wiring.Order

/-!
# Compiling graphs to scripts

A graph has a script if it has a source and an output, no cycle, and a connection into every input
of the nodes that are emitted. The functions here take any graph value; those that a draft would not
accept are sorted out by `Graph.compileParts`.
-/

namespace ClipGraph

structure ScriptStats where
  total : Nat
  emitted : Nat
  omitted : Nat
  filters : Nat
  outputs : Nat
  deriving DecidableEq, Repr

structure Script where
  program : Program
  stats : ScriptStats
  deriving DecidableEq, Repr

namespace Script

def text (s : Script) : String := .ofList s.program.text

/-- The number of lines of a text. A last line without an end counts if it is not empty. -/
def countLines (s : List Char) : Nat :=
  s.count '\n' + if s.getLast?.all (· == '\n') then 0 else 1

def lineCount (s : Script) : Nat := countLines s.text.toList

end Script

namespace Graph

def wiring (g : Graph) : Wiring := .ofConnections g.size g.connections.toList

def cycle? (g : Graph) : Option (List NodeId) := g.wiring.cycle?.map (·.map NodeId.ofIndex)

/-- Checks for a source, then for an output, then for a cycle. -/
def validate (g : Graph) : Except CompileFault Unit :=
  if !g.nodes.any Node.isSource then .error .noSource
  else if !g.nodes.any Node.isOutput then .error .noOutput
  else match g.cycle? with
    | some nodes => .error (.cycle nodes)
    | none => .ok ()

/-- The emitted nodes, producers first and otherwise in order of insertion. -/
def order (g : Graph) : List NodeId :=
  (Wiring.order (g.nodes.map Node.isOutput) (Wiring.edges g.size g.connections.toList)).map
    NodeId.ofIndex

def countIn (g : Graph) (p : Node → Bool) (order : List NodeId) : Nat :=
  order.countP fun id => (g.node? id).any p

def stats (g : Graph) (order : List NodeId) : ScriptStats where
  total := g.size
  emitted := order.length
  omitted := g.size - order.length
  filters := g.countIn Node.isFilter order
  outputs := g.countIn Node.isOutput order

def compile (g : Graph) : Except CompileFault Script := do
  g.validate
  let order := g.order
  let program ← g.programFor order
  return ⟨program, g.stats order⟩

/-- Compiles any nodes and connections: a fault of validation comes first, then the first fault that
a draft finds in them. -/
def compileParts (g : Graph) : Except CompileFault Script := do
  g.validate
  match Graph.ofParts g.nodes g.connections with
  | .error fault => .error (.invalidGraph fault)
  | .ok built => built.compile

end Graph
end ClipGraph
