import ClipGraph.Graph

/-!
# Faults of compilation

Why a graph has no script.
-/

namespace ClipGraph

inductive CompileFault where
  | noSource
  | noOutput
  /-- The nodes of a cycle along its edges, from the node where it closes. -/
  | cycle (nodes : List NodeId)
  /-- A node without a usable connection into its input. -/
  | danglingInput (node : NodeId)
  /-- Nodes and connections that no draft would have accepted. -/
  | invalidGraph (fault : GraphFault)
  deriving DecidableEq, Repr

namespace CompileFault

def message : CompileFault → String
  | .noSource => "Graph has no source node"
  | .noOutput => "Graph has no output node"
  | .cycle nodes =>
    "Cycle detected in graph through nodes [" ++
      String.intercalate ", " (nodes.map NodeId.describe) ++ "]"
  | .danglingInput n => s!"Node {n.describe} has an input with no incoming connection"
  | .invalidGraph fault => s!"Invalid graph: {fault.message}"

def nodes : CompileFault → List NodeId
  | .cycle nodes => nodes
  | .danglingInput n => [n]
  | .invalidGraph (.badPath n) => [n]
  | _ => []

end CompileFault
end ClipGraph
