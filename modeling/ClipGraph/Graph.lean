import ClipGraph.Node

/-!
# Graphs

A finished graph: its nodes in order of insertion, and its connections in the order they were made.
Next to it, what can be wrong with a node or a connection at the moment it is added.
-/

namespace ClipGraph

structure Graph where
  nodes : Array Node
  connections : Array Connection
  deriving DecidableEq, Repr

namespace Graph

def empty : Graph := ⟨#[], #[]⟩

def size (g : Graph) : Nat := g.nodes.size

def isEmpty (g : Graph) : Bool := g.nodes.isEmpty

def node? (g : Graph) (id : NodeId) : Option Node := g.nodes[id.index]?

def incoming? (g : Graph) (target : Connector) : Option Connection :=
  g.connections.find? (·.target == target)

def outgoing (g : Graph) (source : Connector) : List Connection :=
  g.connections.toList.filter (·.source == source)

def sameNodes : List Node → List Node → Bool
  | [], [] => true
  | a :: as, b :: bs => a.same b && sameNodes as bs
  | _, _ => false

/-- Sameness of graphs: the same nodes and equal connections, in the same order. -/
def same (g h : Graph) : Bool :=
  sameNodes g.nodes.toList h.nodes.toList && g.connections == h.connections

end Graph

inductive NameRole where
  | plugin
  | function
  | parameter
  | repeatedParameter
  deriving DecidableEq, Repr

def NameRole.text : NameRole → String
  | .plugin => "plugin namespace"
  | .function => "function name"
  | .parameter => "parameter name"
  | .repeatedParameter => "duplicate parameter name"

inductive GraphFault where
  | unknownNode (node : NodeId)
  | unknownConnector (connector : Connector)
  | directionMismatch (source target : Connector)
  | missingConnector (node : NodeId) (direction : Direction)
  | inputTaken (target : Connector)
  | slotTaken (slot : UInt32) (holder : NodeId)
  | badName (node : NodeId) (role : NameRole) (name : String)
  | badPath (node : NodeId)
  | tooManyNodes (limit : UInt32)
  deriving DecidableEq, Repr

def GraphFault.message : GraphFault → String
  | .unknownNode n => s!"Unknown node: {n.describe}"
  | .unknownConnector c => s!"Unknown connector: {c.describe}"
  | .directionMismatch s t =>
    s!"Connection {s.describe} -> {t.describe} must run from an output connector to an input connector"
  | .missingConnector n d => s!"Node {n.describe} has no {d.text} connector"
  | .inputTaken t => s!"Input connector {t.describe} is already connected"
  | .slotTaken i n => s!"Output index {i.toNat} is already bound to node {n.describe}"
  | .badName n role name => s!"Node {n.describe}: invalid identifier '{name}' for {role.text}"
  | .badPath n => s!"Node {n.describe}: source path is not valid UTF-8"
  | .tooManyNodes limit => s!"Graph cannot hold more than {limit.toNat} nodes"

end ClipGraph
