import ClipGraph.Graph.Draft

/-!
# Projects

A project is a graph as its author saves it: the nodes, and for every connection the two nodes it
joins. The ports are not saved, because each kind of node has at most one input and one output.
-/

namespace ClipGraph

/-- A connection from the output of one node to the input of another. -/
structure Link where
  producer : NodeId
  consumer : NodeId
  deriving DecidableEq, Repr

structure Project where
  version : UInt32
  name : String
  nodes : List Node
  links : List Link
  deriving DecidableEq, Repr

namespace Link

def ofConnection (c : Connection) : Link := ⟨c.fromNode, c.toNode⟩

end Link

namespace Project

def currentVersion : UInt32 := 1

def new (name : String) : Project := ⟨currentVersion, name, [], []⟩

def ofGraph (name : String) (g : Graph) : Project :=
  ⟨currentVersion, name, g.nodes.toList, g.connections.toList.map Link.ofConnection⟩

/-- Connects the nodes of every link in order, up to the first that is refused. -/
def connectAll (d : Draft) : List Link → Except GraphFault Draft
  | [] => .ok d
  | l :: rest => do
    let (d, _) ← d.connect l.producer l.consumer
    connectAll d rest

/-- The graph of a project, if a draft accepts its nodes and then its links. -/
def toGraph (p : Project) : Except GraphFault Graph := do
  let d ← Draft.empty.addAll p.nodes
  let d ← connectAll d p.links
  return d.finish

/-- Sameness of projects, with nodes compared as graphs compare them. -/
def same (p q : Project) : Bool :=
  p.version == q.version && p.name == q.name && Graph.sameNodes p.nodes q.nodes &&
    p.links == q.links

end Project
end ClipGraph
