/-!
# Nodes, connectors and connections by number

A node is named by its position in the graph. A connector is one word: the node in the upper twenty
bits and the port in the lower twelve, so connectors sort by node first and no two pairs share a
word.
-/

namespace ClipGraph

/-- The position of a node, in order of insertion. -/
structure NodeId where
  val : UInt32
  deriving DecidableEq, Repr, Hashable, Inhabited

namespace NodeId

def index (id : NodeId) : Nat := id.val.toNat

def ofIndex (i : Nat) : NodeId := ⟨UInt32.ofNat i⟩

def text (id : NodeId) : String := toString id.val.toNat

def describe (id : NodeId) : String := s!"NodeId({id.text})"

theorem index_ofIndex {i : Nat} (h : i < 4294967296) : (ofIndex i).index = i := by
  rw [index, ofIndex, UInt32.toNat_ofNat']
  exact Nat.mod_eq_of_lt h

theorem ext_index {a b : NodeId} (h : a.index = b.index) : a = b := by
  cases a; cases b; simp only [index] at h; simp [UInt32.toNat.inj h]

end NodeId

/-- The position of a connection, in order of insertion. -/
structure ConnectionId where
  val : UInt32
  deriving DecidableEq, Repr

namespace ConnectionId

def index (id : ConnectionId) : Nat := id.val.toNat

def ofIndex (i : Nat) : ConnectionId := ⟨UInt32.ofNat i⟩

def describe (id : ConnectionId) : String := s!"ConnectionId({id.index})"

end ConnectionId

/-- One port of one node, packed into a word. -/
structure Connector where
  word : UInt32
  deriving DecidableEq, Repr, Hashable, Inhabited

namespace Connector

/-- How many ports a node can have. -/
def portCount : UInt32 := 4096

def lastNode : UInt32 := 1048575

def lastPort : UInt16 := 4095

/-- The connector of a port, or `none` when the node or the port does not fit its field. -/
def ofPort? (node : NodeId) (port : UInt16) : Option Connector :=
  if node.val ≤ lastNode ∧ port ≤ lastPort then
    some ⟨node.val * portCount + port.toUInt32⟩
  else none

def node (c : Connector) : NodeId := ⟨c.word / portCount⟩

def port (c : Connector) : UInt16 := (c.word % portCount).toUInt16

/-- The order of connectors is that of their words. -/
instance : LT Connector := ⟨fun a b => a.word < b.word⟩

instance (a b : Connector) : Decidable (a < b) := inferInstanceAs (Decidable (a.word < b.word))

instance : LE Connector := ⟨fun a b => a.word ≤ b.word⟩

instance (a b : Connector) : Decidable (a ≤ b) := inferInstanceAs (Decidable (a.word ≤ b.word))

def text (c : Connector) : String := s!"{c.node.text}:{c.port.toNat}"

def describe (c : Connector) : String := s!"ConnectorId(node={c.node.text}, port={c.port.toNat})"

end Connector

/-- A directed edge from a producing connector to a consuming one. -/
structure Connection where
  source : Connector
  target : Connector
  deriving DecidableEq, Repr

namespace Connection

def fromNode (c : Connection) : NodeId := c.source.node

def toNode (c : Connection) : NodeId := c.target.node

end Connection
end ClipGraph
