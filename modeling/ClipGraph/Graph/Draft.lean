import Std.Data.HashMap
import Std.Data.HashSet
import ClipGraph.Graph

/-!
# Graphs under construction

A draft takes nodes and connections one at a time and refuses whatever would break a graph: an
unusable name or path, a second node on one output slot, a connection that does not run from an
output to an input, a second connection into one input. Cycles are not its concern. Beside its lists
it keeps two indexes, one of the inputs in use and one of the slots in use.
-/

namespace ClipGraph

structure Draft where
  nodes : Array Node
  connections : Array Connection
  usedInputs : Std.HashSet Connector
  usedSlots : Std.HashMap UInt32 NodeId

namespace Draft

def empty : Draft := ⟨#[], #[], ∅, ∅⟩

/-- How many nodes a graph may have: as many as connectors can name. -/
def nodeLimit : Nat := Connector.lastNode.toNat + 1

/-- The first name of an argument list that is no identifier or stands there twice. -/
def checkArguments (id : NodeId) : List String → List Argument → Except GraphFault Unit
  | _, [] => .ok ()
  | seen, a :: rest =>
    if !isIdentifier a.name then .error (.badName id .parameter a.name)
    else if seen.contains a.name then .error (.badName id .repeatedParameter a.name)
    else checkArguments id (a.name :: seen) rest

/-- The names of a filter, checked in the order they are written into a script. -/
def checkFilter (id : NodeId) (f : FilterNode) : Except GraphFault Unit :=
  if !isIdentifier f.plugin then .error (.badName id .plugin f.plugin)
  else if !isIdentifier f.function then .error (.badName id .function f.function)
  else checkArguments id [] f.arguments

def check (d : Draft) (n : Node) : Except GraphFault Unit :=
  if nodeLimit ≤ d.nodes.size then .error (.tooManyNodes (Connector.lastNode + 1))
  else
    let id := NodeId.ofIndex d.nodes.size
    match n with
    | .source s => if s.path.text?.isNone then .error (.badPath id) else .ok ()
    | .filter f => checkFilter id f
    | .output o =>
      match d.usedSlots[o.slot]? with
      | some holder => .error (.slotTaken o.slot holder)
      | none => .ok ()

def push (d : Draft) (n : Node) : Draft :=
  let id := NodeId.ofIndex d.nodes.size
  match n with
  | .output o =>
    { d with nodes := d.nodes.push n, usedSlots := d.usedSlots.insert o.slot id }
  | _ => { d with nodes := d.nodes.push n }

def add (d : Draft) (n : Node) : Except GraphFault (Draft × NodeId) :=
  match d.check n with
  | .error fault => .error fault
  | .ok () =>
    let id := NodeId.ofIndex d.nodes.size
    .ok (d.push n, id)

def directionOf (d : Draft) (c : Connector) : Except GraphFault Direction :=
  match d.nodes[c.node.index]?.bind (·.direction? c.port) with
  | some direction => .ok direction
  | none => .error (.unknownConnector c)

def checkJoin (d : Draft) (source target : Connector) : Except GraphFault Unit := do
  let sourceDirection ← d.directionOf source
  let targetDirection ← d.directionOf target
  if sourceDirection ≠ .output ∨ targetDirection ≠ .input then
    .error (.directionMismatch source target)
  else if d.usedInputs.contains target then .error (.inputTaken target)
  else .ok ()

def pushConnection (d : Draft) (source target : Connector) : Draft :=
  { d with
    connections := d.connections.push ⟨source, target⟩
    usedInputs := d.usedInputs.insert target }

def join (d : Draft) (source target : Connector) : Except GraphFault (Draft × ConnectionId) :=
  match d.checkJoin source target with
  | .error fault => .error fault
  | .ok () =>
    let id := ConnectionId.ofIndex d.connections.size
    .ok (d.pushConnection source target, id)

def connectorOf (d : Draft) (id : NodeId) (direction : Direction) :
    Except GraphFault Connector :=
  match d.nodes[id.index]? with
  | none => .error (.unknownNode id)
  | some n =>
    match n.connector? id direction with
    | none => .error (.missingConnector id direction)
    | some c => .ok c

def connect (d : Draft) (producer consumer : NodeId) : Except GraphFault (Draft × ConnectionId) := do
  let source ← d.connectorOf producer .output
  let target ← d.connectorOf consumer .input
  d.join source target

def finish (d : Draft) : Graph := ⟨d.nodes, d.connections⟩

/-- Adds nodes in order, up to the first that is refused. -/
def addAll (d : Draft) : List Node → Except GraphFault Draft
  | [] => .ok d
  | n :: rest => do
    let (d, _) ← d.add n
    d.addAll rest

/-- Joins connections in order, up to the first that is refused. -/
def joinAll (d : Draft) : List Connection → Except GraphFault Draft
  | [] => .ok d
  | c :: rest => do
    let (d, _) ← d.join c.source c.target
    d.joinAll rest

end Draft

/-- The graph of a list of nodes and connections, if a draft accepts all of them in order. -/
def Graph.ofParts (nodes : Array Node) (connections : Array Connection) :
    Except GraphFault Graph := do
  let d ← Draft.empty.addAll nodes.toList
  let d ← d.joinAll connections.toList
  return d.finish

end ClipGraph
