import ClipGraph.Graph.Draft

/-!
# Drafts changed in place

The calls on a draft step by step. A call reads the draft, writes to it and may be refused in between,
and what it has written by then stays. A slot is entered before its node is, and entering an input is
itself the test whether the input was free.
-/

namespace ClipGraph
namespace Draft

/-- A computation that changes a draft as it goes along and may be refused on the way. -/
abbrev InPlace (α : Type) := ExceptT GraphFault (StateM Draft) α

namespace InPlace

/-- What a computation answers on a draft, and the draft that it leaves behind. -/
def result (x : InPlace α) (d : Draft) : Except GraphFault α × Draft := (x.run).run d

/-- Something read off the draft, or a refusal. -/
def ask (f : Draft → Except GraphFault α) : InPlace α := do
  match f (← get) with
  | .error fault => throw fault
  | .ok a => return a

/-- Enters a slot for a node unless another node holds it. -/
def enterSlot (slot : UInt32) (id : NodeId) : InPlace Unit := do
  match (← get).usedSlots[slot]? with
  | some holder => throw (.slotTaken slot holder)
  | none => modify fun d => { d with usedSlots := d.usedSlots.insert slot id }

/-- Enters an input as used and answers whether it was free. -/
def enterInput (target : Connector) : InPlace Bool :=
  modifyGet fun d =>
    let (present, used) := d.usedInputs.containsThenInsert target
    (!present, { d with usedInputs := used })

def add (n : Node) : InPlace NodeId := do
  let size := (← get).nodes.size
  if nodeLimit ≤ size then throw (.tooManyNodes (Connector.lastNode + 1))
  let id := NodeId.ofIndex size
  match n with
  | .source s => if s.path.text?.isNone then throw (.badPath id)
  | .filter f => ask fun _ => checkFilter id f
  | .output o => enterSlot o.slot id
  modify fun d => { d with nodes := d.nodes.push n }
  return id

def join (source target : Connector) : InPlace ConnectionId := do
  let sourceDirection ← ask (·.directionOf source)
  let targetDirection ← ask (·.directionOf target)
  if sourceDirection ≠ .output ∨ targetDirection ≠ .input then
    throw (.directionMismatch source target)
  if !(← enterInput target) then throw (.inputTaken target)
  let id := ConnectionId.ofIndex (← get).connections.size
  modify fun d => { d with connections := d.connections.push ⟨source, target⟩ }
  return id

def connect (producer consumer : NodeId) : InPlace ConnectionId := do
  let source ← ask (·.connectorOf producer .output)
  let target ← ask (·.connectorOf consumer .input)
  join source target

end InPlace
end Draft
end ClipGraph
