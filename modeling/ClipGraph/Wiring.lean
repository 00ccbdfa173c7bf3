import ClipGraph.Graph

/-!
# Wiring

The shape of a graph without its contents: nodes are the numbers below a bound, and an edge runs
from the producer to the consumer of a connection. A connection that names a node past the bound is
no edge. Parallel edges count as often as they occur.
-/

namespace ClipGraph

structure Wiring where
  /-- For every node the consumers of its clip, in the order the connections were made. -/
  consumers : Array (List Nat)
  deriving DecidableEq, Repr

namespace Wiring

def edge? (n : Nat) (c : Connection) : Option (Nat × Nat) :=
  if c.fromNode.index < n ∧ c.toNode.index < n then some (c.fromNode.index, c.toNode.index)
  else none

def edges (n : Nat) (connections : List Connection) : List (Nat × Nat) :=
  connections.filterMap (edge? n)

/-- The wiring of `n` nodes. Consumers are put in front of their lists from the last edge back, so
each list ends up in the order of the edges. -/
def ofEdges (n : Nat) (edges : List (Nat × Nat)) : Wiring :=
  ⟨edges.foldr (fun e lists => lists.modify e.1 (e.2 :: ·)) (Array.replicate n [])⟩

def ofConnections (n : Nat) (connections : List Connection) : Wiring :=
  ofEdges n (edges n connections)

def size (w : Wiring) : Nat := w.consumers.size

def next (w : Wiring) (node : Nat) : List Nat := w.consumers[node]?.getD []

def Edge (w : Wiring) (a b : Nat) : Prop := b ∈ w.next a

instance (w : Wiring) (a b : Nat) : Decidable (w.Edge a b) :=
  inferInstanceAs (Decidable (b ∈ w.next a))

@[simp] theorem size_ofEdges (n : Nat) (es : List (Nat × Nat)) : (ofEdges n es).size = n := by
  unfold ofEdges size
  induction es with
  | nil => simp
  | cons e es ih => simpa using ih

/-- Every node lists the targets of its edges in the order in which they were given. -/
theorem next_ofEdges {n : Nat} {es : List (Nat × Nat)} {a : Nat} (h : a < n) :
    (ofEdges n es).next a = es.filterMap fun e => if e.1 = a then some e.2 else none := by
  induction es with
  | nil => simp [ofEdges, next, h]
  | cons e es ih =>
    have hs : a < (ofEdges n es).consumers.size := by
      have := size_ofEdges n es
      unfold size at this
      omega
    simp only [ofEdges] at hs
    simp only [ofEdges, next, List.foldr_cons, Array.getElem?_modify] at ih ⊢
    by_cases he : e.1 = a
    · simp [he, ← ih, Array.getElem?_eq_getElem hs]
    · simp [he, ← ih]

end Wiring
end ClipGraph
