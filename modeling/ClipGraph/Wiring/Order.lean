import ClipGraph.Wiring

/-!
# Emission order

The emitted nodes, producers first. A node is ready once all its producers stand in the order, and of
the ready nodes the one with the least number goes next. Nodes on a cycle, and nodes behind one,
never get ready and are left out. Every node taken from the ready list uses up one unit of the work
left, which is the number of ready nodes and of edges into nodes that are not ready yet.
-/

namespace ClipGraph.Wiring

/-- For every node whether it has a statement in the script: outputs have one, and so has every node
that an edge touches. -/
def emitted (outputs : Array Bool) (edges : List (Nat × Nat)) : Array Bool :=
  edges.foldl (fun flags e => (flags.setIfInBounds e.1 true).setIfInBounds e.2 true) outputs

def degrees (n : Nat) (edges : List (Nat × Nat)) : Array Nat :=
  edges.foldl (fun counts e => counts.modify e.2 (· + 1)) (Array.replicate n 0)

/-- The list with a number put in front of the first that is not smaller. -/
def insertSorted (a : Nat) : List Nat → List Nat
  | [] => [a]
  | b :: rest => if a ≤ b then a :: b :: rest else b :: insertSorted a rest

@[simp] theorem length_insertSorted (a : Nat) (l : List Nat) :
    (insertSorted a l).length = l.length + 1 := by
  induction l with
  | nil => rfl
  | cons b rest ih =>
    simp only [insertSorted]
    split <;> simp [ih]

theorem mem_insertSorted {a b : Nat} {l : List Nat} : b ∈ insertSorted a l ↔ b = a ∨ b ∈ l := by
  induction l with
  | nil => simp [insertSorted]
  | cons c rest ih =>
    simp only [insertSorted]
    split
    · simp
    · simp only [List.mem_cons, ih]
      grind

/-- What is left to order: how many edges still lead to each node, and the ready nodes in increasing
order. -/
structure Backlog where
  degrees : Array Nat
  ready : List Nat
  deriving DecidableEq, Repr

namespace Backlog

/-- Takes away one edge into a node. The node becomes ready with its last edge. -/
def release (s : Backlog) (node : Nat) : Backlog :=
  match s.degrees[node]? with
  | some 1 => ⟨s.degrees.setIfInBounds node 0, insertSorted node s.ready⟩
  | some (k + 2) => ⟨s.degrees.setIfInBounds node (k + 1), s.ready⟩
  | _ => s

def releaseAll (s : Backlog) (nodes : List Nat) : Backlog := nodes.foldl release s

/-- The ready nodes and the edges that still lead anywhere. -/
def work (s : Backlog) : Nat := s.ready.length + s.degrees.toList.foldr (· + ·) 0

theorem foldr_set (l : List Nat) {i : Nat} {a b : Nat} (h : l[i]? = some a) :
    (l.set i b).foldr (· + ·) 0 + a = l.foldr (· + ·) 0 + b := by
  induction l generalizing i with
  | nil => simp at h
  | cons c l ih =>
    cases i with
    | zero => simp at h; simp [h]; omega
    | succ i => simp at h; simp; have := ih h; omega

theorem work_release (s : Backlog) (node : Nat) : (s.release node).work ≤ s.work := by
  unfold release
  split
  · next h =>
    have := foldr_set s.degrees.toList (b := 0) (by simpa using h)
    simp only [work, length_insertSorted, Array.toList_setIfInBounds]
    omega
  · next k h =>
    have := foldr_set s.degrees.toList (b := k + 1) (by simpa using h)
    simp only [work, Array.toList_setIfInBounds]
    omega
  · exact Nat.le_refl _

theorem work_releaseAll (s : Backlog) (nodes : List Nat) : (s.releaseAll nodes).work ≤ s.work := by
  induction nodes generalizing s with
  | nil => exact Nat.le_refl _
  | cons node rest ih => exact Nat.le_trans (ih (s.release node)) (work_release s node)

/-- Takes ready nodes until there are none, with the order so far, last node first. -/
def drain (w : Wiring) (s : Backlog) (taken : List Nat) : List Nat :=
  match _h : s.ready with
  | [] => taken.reverse
  | node :: rest =>
    drain w (releaseAll ⟨s.degrees, rest⟩ (w.next node)) (node :: taken)
termination_by s.work
decreasing_by
  have := work_releaseAll ⟨s.degrees, rest⟩ (w.next node)
  simp only [work, _h, List.length_cons] at this ⊢
  omega

end Backlog

def roots (emitted : Array Bool) (degrees : Array Nat) : List Nat :=
  (List.range emitted.size).filter fun i => emitted[i]? == some true && degrees[i]? == some 0

/-- The emission order of nodes with the given output flags. -/
def order (outputs : Array Bool) (edges : List (Nat × Nat)) : List Nat :=
  let counts := degrees outputs.size edges
  (⟨counts, roots (emitted outputs edges) counts⟩ : Backlog).drain (ofEdges outputs.size edges) []

end ClipGraph.Wiring
