import ClipGraph.Guarded.Cycle
import ClipGraph.Wiring.Order

/-!
# The emission order, guarded

Every node has a flag and a count of the edges that lead to it, and the counts are words. Taking a node
off counts every node down that one of its edges leads to, and a count that comes to zero makes its
node ready.
-/

namespace ClipGraph.Guarded

/-- The flags after one more connection. Connections to nodes past the end set none. -/
def flag (n : Nat) (flags : Array Bool) (c : Connection) : Guarded (Array Bool) := do
  if c.fromNode.index < n ∧ c.toNode.index < n then
    write (← write flags c.fromNode.index true) c.toNode.index true
  else return flags

def emitted (outputs : Array Bool) (connections : List Connection) : Guarded (Array Bool) :=
  connections.foldlM (flag outputs.size) outputs

def degrees (w : Wiring) : Guarded (Array UInt32) :=
  w.consumers.toList.flatten.foldlM (update countUp) (Array.replicate w.size 0)

/-- The emitted nodes that no edge leads to. The count of a node that is not emitted is not looked
at. -/
def roots (flags : Array Bool) (counts : Array UInt32) : List Nat → Guarded (List Nat)
  | [] => return []
  | node :: nodes => do
    let isRoot ← if ← read flags node then (· == 0) <$> read counts node else pure false
    let rest ← roots flags counts nodes
    return if isRoot then node :: rest else rest

/-- The nodes that wait, by how many edges still lead to them, and the ready nodes in increasing
order. -/
structure Queue where
  counts : Array UInt32
  ready : List Nat
  deriving DecidableEq, Repr

namespace Queue

def release (q : Queue) (node : Nat) : Guarded Queue := do
  let count ← countDown (← read q.counts node)
  let counts ← write q.counts node count
  return ⟨counts, if count = 0 then Wiring.insertSorted node q.ready else q.ready⟩

def releaseFrom (w : Wiring) (q : Queue) (node : Nat) : Guarded Queue := do
  (← read w.consumers node).foldlM release q

/-- The ready nodes and the edges that still lead anywhere. -/
def work (q : Queue) : Nat := q.ready.length + (q.counts.toList.map UInt32.toNat).foldr (· + ·) 0

theorem work_release {q r : Queue} {node : Nat} (h : q.release node = .ok r) : r.work ≤ q.work := by
  simp only [release, bind, Except.bind] at h
  split at h
  · cases h
  next n hn =>
  split at h
  · cases h
  next m hm =>
  split at h
  · cases h
  next counts hcounts =>
  obtain ⟨-, rfl⟩ := write_eq_ok_iff.mp hcounts
  cases h
  have hn : (q.counts.toList.map UInt32.toNat)[node]? = some n.toNat := by
    simp [read_eq_ok_iff.mp hn]
  have hsum := Wiring.Backlog.foldr_set _ (b := m.toNat) hn
  have hm := countDown_eq_ok_iff.mp hm
  simp only [work, Array.toList_setIfInBounds, List.map_set]
  split
  · rw [Wiring.length_insertSorted]
    omega
  · omega

theorem work_foldlM_release {nodes : List Nat} {q r : Queue} (h : nodes.foldlM release q = .ok r) :
    r.work ≤ q.work := by
  induction nodes generalizing q with
  | nil =>
    cases h
    exact Nat.le_refl _
  | cons node nodes ih =>
    rw [List.foldlM_cons] at h
    cases hq : q.release node with
    | error breach =>
      rw [hq] at h
      cases h
    | ok next =>
      rw [hq] at h
      exact Nat.le_trans (ih h) (work_release hq)

theorem work_releaseFrom {w : Wiring} {q r : Queue} {node : Nat} (h : q.releaseFrom w node = .ok r) :
    r.work ≤ q.work := by
  simp only [releaseFrom, bind, Except.bind] at h
  split at h
  · cases h
  · exact work_foldlM_release h

/-- Takes ready nodes until there are none, with the order so far, last node first. -/
def drain (w : Wiring) (q : Queue) (taken : List Nat) : Guarded (List Nat) :=
  match _hq : q.ready with
  | [] => .ok taken.reverse
  | node :: rest =>
    match _h : releaseFrom w ⟨q.counts, rest⟩ node with
    | .error breach => .error breach
    | .ok next => drain w next (node :: taken)
termination_by q.work
decreasing_by
  have := work_releaseFrom _h
  simp only [work, _hq, List.length_cons] at this ⊢
  omega

end Queue

def order (outputs : Array Bool) (connections : List Connection) : Guarded (List Nat) := do
  let flags ← emitted outputs connections
  let w ← wiring outputs.size connections
  let counts ← degrees w
  let ready ← roots flags counts (List.range outputs.size)
  Queue.drain w ⟨counts, ready⟩ []

end ClipGraph.Guarded
