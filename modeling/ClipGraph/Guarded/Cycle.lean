import ClipGraph.Guarded
import ClipGraph.Wiring.Cycle

/-!
# The search for a cycle, guarded

The wiring is one list of consumers for every node. The search keeps its path on a stack whose entries
count how many consumers of a node have been offered, and one stack serves all roots. It closes at a
consumer in progress and answers the stack from that consumer on.
-/

namespace ClipGraph.Guarded

open Wiring (Mark)

/-- One more connection. Those to nodes past the end are left out. -/
def addConsumer (n : Nat) (lists : Array (List Nat)) (c : Connection) : Guarded (Array (List Nat)) :=
  if c.fromNode.index < n ∧ c.toNode.index < n then
    update (fun consumers => .ok (consumers ++ [c.toNode.index])) lists c.fromNode.index
  else .ok lists

def wiring (n : Nat) (connections : List Connection) : Guarded Wiring := do
  return ⟨← connections.foldlM (addConsumer n) (Array.replicate n [])⟩

/-- A node on the stack, and how many of its consumers it has offered. -/
structure Entry where
  node : Nat
  offered : Nat
  deriving DecidableEq, Repr

structure Search where
  marks : Array Mark
  stack : Array Entry
  deriving DecidableEq, Repr

namespace Search

inductive Step where
  | idle
  | closed (cycle : List Nat)
  | moved (search : Search)
  deriving DecidableEq, Repr

def step (w : Wiring) (s : Search) : Guarded Step :=
  match s.stack.back? with
  | none => return .idle
  | some ⟨node, offered⟩ => do
    match (← read w.consumers node)[offered]? with
    | none => return .moved ⟨← write s.marks node .done, s.stack.pop⟩
    | some child =>
      let stack := s.stack.pop.push ⟨node, offered + 1⟩
      match ← read s.marks child with
      | .unvisited => return .moved ⟨← write s.marks child .inProgress, stack.push ⟨child, 0⟩⟩
      | .inProgress =>
        let start := (stack.findIdx? (·.node == child)).getD 0
        return .closed ((← sliceFrom stack start).map Entry.node)
      | .done => return .moved ⟨s.marks, stack⟩

def unvisited (s : Search) : Nat := s.marks.count .unvisited

/-- How many consumers the nodes on the stack have still to offer, each node counting for one more. -/
def remaining (w : Wiring) (s : Search) : Nat :=
  s.stack.foldl (fun n e => n + ((w.next e.node).length - e.offered) + 1) 0

/-- What a step that moves does. -/
inductive Moved (w : Wiring) : Search → Search → Prop where
  | leave {node offered : Nat} {targets : List Nat} (marks : Array Mark) (below : Array Entry)
      (hw : w.consumers[node]? = some targets) (hn : node < marks.size)
      (ht : targets[offered]? = none) :
      Moved w ⟨marks, below.push ⟨node, offered⟩⟩ ⟨marks.setIfInBounds node .done, below⟩
  | enter {node offered child : Nat} {targets : List Nat} {marks : Array Mark}
      (below : Array Entry) (hw : w.consumers[node]? = some targets)
      (ht : targets[offered]? = some child) (hm : marks[child]? = some .unvisited) :
      Moved w ⟨marks, below.push ⟨node, offered⟩⟩
        ⟨marks.setIfInBounds child .inProgress, (below.push ⟨node, offered + 1⟩).push ⟨child, 0⟩⟩
  | pass {node offered child : Nat} {targets : List Nat} {marks : Array Mark}
      (below : Array Entry) (hw : w.consumers[node]? = some targets)
      (ht : targets[offered]? = some child) (hm : marks[child]? = some .done) :
      Moved w ⟨marks, below.push ⟨node, offered⟩⟩ ⟨marks, below.push ⟨node, offered + 1⟩⟩

theorem moved_of_step {w : Wiring} {s t : Search} (h : step w s = .ok (.moved t)) :
    Moved w s t := by
  obtain ⟨marks, stack⟩ := s
  by_cases hstack : stack = #[]
  · subst hstack
    cases h
  obtain ⟨below, ⟨node, offered⟩, rfl⟩ := Array.exists_push_of_ne_empty hstack
  simp only [step, Array.back?_push, Array.pop_push, bind, Except.bind] at h
  split at h
  · cases h
  next targets hw =>
  rw [read_eq_ok_iff] at hw
  split at h
  · next ht =>
    split at h
    · cases h
    · next marks' hmarks =>
      obtain ⟨hn, rfl⟩ := write_eq_ok_iff.mp hmarks
      cases h
      exact .leave marks below hw hn ht
  · next child ht =>
    split at h
    · cases h
    next mark hmark =>
    rw [read_eq_ok_iff] at hmark
    cases mark with
    | unvisited =>
      simp only at h
      split at h
      · cases h
      · next marks' hmarks =>
        obtain ⟨-, rfl⟩ := write_eq_ok_iff.mp hmarks
        cases h
        exact .enter below hw ht hmark
    | inProgress =>
      simp only at h
      split at h <;> cases h
    | done =>
      cases h
      exact .pass below hw ht hmark

@[simp] theorem remaining_push (w : Wiring) (marks : Array Mark) (stack : Array Entry) (e : Entry) :
    remaining w ⟨marks, stack.push e⟩ =
      remaining w ⟨marks, stack⟩ + ((w.next e.node).length - e.offered) + 1 :=
  Array.foldl_push

theorem length_next_of_getElem? {w : Wiring} {node offered child : Nat} {targets : List Nat}
    (hw : w.consumers[node]? = some targets) (ht : targets[offered]? = some child) :
    offered < (w.next node).length := by
  rw [Wiring.next, hw, Option.getD_some]
  exact (List.getElem?_eq_some_iff.mp ht).1

/-- Every step that moves leaves fewer nodes unvisited, or as many and less to do on the stack. -/
theorem measure_step {w : Wiring} {s t : Search} (h : step w s = .ok (.moved t)) :
    Prod.Lex (· < ·) (· < ·) (t.unvisited, t.remaining w) (s.unvisited, s.remaining w) := by
  cases moved_of_step h with
  | @leave node offered targets marks below hw hn ht =>
    rcases Nat.lt_or_eq_of_le (Wiring.Walk.count_set_le marks node (m := .done) (by decide))
      with hlt | heq
    · exact .left _ _ hlt
    · simp only [unvisited, heq]
      refine .right _ ?_
      rw [remaining_push]
      simp only [remaining]
      omega
  | enter below hw ht hm => exact .left _ _ (Wiring.Walk.count_set_lt _ (by decide) hm)
  | pass below hw ht hm =>
    have := length_next_of_getElem? hw ht
    refine .right _ ?_
    simp only [remaining_push]
    omega

/-- Searches until the stack is empty, and answers the search or the first cycle met. -/
def run (w : Wiring) (s : Search) : Guarded (Except (List Nat) Search) :=
  match _h : step w s with
  | .error breach => .error breach
  | .ok .idle => .ok (.ok s)
  | .ok (.closed cycle) => .ok (.error cycle)
  | .ok (.moved t) => run w t
termination_by (s.unvisited, s.remaining w)
decreasing_by exact measure_step _h

end Search

def searchFrom (w : Wiring) : List Nat → Search → Guarded (Option (List Nat))
  | [], _ => return none
  | root :: roots, s => do
    match ← read s.marks root with
    | .unvisited =>
      let marks ← write s.marks root .inProgress
      match ← Search.run w ⟨marks, s.stack.push ⟨root, 0⟩⟩ with
      | .error cycle => return some cycle
      | .ok s => searchFrom w roots s
    | _ => searchFrom w roots s

def cycle? (n : Nat) (connections : List Connection) : Guarded (Option (List Nat)) := do
  searchFrom (← wiring n connections) (List.range n) ⟨Array.replicate n .unvisited, #[]⟩

end ClipGraph.Guarded
