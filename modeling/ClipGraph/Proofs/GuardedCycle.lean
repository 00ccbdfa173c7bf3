import Mathlib
import ClipGraph.Guarded.Cycle
import ClipGraph.Proofs.Cycles
import ClipGraph.Proofs.EmissionOrder
import ClipGraph.Proofs.Results

/-!
# The search for a cycle breaks no guard

Read with the consumers that each entry has still to offer, the search is the walk, step by step. The
nodes on the stack are in progress, so they have marks and lists, their consumers are nodes as well, and
the consumer where the search closes stands on the stack.
-/

namespace ClipGraph.Guarded

open Wiring (Mark Walk InRange Bounded)

section Wiring

/-- Adding consumers to lists for `n` nodes puts those of the edges behind the others. -/
theorem foldlM_addConsumer {n : Nat} (connections : List Connection) {lists : Array (List Nat)}
    (hsize : lists.size = n) : ∃ r, connections.foldlM (addConsumer n) lists = .ok r ∧ r.size = n ∧
      ∀ a < n, r[a]?.getD [] = lists[a]?.getD [] ++
        (Wiring.edges n connections).filterMap fun e => if e.1 = a then some e.2 else none := by
  induction connections generalizing lists with
  | nil => exact ⟨lists, rfl, hsize, by simp [Wiring.edges]⟩
  | cons c connections ih =>
    rw [List.foldlM_cons, Wiring.edges, List.filterMap_cons, Wiring.edge?]
    by_cases h : c.fromNode.index < n ∧ c.toNode.index < n
    · have hlt : c.fromNode.index < lists.size := hsize.symm ▸ h.1
      have hx := Array.getElem?_eq_getElem hlt
      have hadd : addConsumer n lists c = .ok (lists.setIfInBounds c.fromNode.index
          (lists[c.fromNode.index] ++ [c.toNode.index])) := by
        rw [addConsumer, if_pos h]
        exact update_of_getElem? hx rfl
      obtain ⟨r, hr, hrsize, hget⟩ := ih (Array.size_setIfInBounds.trans hsize)
      refine ⟨r, by rw [hadd]; exact hr, hrsize, fun a ha => ?_⟩
      rw [hget a ha, if_pos h, Array.getElem?_setIfInBounds]
      by_cases ha : c.fromNode.index = a
      · subst ha
        simp [hlt, Wiring.edges]
      · simp [ha, Wiring.edges]
    · have hadd : addConsumer n lists c = .ok lists := if_neg h
      obtain ⟨r, hr, hrsize, hget⟩ := ih hsize
      refine ⟨r, by rw [hadd]; exact hr, hrsize, fun a ha => ?_⟩
      rw [hget a ha, if_neg h]
      rfl

/-- The wiring is built without a breach. -/
theorem wiring_eq (n : Nat) (connections : List Connection) :
    wiring n connections = .ok (.ofConnections n connections) := by
  have hstart : (Array.replicate n ([] : List Nat)).size = n := Array.size_replicate
  obtain ⟨r, hr, hsize, hget⟩ := foldlM_addConsumer connections hstart
  have hlists : r = (Wiring.ofConnections n connections).consumers := by
    have hall : (Wiring.ofConnections n connections).consumers.size = n := Wiring.size_ofEdges _ _
    refine Array.ext (hsize.trans hall.symm) fun a ha ha' => ?_
    have hlt : a < n := hsize ▸ ha
    have hget := hget a hlt
    have hfilled : (Wiring.ofEdges n (Wiring.edges n connections)).consumers[a]? =
        some (Wiring.ofConnections n connections).consumers[a] := Array.getElem?_eq_getElem ha'
    rw [← Wiring.next_ofEdges hlt, Wiring.next, hfilled, Array.getElem?_eq_getElem ha] at hget
    simpa [hlt] using hget
  rw [wiring, hr]
  exact congrArg (fun lists => Except.ok (Wiring.mk lists)) hlists

theorem read_consumers {w : Wiring} {node : Nat} (h : node < w.size) :
    read w.consumers node = .ok (w.next node) := by
  have hlt : node < w.consumers.size := h
  rw [read_eq_ok_iff, Wiring.next, Array.getElem?_eq_getElem hlt, Option.getD_some]

end Wiring

namespace Search

/-- A search as a walk: the entries of the stack, innermost first, each with the consumers that it has
still to offer. -/
def walk (w : Wiring) (s : Search) : Walk :=
  ⟨s.marks, (s.stack.toList.map fun e => ⟨e.node, (w.next e.node).drop e.offered⟩).reverse⟩

theorem walk_push (w : Wiring) (marks : Array Mark) (stack : Array Entry) (node offered : Nat) :
    walk w ⟨marks, stack.push ⟨node, offered⟩⟩ =
      ⟨marks, ⟨node, (w.next node).drop offered⟩ :: (walk w ⟨marks, stack⟩).path⟩ := by
  simp [walk]

theorem map_node_walk (w : Wiring) (s : Search) :
    (s.walk w).path.map Wiring.Stop.node = (s.stack.toList.map Entry.node).reverse := by
  simp [walk, Function.comp_def]

def Step.walk (w : Wiring) : Step → Wiring.Step
  | .idle => .idle
  | .closed cycle => .closed cycle
  | .moved s => .moved (s.walk w)

variable {w : Wiring} {s : Search}

/-- Where the stack holds a node once, it is cut at that node. -/
theorem sliceFrom_findIdx? {stack : Array Entry} {child : Nat}
    (hmem : child ∈ stack.toList.map Entry.node) (hnodup : (stack.toList.map Entry.node).Nodup) :
    ∃ entries, sliceFrom stack ((stack.findIdx? (·.node == child)).getD 0) = .ok entries ∧
      entries.map Entry.node = child ::
        ((stack.toList.map Entry.node).reverse.takeWhile (· ≠ child)).reverse := by
  obtain ⟨l⟩ := stack
  obtain ⟨e, he, rfl⟩ := List.mem_map.mp hmem
  obtain ⟨before, after, rfl⟩ := List.append_of_mem he
  simp only [List.map_append, List.map_cons, List.nodup_append, List.nodup_cons] at hnodup
  have hbefore : ∀ x ∈ before, x.node ≠ e.node := fun x hx =>
    hnodup.2.2 _ (List.mem_map_of_mem hx) _ List.mem_cons_self
  have hafter : ∀ a ∈ (after.map Entry.node).reverse, decide (a ≠ e.node) = true := by
    intro a ha
    simpa using fun hae : a = e.node => hnodup.2.1.1 (by simpa [hae] using ha)
  have hfind : (before ++ e :: after).findIdx? (·.node == e.node) = some before.length := by
    rw [List.findIdx?_append, List.findIdx?_eq_none_iff.mpr (by simpa using hbefore)]
    simp [List.findIdx?_cons]
  refine ⟨e :: after, ?_, ?_⟩
  · rw [List.findIdx?_toArray, hfind, Option.getD_some, sliceFrom_of_le (by simp)]
    simp
  · simp only [List.map_append, List.map_cons, List.reverse_append, List.reverse_cons,
      List.append_assoc]
    rw [List.takeWhile_append_of_pos hafter]
    simp

variable {w : Wiring} {s : Search}

/-- A search that meets a node in progress cuts its stack where the walk closes. -/
theorem sliceFrom_eq_cycleFrom {marks : Array Mark} {below : Array Entry} {node child : Nat}
    {rest : List Nat} (h : Walk.Sound w ⟨marks, ⟨node, rest⟩ :: (walk w ⟨marks, below⟩).path⟩)
    (hmark : marks[child]? = some .inProgress) (offered : Nat) :
    ∃ entries, sliceFrom (below.push ⟨node, offered⟩)
        (((below.push ⟨node, offered⟩).findIdx? (·.node == child)).getD 0) = .ok entries ∧
      entries.map Entry.node =
        Walk.cycleFrom (⟨node, rest⟩ :: (walk w ⟨marks, below⟩).path) child := by
  have hpath : ((below.push ⟨node, offered⟩).toList.map Entry.node).reverse =
      node :: (walk w ⟨marks, below⟩).path.map Wiring.Stop.node := by
    rw [← map_node_walk w ⟨marks, below.push ⟨node, offered⟩⟩, walk_push]
    rfl
  have hmem : child ∈ (below.push ⟨node, offered⟩).toList.map Entry.node := by
    rw [← List.mem_reverse, hpath]
    exact (h.onPath child).mp hmark
  have hnodup : ((below.push ⟨node, offered⟩).toList.map Entry.node).Nodup := by
    rw [← List.nodup_reverse, hpath]
    exact h.nodup
  obtain ⟨entries, hslice, hcycle⟩ := sliceFrom_findIdx? hmem hnodup
  rw [hpath] at hcycle
  exact ⟨entries, hslice, hcycle⟩

/-- A step of a search breaks no guard and is the step of its walk. -/
theorem step_eq (hw : w.InRange) (h : Walk.Sound w (s.walk w)) :
    ∃ next, step w s = .ok next ∧ Walk.step w (s.walk w) = next.walk w := by
  obtain ⟨marks, stack⟩ := s
  by_cases hstack : stack = #[]
  · subst hstack
    exact ⟨.idle, rfl, rfl⟩
  obtain ⟨below, ⟨node, offered⟩, rfl⟩ := Array.exists_push_of_ne_empty hstack
  have hsize : marks.size = w.size := h.size
  have hnodes := map_node_walk w ⟨marks, below.push ⟨node, offered⟩⟩
  have hon : marks[node]? = some .inProgress := (h.onPath node).mpr (by simp [hnodes])
  have hlt : node < marks.size := (Array.getElem?_eq_some_iff.mp hon).1
  have hread := read_consumers (hsize ▸ hlt)
  simp only [step, Array.back?_push, Array.pop_push, hread, ok_bind]
  rw [walk_push] at h ⊢
  cases htarget : (w.next node)[offered]? with
  | none =>
    have hdrop : (w.next node).drop offered = [] :=
      List.drop_eq_nil_iff.mpr (List.getElem?_eq_none_iff.mp htarget)
    rw [write_eq_ok_iff.mpr ⟨hlt, rfl⟩, hdrop]
    exact ⟨.moved ⟨_, below⟩, rfl, rfl⟩
  | some child =>
    have hdrop : (w.next node).drop offered = child :: (w.next node).drop (offered + 1) := by
      obtain ⟨hoffered, hchild⟩ := List.getElem?_eq_some_iff.mp htarget
      rw [List.drop_eq_getElem_cons hoffered, hchild]
    rw [hdrop] at h ⊢
    have hchild : child < marks.size := hsize ▸ hw node child h.edge
    have hmark : marks[child]? = some marks[child] := Array.getElem?_eq_getElem hchild
    simp only [read_eq_ok_iff.mpr hmark, ok_bind]
    cases hm : marks[child] with
    | unvisited =>
      rw [hm] at hmark
      simp only [write_eq_ok_iff.mpr ⟨hchild, rfl⟩, ok_bind]
      refine ⟨_, rfl, ?_⟩
      simp only [Walk.step, hmark, Step.walk, walk_push]
      rfl
    | inProgress =>
      rw [hm] at hmark
      obtain ⟨entries, hslice, hcycle⟩ := sliceFrom_eq_cycleFrom h hmark (offered + 1)
      rw [hslice]
      refine ⟨_, rfl, ?_⟩
      simp only [Walk.step, hmark, Step.walk, hcycle]
    | done =>
      rw [hm] at hmark
      refine ⟨_, rfl, ?_⟩
      simp only [Walk.step, hmark, Step.walk, walk_push]

/-- Idle and closed searches have nothing to go on with. -/
theorem run_eq (hw : w.InRange) (h : Walk.Sound w (s.walk w)) : run w s =
    .ok ((Walk.run w (s.walk w)).map fun marks => ⟨marks, #[]⟩) := by
  fun_induction run w s with
  | case1 s breach hs =>
    obtain ⟨next, hnext, -⟩ := step_eq hw h
    rw [hnext] at hs
    cases hs
  | case2 s hs =>
    obtain ⟨next, hnext, hwalk⟩ := step_eq hw h
    rw [hnext] at hs
    obtain rfl := Except.ok.inj hs
    have hnil := Walk.path_eq_nil_of_idle hwalk
    have hstack : s.stack = #[] := by simpa [walk] using hnil
    rw [Walk.run_of_idle hwalk, map_ok, walk, ← hstack]
  | case3 s cycle hs =>
    obtain ⟨next, hnext, hwalk⟩ := step_eq hw h
    rw [hnext] at hs
    obtain rfl := Except.ok.inj hs
    rw [Walk.run_of_closed hwalk]
    rfl
  | case4 s t hs ih =>
    obtain ⟨next, hnext, hwalk⟩ := step_eq hw h
    rw [hnext] at hs
    obtain rfl := Except.ok.inj hs
    rw [ih (Walk.step_sound hw h hwalk), Walk.run_of_moved hwalk]

end Search

/-- The search by indices never breaches and finds what the walk finds. -/
theorem searchFrom_eq {w : Wiring} (hw : w.InRange) {roots : List Nat} (hroots : ∀ a ∈ roots, a < w.size)
    {marks : Array Mark} (h : Walk.Sound w ⟨marks, []⟩) :
    searchFrom w roots ⟨marks, #[]⟩ = .ok (Wiring.searchFrom w roots marks) := by
  induction roots generalizing marks with
  | nil => rfl
  | cons root roots ih =>
    obtain ⟨hroot, hrest⟩ := List.forall_mem_cons.mp hroots
    have hlt : root < marks.size := h.size.symm ▸ hroot
    have hmark := Array.getElem?_eq_getElem hlt
    rw [searchFrom, Wiring.searchFrom, read_eq_ok_iff.mpr hmark, hmark, ok_bind]
    cases hm : marks[root] with
    | unvisited =>
      rw [hm] at hmark
      have henter : Walk.Sound w (Search.walk w ⟨marks.setIfInBounds root .inProgress, #[⟨root, 0⟩]⟩) :=
        Walk.enter_sound h rfl hmark (by simp) trivial
      have hrun := Search.run_eq hw henter
      simp only [write_eq_ok_iff.mpr ⟨hlt, rfl⟩, ok_bind, if_true]
      have hpush : (#[] : Array Entry).push ⟨root, 0⟩ = #[⟨root, 0⟩] := rfl
      have hwalk : Search.walk w ⟨marks.setIfInBounds root .inProgress, #[⟨root, 0⟩]⟩ =
          Walk.enter w marks root [] := rfl
      rw [hpush, hrun, ok_bind, hwalk]
      rcases Wiring.run_root hw h hmark with ⟨marks', hroot, hsound, -⟩ | ⟨c, t, hroot, -⟩
      · rw [hroot]
        exact ih hrest hsound
      · rw [hroot]
        rfl
    | inProgress => exact ih hrest h
    | done => exact ih hrest h

/-- The first cycle is found without a breach. -/
theorem cycle?_eq (n : Nat) (connections : List Connection) :
    cycle? n connections = .ok (Wiring.ofConnections n connections).cycle? := by
  have hw := Wiring.inRange_ofConnections n connections
  have hsize : (Wiring.ofConnections n connections).size = n := Wiring.size_ofEdges _ _
  have hroots : ∀ a ∈ List.range n, a < (Wiring.ofConnections n connections).size := by
    simp [hsize]
  have h := searchFrom_eq hw hroots (Walk.sound_start _)
  rw [cycle?, wiring_eq, Wiring.cycle?, hsize]
  rw [hsize] at h
  exact h

end ClipGraph.Guarded
