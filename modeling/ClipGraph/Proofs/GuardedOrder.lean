import Mathlib
import ClipGraph.Guarded.Order
import ClipGraph.Proofs.GuardedCycle

/-!
# The emission order breaks no guard

Read as numbers, the counts are the degrees. They fit their words because no node has more edges than
there are connections. A node is taken off once, and until then its edges still count for the nodes they
lead to, so no count falls below zero.
-/

namespace ClipGraph.Guarded

open Wiring (Backlog Bounded insertSorted ofEdges)

section Flags

theorem foldlM_flag (connections : List Connection) (flags : Array Bool) :
    connections.foldlM (flag flags.size) flags =
      .ok (Wiring.emitted flags (Wiring.edges flags.size connections)) := by
  generalize hsize : flags.size = n
  induction connections generalizing flags with
  | nil => rfl
  | cons c connections ih =>
    rw [List.foldlM_cons, Wiring.edges, List.filterMap_cons, Wiring.edge?, flag]
    by_cases h : c.fromNode.index < n ∧ c.toNode.index < n
    · have hfrom : c.fromNode.index < flags.size := hsize.symm ▸ h.1
      have hto : c.toNode.index < (flags.setIfInBounds c.fromNode.index true).size := by
        rw [Array.size_setIfInBounds, hsize]
        exact h.2
      simp only [if_pos h, write_eq_ok_iff.mpr ⟨hfrom, rfl⟩, write_eq_ok_iff.mpr ⟨hto, rfl⟩, ok_bind]
      exact ih _ (by simpa using hsize)
    · simp only [if_neg h]
      exact ih flags hsize

/-- The flags of emitted nodes are set without a breach. -/
theorem emitted_eq (outputs : Array Bool) (connections : List Connection) :
    emitted outputs connections =
      .ok (Wiring.emitted outputs (Wiring.edges outputs.size connections)) :=
  foldlM_flag connections outputs

end Flags

section Degrees

def count (counts : Array UInt32) (node : Nat) : Nat := (counts.map UInt32.toNat)[node]?.getD 0

theorem count_getElem {counts : Array UInt32} {node : Nat} (h : node < counts.size) :
    count counts node = counts[node].toNat := by
  simp [count, h]

theorem count_setIfInBounds {counts : Array UInt32} {node : Nat} (h : node < counts.size)
    (m : UInt32) (a : Nat) :
    count (counts.setIfInBounds node m) a = if node = a then m.toNat else count counts a := by
  rw [count, count, Array.map_setIfInBounds, Array.getElem?_setIfInBounds]
  split
  · simp [h]
  · rfl

/-- Counting nodes up breaks no guard as long as no count outgrows its word. -/
theorem foldlM_countUp {nodes : List Nat} {counts : Array UInt32}
    (hnodes : ∀ a ∈ nodes, a < counts.size)
    (hfit : ∀ a, count counts a + nodes.count a < 4294967296) :
    ∃ r, nodes.foldlM (update countUp) counts = .ok r ∧ r.size = counts.size ∧
      ∀ a, count r a = count counts a + nodes.count a := by
  induction nodes generalizing counts with
  | nil => exact ⟨counts, rfl, rfl, fun _ => rfl⟩
  | cons node nodes ih =>
    obtain ⟨hnode, hrest⟩ := List.forall_mem_cons.mp hnodes
    have hroom : counts[node].toNat + 1 < 4294967296 := by
      have := hfit node
      rw [count_getElem hnode, List.count_cons_self] at this
      omega
    obtain ⟨hup, hone⟩ := countUp_of_lt hroom
    have hupdate := update_of_getElem? (Array.getElem?_eq_getElem hnode) hup
    have hcount : ∀ a, count (counts.setIfInBounds node (counts[node] + 1)) a + nodes.count a =
        count counts a + (node :: nodes).count a := by
      intro a
      rw [count_setIfInBounds hnode, List.count_cons]
      by_cases ha : node = a
      · subst ha
        simp only [if_true, hone, count_getElem hnode, beq_self_eq_true]
        omega
      · simp [ha]
    have hrest : ∀ a ∈ nodes, a < (counts.setIfInBounds node (counts[node] + 1)).size := by
      simpa using hrest
    obtain ⟨r, hr, hsize, hget⟩ := ih hrest fun a => hcount a ▸ hfit a
    rw [List.foldlM_cons, hupdate]
    exact ⟨r, hr, by simpa using hsize, fun a => (hget a).trans (hcount a)⟩

theorem count_flatten_modify (lists : List (List Nat)) {i : Nat} (hi : i < lists.length) (a v : Nat) :
    (lists.modify i (a :: ·)).flatten.count v =
      lists.flatten.count v + if a = v then 1 else 0 := by
  rw [List.modify_eq_take_cons_drop hi]
  conv_rhs => rw [← List.take_append_drop i lists, List.drop_eq_getElem_cons hi]
  simp only [List.flatten_append, List.flatten_cons, List.count_append, List.count_cons, beq_iff_eq]
  omega

/-- In all lists of consumers together a node stands once for every edge that leads to it. -/
theorem count_flatten_ofEdges {n : Nat} {es : List (Nat × Nat)} (hes : Bounded n es) (v : Nat) :
    (ofEdges n es).consumers.toList.flatten.count v = es.countP fun e => decide (e.2 = v) := by
  induction es with
  | nil => simp [ofEdges]
  | cons e es ih =>
    obtain ⟨he, hrest⟩ := List.forall_mem_cons.mp hes
    have hlt : e.1 < (ofEdges n es).consumers.toList.length := by
      have hsize : (ofEdges n es).consumers.size = n := Wiring.size_ofEdges n es
      rw [Array.length_toList, hsize]
      exact he.1
    have hcons : (ofEdges n (e :: es)).consumers =
        (ofEdges n es).consumers.modify e.1 (e.2 :: ·) := rfl
    rw [hcons, Array.toList_modify, count_flatten_modify _ hlt, ih hrest, List.countP_cons]
    simp

/-- Degrees are counted without a breach, because there are fewer edges than a word counts. -/
theorem degrees_eq {n : Nat} {es : List (Nat × Nat)} (hes : Bounded n es)
    (hlength : es.length < 4294967296) :
    ∃ counts, degrees (ofEdges n es) = .ok counts ∧
      counts.map UInt32.toNat = Wiring.degrees n es := by
  have hzero : ∀ a, count (Array.replicate (ofEdges n es).size 0) a = 0 := by
    intro a
    rw [count, Array.map_replicate, Array.getElem?_replicate]
    split <;> rfl
  have hnodes : ∀ a ∈ (ofEdges n es).consumers.toList.flatten,
      a < (Array.replicate (ofEdges n es).size (0 : UInt32)).size := by
    intro a ha
    rw [← List.count_pos_iff, count_flatten_ofEdges hes, List.countP_pos_iff] at ha
    obtain ⟨e, he, hea⟩ := ha
    simpa [← of_decide_eq_true hea] using (hes e he).2
  have hfit : ∀ a, count (Array.replicate (ofEdges n es).size 0) a +
      (ofEdges n es).consumers.toList.flatten.count a < 4294967296 := by
    intro a
    rw [hzero, Nat.zero_add, count_flatten_ofEdges hes]
    exact Nat.lt_of_le_of_lt List.countP_le_length hlength
  obtain ⟨counts, hcounts, hsize, hget⟩ := foldlM_countUp hnodes hfit
  rw [Array.size_replicate, Wiring.size_ofEdges] at hsize
  refine ⟨counts, hcounts, Array.ext (by simp [hsize, Wiring.size_degrees]) fun a ha ha' => ?_⟩
  have hdegree := Wiring.degree_degrees hes [] a
  have hcount := hget a
  rw [hzero, Nat.zero_add, count_flatten_ofEdges hes, ← hdegree, Backlog.degree, count,
    Array.getElem?_eq_getElem ha, Array.getElem?_eq_getElem ha'] at hcount
  exact hcount

end Degrees

theorem roots_eq {flags : Array Bool} {counts : Array UInt32} {nodes : List Nat}
    (hflags : ∀ a ∈ nodes, a < flags.size) (hcounts : ∀ a ∈ nodes, a < counts.size) :
    roots flags counts nodes = .ok (nodes.filter fun a =>
      flags[a]? == some true && (counts.map UInt32.toNat)[a]? == some 0) := by
  induction nodes with
  | nil => rfl
  | cons node nodes ih =>
    obtain ⟨hflag, hflags⟩ := List.forall_mem_cons.mp hflags
    obtain ⟨hcount, hcounts⟩ := List.forall_mem_cons.mp hcounts
    have hreadFlag := read_eq_ok_iff.mpr (Array.getElem?_eq_getElem hflag)
    have hreadCount := read_eq_ok_iff.mpr (Array.getElem?_eq_getElem hcount)
    have hzero : (counts[node] == 0) = (counts[node].toNat == 0) := by
      rw [Bool.eq_iff_iff, beq_iff_eq, beq_iff_eq, ← UInt32.toNat_inj]
      rfl
    rw [roots, hreadFlag, hreadCount, ih hflags hcounts, List.filter_cons]
    simp only [ok_bind, Array.getElem?_map, Array.getElem?_eq_getElem hflag,
      Array.getElem?_eq_getElem hcount, Option.map_some]
    cases flags[node] with
    | false => rfl
    | true => simp [hzero]

namespace Queue

def backlog (q : Queue) : Backlog := ⟨q.counts.map UInt32.toNat, q.ready⟩

/-- Taking away an edge that is there does not count below zero. -/
theorem release_eq {q : Queue} {node : Nat} (h : q.backlog.degree node ≠ 0) :
    ∃ r, q.release node = .ok r ∧ r.backlog = q.backlog.release node := by
  have hlt : node < q.counts.size := by
    by_contra hge
    exact h (by simp [backlog, Backlog.degree, hge])
  have hdegree : q.backlog.degree node = q.counts[node].toNat := count_getElem hlt
  have hdown : countDown q.counts[node] = .ok (q.counts[node] - 1) := by
    refine if_neg fun hzero => h ?_
    rw [hdegree, hzero]
    rfl
  have hnext := countDown_eq_ok_iff.mp hdown
  have hdegrees : q.backlog.degrees[node]? = some ((q.counts[node] - 1).toNat + 1) := by
    simp [backlog, hlt, ← hnext]
  simp only [release, read_eq_ok_iff.mpr (Array.getElem?_eq_getElem hlt), ok_bind, hdown,
    write_eq_ok_iff.mpr ⟨hlt, rfl⟩]
  refine ⟨_, rfl, ?_⟩
  rw [Backlog.release, hdegrees]
  generalize q.counts[node] - 1 = m
  by_cases hm : m = 0
  · subst hm
    simp [backlog, Array.map_setIfInBounds]
  · obtain ⟨k, hk⟩ := Nat.exists_eq_succ_of_ne_zero fun hzero => hm (UInt32.toNat.inj hzero)
    simp [backlog, Array.map_setIfInBounds, hm, hk]

/-- The edges to take away are all still counted, so each of them is when its turn comes. -/
theorem foldlM_release {nodes : List Nat} {q : Queue}
    (h : ∀ a, nodes.count a ≤ q.backlog.degree a) :
    ∃ r, nodes.foldlM release q = .ok r ∧ r.backlog = q.backlog.releaseAll nodes := by
  induction nodes generalizing q with
  | nil => exact ⟨q, rfl, rfl⟩
  | cons node nodes ih =>
    have hnode : q.backlog.degree node ≠ 0 := by
      have hle := h node
      rw [List.count_cons_self] at hle
      omega
    obtain ⟨next, hrelease, hnext⟩ := release_eq hnode
    have hrest : ∀ a, nodes.count a ≤ next.backlog.degree a := by
      intro a
      have ha := h a
      rw [List.count_cons] at ha
      rw [hnext, Backlog.degree_release]
      by_cases hn : a = node
      · subst hn
        simp only [beq_self_eq_true, if_true] at ha ⊢
        omega
      · simpa [hn, Ne.symm hn] using ha
    obtain ⟨r, hr, hbacklog⟩ := ih hrest
    rw [List.foldlM_cons, hrelease]
    exact ⟨r, hr, by rw [hbacklog, hnext]; rfl⟩

variable {outputs : Array Bool} {es : List (Nat × Nat)} {taken : List Nat} {node : Nat}

/-- Taking off the first ready node breaks no guard. -/
theorem releaseFrom_eq (hes : Bounded outputs.size es) {q : Queue} {rest : List Nat}
    (h : q.backlog.Sound outputs es taken) (hq : q.ready = node :: rest) :
    ∃ r, releaseFrom (ofEdges outputs.size es) ⟨q.counts, rest⟩ node = .ok r ∧
      r.backlog = Backlog.releaseAll ⟨q.backlog.degrees, rest⟩
        ((ofEdges outputs.size es).next node) := by
  have hready : Wiring.Ready outputs es taken node := (h.ready node).mp (by simp [backlog, hq])
  have hread : read (ofEdges outputs.size es).consumers node =
      .ok ((ofEdges outputs.size es).next node) := by
    refine read_consumers ?_
    rw [Wiring.size_ofEdges]
    exact hready.emitted.lt hes
  have hle : ∀ v, ((ofEdges outputs.size es).next node).count v ≤ q.backlog.degree v :=
    h.count_next_le hes hready
  rw [releaseFrom, hread, ok_bind]
  exact foldlM_release (q := ⟨q.counts, rest⟩) hle

/-- Draining the queue takes the same nodes as draining the backlog. -/
theorem drain_eq (hes : Bounded outputs.size es) {q : Queue}
    (h : q.backlog.Sound outputs es taken) :
    q.drain (ofEdges outputs.size es) taken =
      .ok (q.backlog.drain (ofEdges outputs.size es) taken) := by
  fun_induction drain (ofEdges outputs.size es) q taken with
  | case1 q taken hq =>
    have hready : q.backlog.ready = [] := hq
    rw [Backlog.drain_of_nil hready]
  | case2 q taken node rest hq breach hrelease =>
    obtain ⟨r, hr, -⟩ := releaseFrom_eq hes h hq
    rw [hr] at hrelease
    cases hrelease
  | case3 q taken node rest hq next hrelease ih =>
    obtain ⟨r, hr, hbacklog⟩ := releaseFrom_eq hes h hq
    rw [hr] at hrelease
    obtain rfl := Except.ok.inj hrelease
    have hready : q.backlog.ready = node :: rest := hq
    have hnext := Backlog.take_sound hes h hready
    rw [← hbacklog] at hnext
    rw [ih hnext, Backlog.drain_of_cons hready, hbacklog]

end Queue

/-- The emission order is worked out without a breach. -/
theorem order_eq (outputs : Array Bool) {connections : List Connection}
    (h : connections.length < 4294967296) : order outputs connections =
      .ok (Wiring.order outputs (Wiring.edges outputs.size connections)) := by
  have hes := Wiring.bounded_edges outputs.size connections
  have hlength : (Wiring.edges outputs.size connections).length < 4294967296 :=
    Nat.lt_of_le_of_lt (List.length_filterMap_le _ _) h
  obtain ⟨counts, hcounts, hdegrees⟩ := degrees_eq hes hlength
  have hsize : counts.size = outputs.size := by
    rw [← Array.size_map (f := UInt32.toNat), hdegrees, Wiring.size_degrees]
  have hflags := Wiring.size_emitted outputs (Wiring.edges outputs.size connections)
  have hroots : roots (Wiring.emitted outputs (Wiring.edges outputs.size connections)) counts
      (List.range outputs.size) = .ok (Wiring.roots
        (Wiring.emitted outputs (Wiring.edges outputs.size connections)) (counts.map UInt32.toNat)) := by
    rw [roots_eq (by simp [hflags]) (by simp [hsize]), Wiring.roots, hflags]
  have hstart := Wiring.start_sound hes
  rw [← hdegrees] at hstart
  have hdrain := Queue.drain_eq (q := ⟨counts, _⟩) hes hstart
  rw [order, emitted_eq, wiring_eq, Wiring.order, Wiring.ofConnections]
  simp only [ok_bind, hcounts, hroots]
  rw [← hdegrees]
  exact hdrain

end ClipGraph.Guarded
