import Mathlib
import ClipGraph.Wiring.Cycle

/-!
# The depth-first walk finds cycles

Between any two steps the nodes in progress are those on the path, the path follows the edges, every
consumer a stop has let go of is done or stands directly above it, and a done node lies on no cycle
and has done consumers only. So a walk that closes has found a cycle, and a walk that runs out has
shown that there is none.
-/

namespace ClipGraph.Wiring

open Relation (ReflTransGen TransGen)

def Acyclic (w : Wiring) : Prop := ∀ a, ¬ TransGen w.Edge a a

def InRange (w : Wiring) : Prop := ∀ a b, w.Edge a b → b < w.size

/-- A list of different nodes along the edges whose last node leads to its first. -/
structure IsCycle (w : Wiring) (c : List Nat) : Prop where
  nodup : c.Nodup
  chain : c.IsChain w.Edge
  closes : ∃ first last, c.head? = some first ∧ c.getLast? = some last ∧ w.Edge last first

theorem lt_size_of_edge {w : Wiring} {a b : Nat} (h : w.Edge a b) : a < w.size := by
  unfold Edge next at h
  cases hg : w.consumers[a]? with
  | none => simp [hg] at h
  | some l => exact (Array.getElem?_eq_some_iff.mp hg).1

theorem edge_ofEdges {n : Nat} {es : List (Nat × Nat)} {a b : Nat} :
    (ofEdges n es).Edge a b ↔ a < n ∧ (a, b) ∈ es := by
  constructor
  · intro h
    have ha : a < n := by simpa using lt_size_of_edge h
    rw [Edge, next_ofEdges ha, List.mem_filterMap] at h
    obtain ⟨⟨x, y⟩, hm, hxy⟩ := h
    split at hxy
    · next hx =>
      simp only [Option.some.injEq] at hxy
      exact ⟨ha, by simpa [← hx, ← hxy] using hm⟩
    · simp at hxy
  · rintro ⟨ha, hm⟩
    rw [Edge, next_ofEdges ha, List.mem_filterMap]
    exact ⟨(a, b), hm, by simp⟩

/-- Every node of a cycle leads back to itself. -/
theorem IsCycle.transGen {w : Wiring} {c : List Nat} (h : w.IsCycle c) {a : Nat} (ha : a ∈ c) :
    TransGen w.Edge a a := by
  obtain ⟨first, last, hf, hl, he⟩ := h.closes
  obtain ⟨before, after, hc⟩ := List.append_of_mem ha
  have hback : ReflTransGen w.Edge first a := by
    have hchain : (before ++ [a]).IsChain w.Edge := h.chain.prefix ⟨after, by simp [hc]⟩
    have hr := List.relationReflTransGen_of_exists_isChain _ hchain (by simp)
    have hhead : (before ++ [a]).head (by simp) = first := by
      cases before <;> simp_all
    simpa only [hhead, List.getLast_append_singleton] using hr
  have hforth : ReflTransGen w.Edge a last := by
    have hchain : (a :: after).IsChain w.Edge := h.chain.suffix ⟨before, hc.symm⟩
    have hr := List.relationReflTransGen_of_exists_isChain _ hchain (by simp)
    have hlast : (a :: after).getLast (by simp) = last := by
      rw [hc, List.getLast?_append_of_ne_nil _ (by simp), List.getLast?_eq_getLast_of_ne_nil
        (by simp)] at hl
      simpa using hl
    simpa only [hlast, List.head_cons] using hr
  exact (TransGen.tail' hforth he).trans_left hback

namespace Walk

/-- Every stop has let go only of consumers that are done and of the one directly above it. -/
def Offered (w : Wiring) (marks : Array Mark) : Option Nat → List Stop → Prop
  | _, [] => True
  | above, stop :: below =>
    (∃ passed, w.next stop.node = passed ++ stop.rest ∧
      ∀ c ∈ passed, marks[c]? = some .done ∨ above = some c) ∧
    Offered w marks (some stop.node) below

/-- What holds between any two steps of a walk. -/
structure Sound (w : Wiring) (s : Walk) : Prop where
  size : s.marks.size = w.size
  onPath : ∀ a : Nat, s.marks[a]? = some .inProgress ↔ a ∈ s.path.map Stop.node
  nodup : (s.path.map Stop.node).Nodup
  chain : (s.path.map Stop.node).IsChain fun a b => w.Edge b a
  offered : Offered w s.marks none s.path
  closed : ∀ a b : Nat, s.marks[a]? = some .done → w.Edge a b → s.marks[b]? = some .done
  acyclic : ∀ a : Nat, s.marks[a]? = some .done → ¬ TransGen w.Edge a a

theorem Offered.mono {w : Wiring} {marks marks' : Array Mark} {above above' : Option Nat}
    {path : List Stop} (h : Offered w marks above path)
    (hd : ∀ c : Nat, marks[c]? = some .done → marks'[c]? = some .done)
    (ha : ∀ c : Nat, above = some c → marks'[c]? = some .done ∨ above' = some c) :
    Offered w marks' above' path := by
  induction path generalizing above above' with
  | nil => trivial
  | cons stop below ih =>
    obtain ⟨⟨passed, hp, hc⟩, hb⟩ := h
    refine ⟨⟨passed, hp, ?_⟩, ih hb fun c hc => .inr hc⟩
    intro c hcp
    rcases hc c hcp with hdone | hab
    · exact .inl (hd c hdone)
    · exact ha c hab

/-- The first consumer still to offer is let go of, done or with the path going up into it. -/
theorem Offered.next {w : Wiring} {marks : Array Mark} {above : Option Nat} {node child : Nat}
    {rest : List Nat} {below : List Stop}
    (h : Offered w marks none (⟨node, child :: rest⟩ :: below))
    (hc : marks[child]? = some .done ∨ above = some child) :
    Offered w marks above (⟨node, rest⟩ :: below) := by
  obtain ⟨⟨passed, hp, hdone⟩, hbelow⟩ := h
  refine ⟨⟨passed ++ [child], by simpa using hp, ?_⟩, hbelow⟩
  intro c hm
  rcases List.mem_append.mp hm with hm | hm
  · exact .inl (by simpa using hdone c hm)
  · rw [List.mem_singleton.mp hm]
    exact hc

/-- Nothing leads out of the done nodes. -/
theorem done_of_reflTransGen {w : Wiring} {s : Walk}
    (h : ∀ a b : Nat, s.marks[a]? = some .done → w.Edge a b → s.marks[b]? = some .done)
    {a b : Nat} (hab : ReflTransGen w.Edge a b) (ha : s.marks[a]? = some .done) :
    s.marks[b]? = some .done := by
  induction hab with
  | refl => exact ha
  | tail _ he ih => exact h _ _ ih he

/-- A walk that has not begun is sound. -/
theorem sound_start (w : Wiring) : Sound w ⟨Array.replicate w.size .unvisited, []⟩ where
  size := by simp
  onPath := by simp [Array.getElem?_replicate]
  nodup := by simp
  chain := by simp
  offered := trivial
  closed := by simp [Array.getElem?_replicate]
  acyclic := by simp [Array.getElem?_replicate]

theorem getElem?_mark {marks : Array Mark} {node a : Nat} {m : Mark} (h : node < marks.size) :
    (marks.setIfInBounds node m)[a]? = if node = a then some m else marks[a]? := by
  rw [Array.getElem?_setIfInBounds]
  simp [h]

/-- Standing on a new node, whose consumers are all still to offer. The stop below it may have let go
of the node, so it is compared with the path before that. -/
theorem enter_sound {w : Wiring} {marks : Array Mark} {node : Nat} {old below : List Stop}
    (h : Sound w ⟨marks, old⟩) (hold : old.map Stop.node = below.map Stop.node)
    (hu : marks[node]? = some .unvisited)
    (hedge : ∀ b ∈ (below.map Stop.node).head?, w.Edge b node)
    (hoff : Offered w marks (some node) below) : Sound w (enter w marks node below) := by
  have honPath := hold ▸ h.onPath
  have hnodup := hold ▸ h.nodup
  have hchain := hold ▸ h.chain
  have hlt : node < marks.size := (Array.getElem?_eq_some_iff.mp hu).1
  have hnew : node ∉ below.map Stop.node := by
    intro hm
    have hp := (honPath node).mpr hm
    simp [hu] at hp
  have hdone : ∀ a : Nat, (marks.setIfInBounds node .inProgress)[a]? = some .done ↔
      marks[a]? = some .done := by
    intro a
    rw [getElem?_mark hlt]
    split
    · next ha => simp [← ha, hu]
    · exact Iff.rfl
  constructor
  · simpa [enter] using h.size
  · intro a
    simp only [enter, List.map_cons, List.mem_cons]
    rw [getElem?_mark hlt]
    split
    · next ha => simp [ha]
    · next ha =>
      rw [honPath a]
      simp [Ne.symm ha]
  · exact List.nodup_cons.mpr ⟨hnew, hnodup⟩
  · exact List.isChain_cons.mpr ⟨hedge, hchain⟩
  · refine ⟨⟨[], rfl, by simp⟩, hoff.mono (fun c hc => (hdone c).mpr hc) fun c hc => .inr hc⟩
  · intro a b ha he
    exact (hdone b).mpr (h.closed a b ((hdone a).mp ha) he)
  · intro a ha
    exact h.acyclic a ((hdone a).mp ha)

theorem done_mark_iff {marks : Array Mark} {node a : Nat} (h : node < marks.size) :
    (marks.setIfInBounds node .done)[a]? = some .done ↔ node = a ∨ marks[a]? = some .done := by
  rw [getElem?_mark h]
  by_cases ha : node = a <;> simp [ha]

/-- Leaving a node that has nothing left to offer. -/
theorem leave_sound {w : Wiring} {marks : Array Mark} {node : Nat} {below : List Stop}
    (h : Sound w ⟨marks, ⟨node, []⟩ :: below⟩) :
    Sound w ⟨marks.setIfInBounds node .done, below⟩ := by
  have hon : marks[node]? = some .inProgress := (h.onPath node).mpr (by simp)
  have hlt : node < marks.size := (Array.getElem?_eq_some_iff.mp hon).1
  have hnext : ∀ b, w.Edge node b → marks[b]? = some .done := by
    intro b hb
    obtain ⟨⟨passed, hp, hc⟩, -⟩ := h.offered
    rw [Edge, hp, List.append_nil] at hb
    simpa using hc b hb
  have hnodup := List.nodup_cons.mp h.nodup
  constructor
  · simpa using h.size
  · intro a
    rw [getElem?_mark hlt]
    split
    · next ha =>
      rw [← ha]
      simpa using hnodup.1
    · next ha =>
      rw [h.onPath a]
      simp [Ne.symm ha]
  · exact hnodup.2
  · exact (List.isChain_cons.mp h.chain).2
  · refine h.offered.2.mono (fun c hc => (done_mark_iff hlt).mpr (.inr hc)) ?_
    rintro c ⟨⟩
    exact .inl ((done_mark_iff hlt).mpr (.inl rfl))
  · intro a b ha he
    rcases (done_mark_iff hlt).mp ha with rfl | ha
    · exact (done_mark_iff hlt).mpr (.inr (hnext b he))
    · exact (done_mark_iff hlt).mpr (.inr (h.closed a b ha he))
  · intro a ha hcyc
    rcases (done_mark_iff hlt).mp ha with rfl | ha
    · obtain ⟨b, he, hba⟩ := TransGen.head'_iff.mp hcyc
      have hdone := done_of_reflTransGen h.closed hba (hnext b he)
      simp [hon] at hdone
    · exact h.acyclic a ha hcyc

inductive Moved (w : Wiring) : Walk → Walk → Prop where
  | leave (marks : Array Mark) (node : Nat) (below : List Stop) :
      Moved w ⟨marks, ⟨node, []⟩ :: below⟩ ⟨marks.setIfInBounds node .done, below⟩
  | enter {marks : Array Mark} {child : Nat} (node : Nat) (rest : List Nat) (below : List Stop)
      (hu : marks[child]? = some .unvisited) :
      Moved w ⟨marks, ⟨node, child :: rest⟩ :: below⟩
        (Walk.enter w marks child (⟨node, rest⟩ :: below))
  | pass {marks : Array Mark} {child : Nat} (node : Nat) (rest : List Nat) (below : List Stop)
      (hu : marks[child]? ≠ some .unvisited) (hi : marks[child]? ≠ some .inProgress) :
      Moved w ⟨marks, ⟨node, child :: rest⟩ :: below⟩ ⟨marks, ⟨node, rest⟩ :: below⟩

theorem moved_of_step {w : Wiring} {s t : Walk} (h : step w s = .moved t) : Moved w s t := by
  obtain ⟨marks, path⟩ := s
  rcases path with _ | ⟨⟨node, _ | ⟨child, rest⟩⟩, below⟩
  · simp [step] at h
  · simp only [step, Step.moved.injEq] at h
    exact h ▸ .leave marks node below
  · simp only [step] at h
    split at h
    · next hu =>
      rw [Step.moved.injEq] at h
      exact h ▸ .enter node rest below hu
    · simp at h
    · next hu hi =>
      rw [Step.moved.injEq] at h
      exact h ▸ .pass node rest below hu hi

/-- A consumer that is still to offer is one. -/
theorem Sound.edge {w : Wiring} {marks : Array Mark} {node child : Nat} {rest : List Nat}
    {below : List Stop} (h : Sound w ⟨marks, ⟨node, child :: rest⟩ :: below⟩) :
    w.Edge node child := by
  obtain ⟨⟨passed, hp, -⟩, -⟩ := h.offered
  rw [Edge, hp]
  simp

/-- Every step of a walk keeps what holds between steps. -/
theorem step_sound {w : Wiring} (hw : w.InRange) {s t : Walk} (h : Sound w s)
    (hs : step w s = .moved t) : Sound w t := by
  cases moved_of_step hs with
  | leave marks node below => exact leave_sound h
  | enter node rest below hu =>
    exact enter_sound h rfl hu (by simpa using h.edge) (h.offered.next (.inr rfl))
  | @pass marks child node rest below hu hi =>
    have hchild : child < marks.size := by
      rw [h.size]
      exact hw node child h.edge
    have hdone : marks[child]? = some .done := by
      rw [Array.getElem?_eq_getElem hchild] at hu hi ⊢
      cases hm : marks[child] <;> simp_all
    exact ⟨h.size, h.onPath, h.nodup, h.chain, h.offered.next (.inl hdone), h.closed, h.acyclic⟩

def Moves (w : Wiring) (s t : Walk) : Prop := step w s = .moved t

/-- Any number of steps keep a walk sound. -/
theorem sound_of_moves {w : Wiring} (hw : w.InRange) {s t : Walk} (h : Sound w s)
    (hst : ReflTransGen (Moves w) s t) : Sound w t := by
  induction hst with
  | refl => exact h
  | tail _ hm ih => exact step_sound hw ih hm

/-- A walk moves until it is idle or closes. -/
theorem run_moves (w : Wiring) (s : Walk) : ∃ t, ReflTransGen (Moves w) s t ∧
    ((step w t = .idle ∧ run w s = .ok t.marks) ∨
      ∃ c, step w t = .closed c ∧ run w s = .error c) := by
  fun_induction run w s with
  | case1 s hs => exact ⟨s, .refl, .inl ⟨hs, rfl⟩⟩
  | case2 s c hs => exact ⟨s, .refl, .inr ⟨c, hs, rfl⟩⟩
  | case3 s t hs ih =>
    obtain ⟨u, hu, hend⟩ := ih
    exact ⟨u, .head hs hu, hend⟩

theorem run_of_idle {w : Wiring} {s : Walk} (h : step w s = .idle) : run w s = .ok s.marks := by
  rw [run.eq_def]
  split <;> simp_all

theorem run_of_closed {w : Wiring} {s : Walk} {c : List Nat} (h : step w s = .closed c) :
    run w s = .error c := by
  rw [run.eq_def]
  split <;> simp_all

theorem run_of_moved {w : Wiring} {s t : Walk} (h : step w s = .moved t) : run w s = run w t := by
  rw [run.eq_def]
  split <;> simp_all

theorem path_eq_nil_of_idle {w : Wiring} {s : Walk} (h : step w s = .idle) : s.path = [] := by
  obtain ⟨marks, path⟩ := s
  rcases path with _ | ⟨⟨node, _ | ⟨child, rest⟩⟩, below⟩
  · rfl
  · simp [step] at h
  · simp only [step] at h
    split at h <;> simp at h

/-- A visited node stays visited. -/
theorem visited_of_moves {w : Wiring} {s t : Walk} (hst : ReflTransGen (Moves w) s t) {a : Nat}
    (ha : s.marks[a]? ≠ some .unvisited) : t.marks[a]? ≠ some .unvisited := by
  have hmark : ∀ (marks : Array Mark) (node : Nat) (m : Mark), m ≠ .unvisited →
      marks[a]? ≠ some .unvisited → (marks.setIfInBounds node m)[a]? ≠ some .unvisited := by
    intro marks node m hm hmarks
    rw [Array.getElem?_setIfInBounds]
    split
    · split <;> simp [hm]
    · exact hmarks
  induction hst with
  | refl => exact ha
  | tail _ hm ih =>
    cases moved_of_step hm with
    | leave marks node below => exact hmark marks node .done (by decide) ih
    | enter node rest below hu => exact hmark _ _ .inProgress (by decide) ih
    | pass node rest below hu hi => exact ih

/-- The path keeps its lowest node until it is empty. -/
theorem bottom_of_moves {w : Wiring} {s t : Walk} (hst : ReflTransGen (Moves w) s t)
    (ht : t.path ≠ []) :
    (t.path.map Stop.node).getLast? = (s.path.map Stop.node).getLast? := by
  induction hst with
  | refl => rfl
  | tail _ hm ih =>
    cases moved_of_step hm with
    | leave marks node below =>
      obtain ⟨stop, more, rfl⟩ := List.exists_cons_of_ne_nil ht
      rw [← ih (by simp)]
      simp
    | enter node rest below hu =>
      rw [← ih (by simp)]
      simp [enter]
    | pass node rest below hu hi =>
      rw [← ih (by simp)]
      simp [List.getLast?_cons]

/-- A walk closes at a consumer that stands on its path. -/
theorem step_eq_closed {w : Wiring} {s : Walk} {c : List Nat} (h : Sound w s)
    (hs : step w s = .closed c) : ∃ top child below before after,
      s.path.map Stop.node = top :: below ∧ w.Edge top child ∧
      top :: below = before ++ child :: after ∧ child ∉ before ∧
      c = child :: before.reverse := by
  obtain ⟨marks, path⟩ := s
  rcases path with _ | ⟨⟨node, _ | ⟨child, rest⟩⟩, below⟩
  · simp [step] at hs
  · simp [step] at hs
  · simp only [step] at hs
    split at hs
    · simp at hs
    · next hi =>
      have hm := (h.onPath child).mp hi
      obtain ⟨before, after, hsplit, hnew⟩ := List.eq_append_cons_of_mem hm
      refine ⟨node, child, _, before, after, rfl, h.edge, hsplit, hnew, ?_⟩
      simp only [Step.closed.injEq] at hs
      rw [← hs, cycleFrom, hsplit, List.takeWhile_append_of_pos]
      · simp
      · intro a ha
        simpa using fun hac : a = child => hnew (hac ▸ ha)
    · simp at hs

/-- What a walk closes with is a cycle. -/
theorem isCycle_of_closed {w : Wiring} {s : Walk} {c : List Nat} (h : Sound w s)
    (hs : step w s = .closed c) : w.IsCycle c := by
  obtain ⟨top, child, below, before, after, hpath, hedge, hsplit, hnew, rfl⟩ :=
    step_eq_closed h hs
  have hrev : child :: before.reverse = (before ++ [child]).reverse := by simp
  have hpre : before ++ [child] <+: s.path.map Stop.node :=
    ⟨after, by rw [hpath, hsplit]; simp⟩
  refine ⟨?_, ?_, child, top, rfl, ?_, hedge⟩
  · rw [hrev, List.nodup_reverse]
    exact h.nodup.sublist hpre.sublist
  · rw [hrev, List.isChain_reverse]
    exact h.chain.prefix hpre
  · rw [hrev, List.getLast?_reverse]
    cases before <;> simp_all

end Walk

/-- Between two roots every visited node is done. -/
theorem done_of_visited {w : Wiring} {marks : Array Mark} (h : Walk.Sound w ⟨marks, []⟩) {a : Nat}
    (ha : a < w.size) (hv : marks[a]? ≠ some .unvisited) : marks[a]? = some .done := by
  have hi : marks[a]? ≠ some .inProgress := fun hi => by simpa using (h.onPath a).mp hi
  have hlt : a < marks.size := by rw [h.size]; exact ha
  rw [Array.getElem?_eq_getElem hlt] at hv hi ⊢
  cases hm : marks[a] <;> simp_all

/-- The walk from a new root finishes the root or closes above it. -/
theorem run_root {w : Wiring} (hw : w.InRange) {marks : Array Mark} (h : Walk.Sound w ⟨marks, []⟩)
    {root : Nat} (hu : marks[root]? = some .unvisited) :
    (∃ marks', Walk.run w (Walk.enter w marks root []) = .ok marks' ∧
      Walk.Sound w ⟨marks', []⟩ ∧ ¬ TransGen w.Edge root root) ∨
    ∃ c t, Walk.run w (Walk.enter w marks root []) = .error c ∧ Walk.Sound w t ∧
      (t.path.map Stop.node).getLast? = some root ∧ Walk.step w t = .closed c := by
  have hlt : root < marks.size := (Array.getElem?_eq_some_iff.mp hu).1
  have henter : Walk.Sound w (Walk.enter w marks root []) :=
    Walk.enter_sound h rfl hu (by simp) trivial
  obtain ⟨⟨marks', path⟩, hmoves, hend⟩ := Walk.run_moves w (Walk.enter w marks root [])
  have hsound := Walk.sound_of_moves hw henter hmoves
  rcases hend with ⟨hidle, hrun⟩ | ⟨c, hclosed, hrun⟩
  · obtain rfl : path = [] := Walk.path_eq_nil_of_idle hidle
    have hv : (Walk.enter w marks root []).marks[root]? ≠ some .unvisited := by
      simp [Walk.enter, hlt]
    have hdone := done_of_visited hsound (h.size ▸ hlt) (Walk.visited_of_moves hmoves hv)
    exact .inl ⟨marks', hrun, hsound, hsound.acyclic root hdone⟩
  · refine .inr ⟨c, ⟨marks', path⟩, hrun, hsound, ?_, hclosed⟩
    have hpath : path ≠ [] := by
      rintro rfl
      simp [Walk.step] at hclosed
    rw [Walk.bottom_of_moves hmoves hpath]
    simp [Walk.enter]

/-- What a search comes to: it has finished all its roots, or the walk from one closed and it has
finished the roots before. -/
inductive Searched (w : Wiring) (roots : List Nat) : Option (List Nat) → Prop where
  | finished (hall : ∀ a ∈ roots, a < w.size → ¬ TransGen w.Edge a a) : Searched w roots none
  | closed {c before : List Nat} {root : Nat} {after : List Nat} {t : Walk}
      (hroots : roots = before ++ root :: after)
      (hbefore : ∀ a ∈ before, a < w.size → ¬ TransGen w.Edge a a) (ht : Walk.Sound w t)
      (hbottom : (t.path.map Stop.node).getLast? = some root)
      (hclosed : Walk.step w t = .closed c) : Searched w roots (some c)

theorem Searched.cons {w : Wiring} {root : Nat} {roots : List Nat} {answer : Option (List Nat)}
    (h : Searched w roots answer) (hroot : root < w.size → ¬ TransGen w.Edge root root) :
    Searched w (root :: roots) answer := by
  cases h with
  | finished hall => exact .finished (List.forall_mem_cons.mpr ⟨hroot, hall⟩)
  | @closed c before r after t hroots hbefore ht hbottom hclosed =>
    have hsplit : root :: roots = (root :: before) ++ r :: after := by
      rw [hroots, List.cons_append]
    exact .closed hsplit (List.forall_mem_cons.mpr ⟨hroot, hbefore⟩) ht hbottom hclosed

/-- Searching all roots either finishes them or finds the walk from one of them closed. -/
theorem searched_searchFrom {w : Wiring} (hw : w.InRange) (roots : List Nat) {marks : Array Mark}
    (h : Walk.Sound w ⟨marks, []⟩) : Searched w roots (searchFrom w roots marks) := by
  induction roots generalizing marks with
  | nil => exact .finished (by simp)
  | cons root roots ih =>
    rw [searchFrom]
    split
    · next hu =>
      rcases run_root hw h hu with ⟨marks', hrun, hsound, hroot⟩ | ⟨c, t, hrun, ht, hbottom, hc⟩
      · rw [hrun]
        exact (ih hsound).cons fun _ => hroot
      · rw [hrun]
        exact .closed (List.nil_append _).symm (by simp) ht hbottom hc
    · next hu => exact (ih h).cons fun hlt => h.acyclic root (done_of_visited h hlt hu)

theorem searched_cycle? {w : Wiring} (hw : w.InRange) : Searched w (List.range w.size) w.cycle? :=
  searched_searchFrom hw _ (Walk.sound_start w)

/-- A search without an answer has been through every node, so there is no cycle. -/
theorem cycle?_eq_none {w : Wiring} (hw : w.InRange) (h : w.cycle? = none) : w.Acyclic := by
  intro a hcyc
  obtain ⟨b, he, -⟩ := TransGen.head'_iff.mp hcyc
  have ha := lt_size_of_edge he
  have hsearch := searched_cycle? hw
  rw [h] at hsearch
  cases hsearch with
  | finished hall => exact hall a (List.mem_range.mpr ha) ha hcyc

/-- A reported cycle is one. The walk closed on a path up from a root, and no node before that root
lies on a cycle. -/
theorem cycle?_eq_some {w : Wiring} (hw : w.InRange) {c : List Nat} (h : w.cycle? = some c) :
    w.IsCycle c ∧ ∃ root t, (∀ a < root, ¬ TransGen w.Edge a a) ∧ Walk.Sound w t ∧
      (t.path.map Stop.node).getLast? = some root ∧ Walk.step w t = .closed c := by
  have hsearch := searched_cycle? hw
  rw [h] at hsearch
  cases hsearch with
  | @closed c before root after t hroots hbefore ht hbottom hclosed =>
    refine ⟨Walk.isCycle_of_closed ht hclosed, root, t, ?_, ht, hbottom, hclosed⟩
    intro a ha hcyc
    obtain ⟨b, he, -⟩ := TransGen.head'_iff.mp hcyc
    have hlt := lt_size_of_edge he
    have hmem : a ∈ before ++ root :: after := hroots ▸ List.mem_range.mpr hlt
    have hsorted : (before ++ root :: after).Pairwise (· < ·) := hroots ▸ List.pairwise_lt_range
    rcases List.mem_append.mp hmem with hm | hm
    · exact hbefore a hm hlt hcyc
    · rcases List.mem_cons.mp hm with rfl | hm
      · omega
      · have hgt := (List.pairwise_cons.mp (List.pairwise_append.mp hsorted).2.1).1 a hm
        omega

/-- No node is fed by two others. -/
def OneProducer (w : Wiring) : Prop := ∀ a b c, w.Edge a c → w.Edge b c → a = b

/-- With one producer a node, walking back from a node is no choice. -/
theorem isChain_unique {r : Nat → Nat → Prop} (hr : ∀ x a b, r x a → r x b → a = b) {goal : Nat}
    (l l' : List Nat) (x : Nat) (hl : goal ∉ l) (hl' : goal ∉ l')
    (hc : (x :: (l ++ [goal])).IsChain r) (hc' : (x :: (l' ++ [goal])).IsChain r) : l = l' := by
  induction l generalizing l' x with
  | nil =>
    cases l' with
    | nil => rfl
    | cons b l' =>
      simp only [List.nil_append, List.cons_append, List.isChain_cons_cons] at hc hc'
      exact absurd (hr x _ _ hc.1 hc'.1) fun h => hl' (h ▸ List.mem_cons_self)
  | cons a l ih =>
    cases l' with
    | nil =>
      simp only [List.nil_append, List.cons_append, List.isChain_cons_cons] at hc hc'
      exact absurd (hr x _ _ hc'.1 hc.1) fun h => hl (h ▸ List.mem_cons_self)
    | cons b l' =>
      simp only [List.cons_append, List.isChain_cons_cons] at hc hc'
      have hab : a = b := hr x _ _ hc.1 hc'.1
      subst hab
      rw [ih l' a (fun h => hl (List.mem_cons_of_mem _ h)) (fun h => hl' (List.mem_cons_of_mem _ h))
        hc.2 hc'.2]

/-- A cycle listed from its first node back around to it. -/
theorem IsCycle.backwards {w : Wiring} {first : Nat} {l : List Nat} (h : w.IsCycle (first :: l)) :
    (first :: (l.reverse ++ [first])).IsChain fun a b => w.Edge b a := by
  obtain ⟨f, last, hf, hl, he⟩ := h.closes
  simp only [List.head?_cons, Option.some.injEq] at hf
  subst hf
  have hrev : l.reverse ++ [first] = (first :: l).reverse := by simp
  rw [List.isChain_cons, hrev, List.isChain_reverse, List.head?_reverse, hl]
  refine ⟨?_, h.chain⟩
  intro y hy
  simp only [Option.mem_some_iff] at hy
  exact hy ▸ he

/-- With one producer a node, two cycles through their first nodes are the same. -/
theorem IsCycle.unique {w : Wiring} (hw : w.OneProducer) {c c' : List Nat} (h : w.IsCycle c)
    (h' : w.IsCycle c') (hhead : c.head? = c'.head?) : c = c' := by
  obtain ⟨first, last, hf, -⟩ := h.closes
  obtain ⟨l, rfl⟩ := List.head?_eq_some_iff.mp hf
  obtain ⟨l', rfl⟩ := List.head?_eq_some_iff.mp (hhead ▸ hf)
  have hl := isChain_unique (fun x a b ha hb => hw a b x ha hb) l.reverse l'.reverse first
    (by simpa using (List.nodup_cons.mp h.nodup).1) (by simpa using (List.nodup_cons.mp h'.nodup).1)
    h.backwards h'.backwards
  rw [List.reverse_inj.mp hl]

/-- With one producer a node, a cycle is only entered from itself. So the walk closes at its root,
and the reported cycle starts at the least node that lies on any. -/
theorem cycle?_least {w : Wiring} (hw : w.InRange) (hp : w.OneProducer) {c : List Nat}
    (h : w.cycle? = some c) :
    ∃ first, c.head? = some first ∧ ∀ a < first, ¬ TransGen w.Edge a a := by
  obtain ⟨-, root, t, hbelow, ht, hbottom, hclosed⟩ := cycle?_eq_some hw h
  obtain ⟨top, child, below, before, after, hpath, hedge, hsplit, hnew, rfl⟩ :=
    Walk.step_eq_closed ht hclosed
  have hnodup := ht.nodup
  have hchain := ht.chain
  rw [hpath, hsplit] at hnodup hchain hbottom
  have hafter : after = [] := by
    cases after with
    | nil => rfl
    | cons x after =>
      have hx : w.Edge x child :=
        (List.isChain_cons_cons.mp (hchain.suffix ⟨before, rfl⟩)).1
      have hxtop : x = top := hp x top child hx hedge
      subst hxtop
      cases before with
      | nil =>
        simp only [List.nil_append, List.cons.injEq] at hsplit
        simp [hsplit.1] at hnodup
      | cons y before =>
        simp only [List.cons_append, List.cons.injEq] at hsplit
        simp [hsplit.1] at hnodup
  subst hafter
  simp only [List.getLast?_append, List.getLast?_singleton, Option.some_or,
    Option.some.injEq] at hbottom
  subst hbottom
  exact ⟨child, rfl, hbelow⟩

end ClipGraph.Wiring
