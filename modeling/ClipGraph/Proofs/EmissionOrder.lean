import ClipGraph.Proofs.Cycles
import ClipGraph.Wiring.Order

/-!
# What the emission order is

The order is pinned down by one rule: of the emitted nodes that are not placed yet and whose producers
all are, the least comes next, and the order ends when there is none. The backlog carries this through
the walk: a degree counts the edges from producers that are not placed, and the ready list holds the
ready nodes in increasing order. A node is placed exactly if it is emitted and walking back from it
always ends, which means that no cycle leads to it. So without a cycle every emitted node is placed.
-/

namespace ClipGraph.Wiring

open Relation (ReflTransGen TransGen)

def Bounded (n : Nat) (es : List (Nat × Nat)) : Prop := ∀ e ∈ es, e.1 < n ∧ e.2 < n

/-- The nodes that have a statement: outputs, and whatever an edge touches. -/
def Emitted (outputs : Array Bool) (es : List (Nat × Nat)) (v : Nat) : Prop :=
  outputs[v]? = some true ∨ ∃ e ∈ es, e.1 = v ∨ e.2 = v

/-- The nodes that may come next. -/
structure Ready (outputs : Array Bool) (es : List (Nat × Nat)) (placed : List Nat) (v : Nat) :
    Prop where
  emitted : Emitted outputs es v
  fresh : v ∉ placed
  fed : ∀ u, (u, v) ∈ es → u ∈ placed

/-- Every node of a list, last one first, was the least that might have come next. -/
def Greedy (outputs : Array Bool) (es : List (Nat × Nat)) : List Nat → Prop
  | [] => True
  | v :: placed => (Ready outputs es placed v ∧ ∀ u, Ready outputs es placed u → v ≤ u) ∧
      Greedy outputs es placed

/-- Inserting a new number keeps a list in order. -/
theorem pairwise_insertSorted {a : Nat} {l : List Nat} (h : l.Pairwise (· < ·)) (ha : a ∉ l) :
    (insertSorted a l).Pairwise (· < ·) := by
  induction l with
  | nil => simp [insertSorted]
  | cons b rest ih =>
    obtain ⟨hb, hrest⟩ := List.pairwise_cons.mp h
    have hab : a ≠ b := fun hab => ha (hab ▸ List.mem_cons_self)
    have har : a ∉ rest := fun hm => ha (List.mem_cons_of_mem _ hm)
    simp only [insertSorted]
    split
    · refine List.pairwise_cons.mpr ⟨?_, h⟩
      intro c hc
      rcases List.mem_cons.mp hc with rfl | hc
      · omega
      · have := hb c hc
        omega
    · refine List.pairwise_cons.mpr ⟨?_, ih hrest har⟩
      intro c hc
      rcases mem_insertSorted.mp hc with rfl | hc
      · omega
      · exact hb c hc

namespace Backlog

def degree (s : Backlog) (v : Nat) : Nat := s.degrees[v]?.getD 0

theorem degree_release (s : Backlog) (node v : Nat) :
    (s.release node).degree v = s.degree v - if v = node then 1 else 0 := by
  by_cases hv : v = node
  · subst hv
    unfold release degree
    split
    · next h =>
      have hlt := (Array.getElem?_eq_some_iff.mp h).1
      rw [h, Array.getElem?_setIfInBounds_self_of_lt hlt]
      simp
    · next k h =>
      have hlt := (Array.getElem?_eq_some_iff.mp h).1
      rw [h, Array.getElem?_setIfInBounds_self_of_lt hlt]
      simp
    · next h1 h2 =>
      cases h : s.degrees[v]? with
      | none => simp
      | some k =>
        rcases k with _ | _ | k
        · simp
        · exact absurd h h1
        · exact absurd h (h2 k)
  · unfold release degree
    split <;> simp [hv, Array.getElem?_setIfInBounds_ne (Ne.symm hv)]

theorem ready_release (s : Backlog) (node : Nat) :
    (s.release node).ready = if s.degree node = 1 then insertSorted node s.ready else s.ready := by
  unfold release degree
  split
  · next h => simp [h]
  · next k h => simp [h]
  · next h1 h2 =>
    cases h : s.degrees[node]? with
    | none => simp
    | some k =>
      have hk : k ≠ 1 := fun hk => h1 (hk ▸ h)
      simp [hk]

theorem degree_releaseAll (s : Backlog) (nodes : List Nat) (v : Nat) :
    (s.releaseAll nodes).degree v = s.degree v - nodes.count v := by
  induction nodes generalizing s with
  | nil => rfl
  | cons node rest ih =>
    have h := ih (s.release node)
    rw [degree_release] at h
    simp only [releaseAll, List.foldl_cons] at h ⊢
    rw [h, List.count_cons]
    by_cases hv : v = node
    · simp [hv]
      omega
    · simp [hv, Ne.symm hv]

/-- A node gets ready with the last edge into it. -/
theorem mem_ready_releaseAll (s : Backlog) (nodes : List Nat) (v : Nat) :
    v ∈ (s.releaseAll nodes).ready ↔
      v ∈ s.ready ∨ (s.degree v ≠ 0 ∧ s.degree v ≤ nodes.count v) := by
  induction nodes generalizing s with
  | nil =>
    constructor
    · exact .inl
    · rintro (h | ⟨h0, h1⟩)
      · exact h
      · simp only [List.count_nil] at h1
        omega
  | cons node rest ih =>
    have h := ih (s.release node)
    simp only [releaseAll, List.foldl_cons] at h ⊢
    rw [h, ready_release, degree_release, List.count_cons]
    by_cases hv : v = node
    · subst hv
      by_cases h1 : s.degree v = 1
      · simp [h1, mem_insertSorted]
      · by_cases hm : v ∈ s.ready
        · simp [h1, hm]
        · simp only [h1, if_false, hm, false_or, if_true, beq_self_eq_true]
          omega
    · by_cases h1 : s.degree node = 1
      · simp [h1, mem_insertSorted, hv, Ne.symm hv]
      · simp [h1, hv, Ne.symm hv]

/-- The ready nodes stay in increasing order. -/
theorem pairwise_ready_releaseAll (s : Backlog) (nodes : List Nat)
    (h : s.ready.Pairwise (· < ·)) (h0 : ∀ v ∈ s.ready, s.degree v = 0) :
    (s.releaseAll nodes).ready.Pairwise (· < ·) := by
  induction nodes generalizing s with
  | nil => exact h
  | cons node rest ih =>
    apply ih (s.release node)
    · rw [ready_release]
      split
      · next h1 =>
        apply pairwise_insertSorted h
        intro hm
        have := h0 node hm
        omega
      · exact h
    · intro v hv
      rw [degree_release]
      rw [ready_release] at hv
      split at hv
      · next h1 =>
        rcases mem_insertSorted.mp hv with rfl | hv
        · simp [h1]
        · simp [h0 v hv]
      · simp [h0 v hv]

/-- What holds whenever a ready node is about to be taken. -/
structure Sound (outputs : Array Bool) (es : List (Nat × Nat)) (s : Backlog) (taken : List Nat) :
    Prop where
  degree : ∀ v, s.degree v = es.countP fun e => decide (e.2 = v ∧ e.1 ∉ taken)
  sorted : s.ready.Pairwise (· < ·)
  ready : ∀ v, v ∈ s.ready ↔ Ready outputs es taken v
  greedy : Greedy outputs es taken

end Backlog

theorem Emitted.lt {outputs : Array Bool} {es : List (Nat × Nat)} {v : Nat}
    (h : Emitted outputs es v) (hes : Bounded outputs.size es) : v < outputs.size := by
  rcases h with h | ⟨e, he, rfl | rfl⟩
  · exact (Array.getElem?_eq_some_iff.mp h).1
  · exact (hes e he).1
  · exact (hes e he).2

/-- The producers of a placed node are placed. -/
theorem Greedy.fed {outputs : Array Bool} {es : List (Nat × Nat)} {placed : List Nat}
    (h : Greedy outputs es placed) {u v : Nat} (hv : v ∈ placed) (he : (u, v) ∈ es) :
    u ∈ placed := by
  induction placed with
  | nil => simp at hv
  | cons x placed ih =>
    rcases List.mem_cons.mp hv with rfl | hv
    · exact List.mem_cons_of_mem _ (h.1.1.fed u he)
    · exact List.mem_cons_of_mem _ (ih h.2 hv)

theorem count_next {n : Nat} (es : List (Nat × Nat)) {node : Nat} (hn : node < n) (v : Nat) :
    ((ofEdges n es).next node).count v = es.countP fun e => decide (e.1 = node ∧ e.2 = v) := by
  rw [next_ofEdges hn, List.count_filterMap]
  congr 1
  funext e
  by_cases h : e.1 = node
  · simp only [h, if_true, true_and]
    rfl
  · simp [h]

/-- Taking a node off uses up the edges from it. -/
theorem countP_taken (es : List (Nat × Nat)) {node : Nat} {taken : List Nat} (hn : node ∉ taken)
    (v : Nat) :
    (es.countP fun e => decide (e.2 = v ∧ e.1 ∉ taken)) =
      (es.countP fun e => decide (e.2 = v ∧ e.1 ∉ node :: taken)) +
        es.countP fun e => decide (e.1 = node ∧ e.2 = v) := by
  induction es with
  | nil => rfl
  | cons e es ih =>
    simp only [List.countP_cons, ih]
    by_cases hv : e.2 = v
    · by_cases he : e.1 = node
      · simp [hv, he, hn]
        omega
      · simp [hv, he]
        omega
    · simp [hv]

theorem countP_eq_zero_iff_fed (es : List (Nat × Nat)) (placed : List Nat) (v : Nat) :
    (es.countP fun e => decide (e.2 = v ∧ e.1 ∉ placed)) = 0 ↔ ∀ u, (u, v) ∈ es → u ∈ placed := by
  rw [List.countP_eq_zero]
  constructor
  · intro h u hu
    simpa using h (u, v) hu
  · rintro h ⟨a, b⟩ he
    simp only [decide_eq_true_eq, not_and, not_not]
    rintro rfl
    exact h a he

namespace Backlog

section

variable {outputs : Array Bool} {es : List (Nat × Nat)} {s : Backlog} {taken : List Nat}
  {node : Nat} {rest : List Nat}

/-- A node has nothing left to wait for just if all its producers have been taken. -/
theorem Sound.degree_eq_zero_iff (h : Sound outputs es s taken) (v : Nat) :
    s.degree v = 0 ↔ ∀ u, (u, v) ∈ es → u ∈ taken := by
  rw [h.degree, countP_eq_zero_iff_fed]

/-- The edges from a node that is not taken yet are among those still counted. -/
theorem Sound.count_next_le (h : Sound outputs es s taken) (hes : Bounded outputs.size es)
    (hready : Ready outputs es taken node) (v : Nat) :
    ((ofEdges outputs.size es).next node).count v ≤ s.degree v := by
  rw [count_next es (hready.emitted.lt hes), h.degree, countP_taken es hready.fresh v]
  exact Nat.le_add_left _ _

/-- How many edges still lead to a node once the next one is taken. -/
theorem Sound.degree_next (h : Sound outputs es s taken) (hes : Bounded outputs.size es)
    (hready : Ready outputs es taken node) (v : Nat) :
    s.degree v - ((ofEdges outputs.size es).next node).count v =
      es.countP fun e => decide (e.2 = v ∧ e.1 ∉ node :: taken) := by
  have hsplit := countP_taken es hready.fresh v
  rw [count_next es (hready.emitted.lt hes), h.degree]
  omega

/-- The ready nodes behind the first: those that were ready, and those it alone kept waiting. -/
theorem Sound.ready_next (h : Sound outputs es s taken) (hes : Bounded outputs.size es)
    (hs : s.ready = node :: rest) (v : Nat) :
    (v ∈ rest ∨ s.degree v ≠ 0 ∧ s.degree v ≤ ((ofEdges outputs.size es).next node).count v) ↔
      Ready outputs es (node :: taken) v := by
  have hready : Ready outputs es taken node := (h.ready node).mp (by simp [hs])
  have hnew := h.degree_next hes hready v
  constructor
  · rintro (hv | ⟨hpos, hle⟩)
    · have hold : Ready outputs es taken v := (h.ready v).mp (by simp [hs, hv])
      refine ⟨hold.emitted, ?_, fun u hu => List.mem_cons_of_mem _ (hold.fed u hu)⟩
      have hlt := (List.pairwise_cons.mp (hs ▸ h.sorted)).1 v hv
      have hne : v ≠ node := by omega
      simp [hne, hold.fresh]
    · have hfed : ∀ u, (u, v) ∈ es → u ∈ node :: taken := by
        rw [← countP_eq_zero_iff_fed]
        omega
      refine ⟨?_, ?_, hfed⟩
      · rw [h.degree] at hpos
        obtain ⟨e, he, hev⟩ := List.countP_pos_iff.mp (Nat.pos_of_ne_zero hpos)
        simp only [decide_eq_true_eq] at hev
        exact .inr ⟨e, he, .inr hev.1⟩
      · intro hm
        apply hpos
        rw [h.degree_eq_zero_iff]
        intro u hu
        rcases List.mem_cons.mp hm with rfl | hm
        · exact hready.fed u hu
        · exact h.greedy.fed hm hu
  · intro hv
    have hne : v ≠ node := fun hvn => hv.fresh (hvn ▸ List.mem_cons_self)
    have hout : v ∉ taken := fun hm => hv.fresh (List.mem_cons_of_mem _ hm)
    by_cases hd : s.degree v = 0
    · have hm : v ∈ s.ready := (h.ready v).mpr ⟨hv.emitted, hout, (h.degree_eq_zero_iff v).mp hd⟩
      rw [hs] at hm
      exact .inl ((List.mem_cons.mp hm).resolve_left hne)
    · refine .inr ⟨hd, ?_⟩
      rw [(countP_eq_zero_iff_fed es (node :: taken) v).mpr hv.fed] at hnew
      omega

/-- Taking the first ready node keeps what holds. -/
theorem take_sound (hes : Bounded outputs.size es) (h : Sound outputs es s taken)
    (hs : s.ready = node :: rest) :
    Sound outputs es
      (releaseAll ⟨s.degrees, rest⟩ ((ofEdges outputs.size es).next node)) (node :: taken) := by
  have hready : Ready outputs es taken node := (h.ready node).mp (by simp [hs])
  have hsorted := List.pairwise_cons.mp (hs ▸ h.sorted)
  have hsame : ∀ v, (⟨s.degrees, rest⟩ : Backlog).degree v = s.degree v := fun _ => rfl
  constructor
  · intro v
    rw [degree_releaseAll, hsame, h.degree_next hes hready]
  · apply pairwise_ready_releaseAll _ _ hsorted.2
    intro v hv
    rw [hsame, h.degree_eq_zero_iff]
    exact ((h.ready v).mp (by simp [hs, hv])).fed
  · intro v
    rw [mem_ready_releaseAll, hsame]
    exact h.ready_next hes hs v
  · refine ⟨⟨hready, ?_⟩, h.greedy⟩
    intro u hu
    have hm := (h.ready u).mpr hu
    rw [hs] at hm
    rcases List.mem_cons.mp hm with rfl | hm
    · exact Nat.le_refl _
    · exact Nat.le_of_lt (hsorted.1 u hm)

end

theorem drain_of_nil {w : Wiring} {s : Backlog} (h : s.ready = []) (taken : List Nat) :
    s.drain w taken = taken.reverse := by
  rw [drain.eq_def]
  split <;> simp_all

theorem drain_of_cons {w : Wiring} {s : Backlog} {node : Nat} {rest : List Nat} (h : s.ready = node :: rest)
    (taken : List Nat) : s.drain w taken =
      (releaseAll ⟨s.degrees, rest⟩ (w.next node)).drain w (node :: taken) := by
  rw [drain.eq_def]
  split <;> simp_all

/-- Draining goes on greedily until nothing is ready. -/
theorem drain_greedy {outputs : Array Bool} {es : List (Nat × Nat)}
    (hes : Bounded outputs.size es) (s : Backlog) (taken : List Nat)
    (h : Sound outputs es s taken) :
    Greedy outputs es ((drain (ofEdges outputs.size es) s taken).reverse) ∧
      ∀ v, ¬ Ready outputs es ((drain (ofEdges outputs.size es) s taken).reverse) v := by
  fun_induction drain (ofEdges outputs.size es) s taken with
  | case1 s taken hs =>
    rw [List.reverse_reverse]
    refine ⟨h.greedy, ?_⟩
    intro v hv
    simpa [hs] using (h.ready v).mpr hv
  | case2 s taken node rest hs ih => exact ih (take_sound hes h hs)

end Backlog

theorem getElem?_emitted (outputs : Array Bool) (es : List (Nat × Nat)) (i : Nat) :
    (emitted outputs es)[i]? = some true ↔
      outputs[i]? = some true ∨ i < outputs.size ∧ ∃ e ∈ es, e.1 = i ∨ e.2 = i := by
  unfold emitted
  induction es generalizing outputs with
  | nil => simp
  | cons e es ih =>
    rw [List.foldl_cons, ih]
    by_cases hi : i < outputs.size
    · simp only [Array.getElem?_setIfInBounds, Array.size_setIfInBounds,
        List.exists_mem_cons_iff]
      by_cases h2 : e.2 = i <;> by_cases h1 : e.1 = i <;> simp [hi, h1, h2]
    · have hnone : outputs[i]? = none := by simpa using hi
      have hnone' : ((outputs.setIfInBounds e.1 true).setIfInBounds e.2 true)[i]? = none := by
        simpa using hi
      simp only [hnone', hnone, Array.size_setIfInBounds, hi, false_and]

theorem size_emitted (outputs : Array Bool) (es : List (Nat × Nat)) :
    (emitted outputs es).size = outputs.size := by
  unfold emitted
  induction es generalizing outputs with
  | nil => rfl
  | cons e es ih =>
    rw [List.foldl_cons, ih]
    simp

theorem size_degrees (n : Nat) (es : List (Nat × Nat)) : (degrees n es).size = n := by
  have hfold : ∀ counts : Array Nat,
      (es.foldl (fun counts e => counts.modify e.2 (· + 1)) counts).size = counts.size := by
    induction es with
    | nil => exact fun _ => rfl
    | cons e es ih =>
      intro counts
      rw [List.foldl_cons, ih]
      simp
  rw [degrees, hfold]
  simp

/-- At first the degree of a node is the number of edges that lead to it. -/
theorem degree_degrees {n : Nat} {es : List (Nat × Nat)} (hes : Bounded n es) (ready : List Nat)
    (v : Nat) :
    (⟨degrees n es, ready⟩ : Backlog).degree v = es.countP fun e => decide (e.2 = v) := by
  have hfold : ∀ (es : List (Nat × Nat)) (counts : Array Nat), (∀ e ∈ es, e.2 < counts.size) →
      (es.foldl (fun counts e => counts.modify e.2 (· + 1)) counts)[v]?.getD 0 =
        counts[v]?.getD 0 + es.countP fun e => decide (e.2 = v) := by
    intro es
    induction es with
    | nil => simp
    | cons e es ih =>
      intro counts hb
      have hlt := hb e List.mem_cons_self
      rw [List.foldl_cons, ih _ fun e' he' => by simpa using hb e' (List.mem_cons_of_mem _ he'),
        Array.getElem?_modify, List.countP_cons]
      by_cases hv : e.2 = v
      · subst hv
        simp [hlt]
        omega
      · simp [hv]
  have h := hfold es (Array.replicate n 0) fun e he => by simpa using (hes e he).2
  rw [Backlog.degree, degrees, h, Array.getElem?_replicate]
  split <;> simp

/-- The backlog at the start: nothing is placed and the roots are ready. -/
theorem start_sound {outputs : Array Bool} {es : List (Nat × Nat)}
    (hes : Bounded outputs.size es) :
    Backlog.Sound outputs es
      ⟨degrees outputs.size es, roots (emitted outputs es) (degrees outputs.size es)⟩ [] := by
  have hdegree := degree_degrees hes (roots (emitted outputs es) (degrees outputs.size es))
  constructor
  · simpa using hdegree
  · exact List.pairwise_lt_range.filter _
  · intro v
    have hzero : ∀ _ : v < outputs.size, (degrees outputs.size es)[v]? = some 0 ↔
        ∀ u, (u, v) ∈ es → u ∈ ([] : List Nat) := by
      intro hv
      have hlt : v < (degrees outputs.size es).size := by rwa [size_degrees]
      rw [← countP_eq_zero_iff_fed]
      have h := hdegree v
      simp only [Backlog.degree, Array.getElem?_eq_getElem hlt, Option.getD_some] at h
      simp [Array.getElem?_eq_getElem hlt, h]
    simp only [roots, List.mem_filter, List.mem_range, size_emitted, Bool.and_eq_true, beq_iff_eq,
      getElem?_emitted]
    constructor
    · rintro ⟨hv, he, hd⟩
      refine ⟨?_, by simp, (hzero hv).mp hd⟩
      rcases he with ho | ⟨-, he⟩
      · exact .inl ho
      · exact .inr he
    · intro h
      have hv := h.emitted.lt hes
      refine ⟨hv, ?_, (hzero hv).mpr h.fed⟩
      rcases h.emitted with ho | he
      · exact .inl ho
      · exact .inr ⟨hv, he⟩
  · trivial

/-- The order is greedy, and nothing more could be placed after it. -/
theorem order_greedy {outputs : Array Bool} {es : List (Nat × Nat)}
    (hes : Bounded outputs.size es) :
    Greedy outputs es (order outputs es).reverse ∧
      ∀ v, ¬ Ready outputs es (order outputs es).reverse v :=
  Backlog.drain_greedy hes _ _ (start_sound hes)

/-- A greedy list names no node twice. -/
theorem Greedy.nodup {outputs : Array Bool} {es : List (Nat × Nat)} {placed : List Nat}
    (h : Greedy outputs es placed) : placed.Nodup := by
  induction placed with
  | nil => exact List.nodup_nil
  | cons v placed ih => exact List.nodup_cons.mpr ⟨h.1.1.fresh, ih h.2⟩

/-- The rule read at one place of the order. -/
theorem Greedy.at {outputs : Array Bool} {es : List (Nat × Nat)} {l before after : List Nat}
    {v : Nat} (h : Greedy outputs es l.reverse) (hl : l = before ++ v :: after) :
    Ready outputs es before v ∧ ∀ u, Ready outputs es before u → v ≤ u := by
  have hsuffix : ∀ l : List Nat, Greedy outputs es (l ++ v :: before.reverse) →
      Greedy outputs es (v :: before.reverse) := by
    intro l
    induction l with
    | nil => exact id
    | cons x l ih => exact fun h => ih h.2
  have hready : ∀ u, Ready outputs es before.reverse u ↔ Ready outputs es before u := fun u =>
    ⟨fun h => ⟨h.emitted, by simpa using h.fresh, by simpa using h.fed⟩,
      fun h => ⟨h.emitted, by simpa using h.fresh, by simpa using h.fed⟩⟩
  subst hl
  simp only [List.reverse_append, List.reverse_cons, List.append_assoc, List.singleton_append] at h
  obtain ⟨hv, hleast⟩ := (hsuffix _ h).1
  exact ⟨(hready v).mp hv, fun u hu => hleast u ((hready u).mpr hu)⟩

/-- Placed are the emitted nodes from which walking back always ends. -/
theorem mem_order_iff {outputs : Array Bool} {es : List (Nat × Nat)}
    (hes : Bounded outputs.size es) {v : Nat} :
    v ∈ order outputs es ↔ Emitted outputs es v ∧ Acc (fun a b => (a, b) ∈ es) v := by
  obtain ⟨hgreedy, hdone⟩ := order_greedy hes
  constructor
  · intro hv
    have hplaced : ∀ placed, Greedy outputs es placed → ∀ v ∈ placed,
        Emitted outputs es v ∧ Acc (fun a b => (a, b) ∈ es) v := by
      intro placed
      induction placed with
      | nil => simp
      | cons x placed ih =>
        intro h v hv
        rcases List.mem_cons.mp hv with rfl | hv
        · exact ⟨h.1.1.emitted, .intro v fun u hu => (ih h.2 u (h.1.1.fed u hu)).2⟩
        · exact ih h.2 v hv
    exact hplaced _ hgreedy v (by simpa using hv)
  · rintro ⟨he, hacc⟩
    induction hacc with
    | intro v _ ih =>
      by_contra hv
      refine hdone v ⟨he, by simpa using hv, fun u hu => ?_⟩
      simpa using ih u hu (.inr ⟨(u, v), hu, .inl rfl⟩)

/-- Under edges between nodes alone, an edge of the wiring is a pair of the list. -/
theorem edge_ofEdges_of_bounded {n : Nat} {es : List (Nat × Nat)} (hes : Bounded n es) {a b : Nat} :
    (ofEdges n es).Edge a b ↔ (a, b) ∈ es := by
  rw [edge_ofEdges]
  exact and_iff_right_of_imp fun he => (hes _ he).1

theorem bounded_edges (n : Nat) (connections : List Connection) :
    Bounded n (edges n connections) := by
  intro e he
  obtain ⟨c, -, hc⟩ := List.mem_filterMap.mp he
  unfold edge? at hc
  split at hc
  · next h =>
    obtain rfl := Option.some.inj hc
    exact h
  · cases hc

/-- The edges of connections end at nodes. -/
theorem inRange_ofConnections (n : Nat) (connections : List Connection) :
    InRange (ofConnections n connections) := by
  intro a b hab
  rw [ofConnections, edge_ofEdges_of_bounded (bounded_edges n connections)] at hab
  rw [ofConnections, size_ofEdges]
  exact (bounded_edges n connections _ hab).2

/-- Walking back from a node always ends exactly if no cycle leads to the node. -/
theorem acc_iff {n : Nat} {es : List (Nat × Nat)} (hes : Bounded n es) {v : Nat} :
    Acc (fun a b => (a, b) ∈ es) v ↔
      ∀ a, TransGen (ofEdges n es).Edge a a → ¬ ReflTransGen (ofEdges n es).Edge a v := by
  have hedge : ∀ {a b}, (ofEdges n es).Edge a b ↔ (a, b) ∈ es := edge_ofEdges_of_bounded hes
  constructor
  · intro hacc
    induction hacc with
    | intro v _ ih =>
      intro a hcyc hav
      rcases hav.cases_tail with rfl | ⟨u, hau, huv⟩
      · obtain ⟨u, hvu, huv⟩ := TransGen.tail'_iff.mp hcyc
        exact ih u (hedge.mp huv) v hcyc hvu
      · exact ih u (hedge.mp huv) a hcyc hau
  · intro hnone
    -- Among the nodes that lead to `v` the edges make an order on finitely many nodes.
    let r : Fin n → Fin n → Prop := fun a b =>
      TransGen (ofEdges n es).Edge a b ∧ ReflTransGen (ofEdges n es).Edge b v
    have : IsTrans (Fin n) r := ⟨fun _ _ _ hab hbc => ⟨hab.1.trans hbc.1, hbc.2⟩⟩
    have : Std.Irrefl r := ⟨fun a ha => hnone a ha.1 ha.2⟩
    have hwf : WellFounded r := Finite.wellFounded_of_trans_of_irrefl r
    have hnode : ∀ a : Fin n, ReflTransGen (ofEdges n es).Edge a v →
        Acc (fun a b => (a, b) ∈ es) a.val := by
      intro a
      induction a using hwf.induction with
      | _ a ih =>
        intro hav
        refine .intro _ fun u hu => ih ⟨u, (hes _ hu).1⟩ ⟨.single (hedge.mpr hu), hav⟩ ?_
        exact .head (hedge.mpr hu) hav
    exact .intro v fun u hu => hnode ⟨u, (hes _ hu).1⟩ (.single (hedge.mpr hu))

end ClipGraph.Wiring
