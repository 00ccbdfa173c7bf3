import ClipGraph.Proofs.Unchecked

/-!
# The least order

A graph may have many orders in which every node stands behind its producers. The emission order is
the least of them, compared number by number: where another one first differs, it has a node that the
emission order could have taken there too, and did not because a smaller one could come.
-/

namespace ClipGraph.Graph

open Relation (TransGen)

/-- A list of the listed nodes, each once and behind its producers. -/
structure IsTopological (g : Graph) (l : List NodeId) : Prop where
  nodup : l.Nodup
  mem_iff : ∀ id, id ∈ l ↔ g.Listed id
  forward : ∀ a b, g.Joins a b → l.idxOf a < l.idxOf b

variable {g : Graph}

/-- In such a list, too, every node may come where it does. -/
theorem IsTopological.at {l before after : List NodeId} {id : NodeId} (h : g.IsTopological l)
    (hl : l = before ++ id :: after) : g.MayFollow before id := by
  subst hl
  have hfresh : id ∉ before := fun hm =>
    (List.disjoint_of_nodup_append h.nodup) hm List.mem_cons_self
  refine ⟨(h.mem_iff id).mp (by simp), hfresh, fun a ha => ?_⟩
  by_contra hout
  have hlt := h.forward a id ha
  rw [List.idxOf_append_of_notMem hout, List.idxOf_append_of_notMem hfresh,
    List.idxOf_cons_self] at hlt
  omega

/-- Up to some place the order may be as in another list. From there on it is the same or less. -/
theorem Numbered.rest_eq_or_lt (h : g.Numbered) {l : List NodeId} (hl : g.IsTopological l)
    (before : List NodeId) {rest rest' : List NodeId} (ho : g.order = before ++ rest)
    (hsplit : l = before ++ rest') :
    rest = rest' ∨ rest.map NodeId.index < rest'.map NodeId.index := by
  induction rest generalizing before rest' with
  | nil =>
    cases rest' with
    | nil => exact .inl rfl
    | cons b rest' =>
      rw [List.append_nil] at ho
      have hb := hl.at hsplit
      exact absurd (h.mem_order_of_fed hb.listed (ho ▸ hb.fed)) (ho ▸ hb.fresh)
  | cons a rest ih =>
    obtain ⟨ha, hleast⟩ := h.order_at ho
    cases rest' with
    | nil =>
      rw [List.append_nil] at hsplit
      exact absurd ((hl.mem_iff a).mpr ha.listed) (hsplit ▸ ha.fresh)
    | cons b rest' =>
      simp only [List.map_cons, List.cons_lt_cons_iff]
      rcases Nat.lt_or_eq_of_le (hleast b (hl.at hsplit)) with hlt | heq
      · exact .inr (.inl hlt)
      · obtain rfl := NodeId.ext_index heq
        have hrest := ih (before ++ [a]) (by simpa using ho) (by simpa using hsplit)
        exact hrest.imp (congrArg _) fun hlt => .inr ⟨rfl, hlt⟩

/-- Without cycles the emission order lists every node behind its producers. -/
theorem Numbered.isTopological_order (h : g.Numbered) (hacyclic : ∀ a, ¬ TransGen g.Joins a a) :
    g.IsTopological g.order where
  nodup := h.order_nodup
  mem_iff := fun id =>
    ⟨fun hid => (h.mem_order_iff.mp hid).1, h.forall_mem_order_iff.mpr hacyclic id⟩
  forward := by
    intro a b hab
    exact (h.before_of_joins hab (h.forall_mem_order_iff.mpr hacyclic b (.inr ⟨a, .inr hab⟩))).2

/-- Without a loop the order is topological, and every other topological order is greater. -/
theorem isTopological_order_and_least (h : g.Numbered) (hacyclic : ∀ a, ¬ TransGen g.Joins a a) :
    g.IsTopological g.order ∧ ∀ l, g.IsTopological l → l ≠ g.order →
      g.order.map NodeId.index < l.map NodeId.index := by
  refine ⟨h.isTopological_order hacyclic, fun l hl hne => ?_⟩
  exact (h.rest_eq_or_lt hl [] (List.nil_append _).symm (List.nil_append _).symm).resolve_left
    hne.symm

/-- A clip that goes to one output directly, over two connections, and to the other through a filter. -/
def branching : Graph where
  nodes := #[.source ⟨.ofText "in.mkv", none⟩, .output ⟨1⟩, .filter ⟨"Crop", "std", "Crop", []⟩,
    .output ⟨0⟩]
  connections := #[⟨⟨8193⟩, ⟨12288⟩⟩, ⟨⟨0⟩, ⟨8192⟩⟩, ⟨⟨0⟩, ⟨4096⟩⟩, ⟨⟨0⟩, ⟨4096⟩⟩]

/-- Of two ways to order this graph the emission order is the lesser. -/
theorem branching_order : branching.Numbered ∧ (∀ a, ¬ TransGen branching.Joins a a) ∧
    branching.IsTopological [⟨0⟩, ⟨2⟩, ⟨1⟩, ⟨3⟩] ∧ branching.order = [⟨0⟩, ⟨1⟩, ⟨2⟩, ⟨3⟩] ∧
    branching.order.map NodeId.index < [0, 2, 1, 3] := by
  have hnumbered : branching.Numbered := (by decide : 4 < 4294967296)
  have hacyclic : ∀ a, ¬ TransGen branching.Joins a a := cycle?_eq_none_iff.mp (by cbv)
  have horder : branching.order = [⟨0⟩, ⟨1⟩, ⟨2⟩, ⟨3⟩] := by cbv
  obtain ⟨htop, hleast⟩ := isTopological_order_and_least hnumbered hacyclic
  have hother : branching.IsTopological [⟨0⟩, ⟨2⟩, ⟨1⟩, ⟨3⟩] := by
    refine ⟨by decide, fun id => ?_, ?_⟩
    · rw [← htop.mem_iff, horder]
      exact List.Perm.mem_iff (by decide)
    · rintro a b ⟨-, -, e, he, rfl, rfl⟩
      simp only [branching, List.mem_toArray, List.mem_cons, List.not_mem_nil, or_false] at he
      rcases he with rfl | rfl | rfl | rfl <;> decide
  exact ⟨hnumbered, hacyclic, hother, horder, hleast _ hother (by rw [horder]; decide)⟩

end ClipGraph.Graph
