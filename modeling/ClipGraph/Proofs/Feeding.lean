import ClipGraph.Proofs.Unchecked
import ClipGraph.Proofs.Valid

/-!
# Who feeds whom

In a valid graph every connection joins two nodes. Every node has one producer at most, cycles run
through filters only, and the emission order is the greedy one among the nodes that have a statement.
-/

namespace ClipGraph.Graph

open Relation (ReflTransGen TransGen)

def Feeds (g : Graph) (a b : NodeId) : Prop := ∃ e ∈ g.connections, e.fromNode = a ∧ e.toNode = b

def Acyclic (g : Graph) : Prop := ∀ a, ¬ TransGen g.Feeds a a

/-- A list of different nodes along the connections whose last node feeds its first. -/
structure IsCycle (g : Graph) (c : List NodeId) : Prop where
  nodup : c.Nodup
  chain : c.IsChain g.Feeds
  closes : ∃ first last, c.head? = some first ∧ c.getLast? = some last ∧ g.Feeds last first

/-- The nodes that have a statement: outputs, and whatever a connection touches. -/
def Emitted (g : Graph) (id : NodeId) : Prop :=
  (∃ o, g.node? id = some (.output o)) ∨ ∃ e ∈ g.connections, e.fromNode = id ∨ e.toNode = id

namespace Valid

variable {g : Graph}

/-- A connection of a valid graph starts at the output of a node. -/
theorem source_node (h : g.Valid) {e : Connection} (he : e ∈ g.connections) :
    ∃ n, g.node? e.fromNode = some n ∧ n.output? e.fromNode = some e.source :=
  direction?_eq_some_iff.mp (h.ends e he).1

/-- A connection of a valid graph ends at the input of a node. -/
theorem target_node (h : g.Valid) {e : Connection} (he : e ∈ g.connections) :
    ∃ n, g.node? e.toNode = some n ∧ n.input? e.toNode = some e.target :=
  direction?_eq_some_iff.mp (h.ends e he).2

theorem fromNode_lt (h : g.Valid) {e : Connection} (he : e ∈ g.connections) :
    e.fromNode.index < g.size := by
  obtain ⟨n, hn, -⟩ := h.source_node he
  exact lt_size_of_node? hn

theorem toNode_lt (h : g.Valid) {e : Connection} (he : e ∈ g.connections) :
    e.toNode.index < g.size := by
  obtain ⟨n, hn, -⟩ := h.target_node he
  exact lt_size_of_node? hn

/-- The connection into a node is the one into its input. -/
theorem eq_of_toNode_eq (h : g.Valid) {e f : Connection} (he : e ∈ g.connections)
    (hf : f ∈ g.connections) (hto : e.toNode = f.toNode) : e = f := by
  obtain ⟨n, hn, hin⟩ := h.target_node he
  obtain ⟨m, hm, him⟩ := h.target_node hf
  rw [hto, hm] at hn
  simp only [Option.some.injEq] at hn
  subst hn
  rw [hto, him] at hin
  simp only [Option.some.injEq] at hin
  exact List.inj_on_of_nodup_map h.targets (by simpa using he) (by simpa using hf) hin.symm

/-- A node that feeds one and is fed by one has both ports. -/
theorem filter_of_feeds (h : g.Valid) {a b c : NodeId} (hab : g.Feeds a b) (hbc : g.Feeds b c) :
    ∃ f, g.node? b = some (.filter f) := by
  obtain ⟨e, he, rfl, rfl⟩ := hab
  obtain ⟨f, hf, hfrom, rfl⟩ := hbc
  obtain ⟨n, hn, hin⟩ := h.target_node he
  obtain ⟨m, hm, hout⟩ := h.source_node hf
  rw [hfrom, hn] at hm
  simp only [Option.some.injEq] at hm
  subst hm
  cases n with
  | source s =>
    simp at hin
  | filter f => exact ⟨f, hn⟩
  | output o =>
    simp at hout

/-- All connections of a valid graph join nodes. -/
theorem joins_eq (h : g.Valid) : g.Joins = g.Feeds := by
  funext a b
  apply propext
  constructor
  · exact fun hab => hab.2.2
  · rintro ⟨e, he, rfl, rfl⟩
    exact ⟨h.fromNode_lt he, h.toNode_lt he, e, he, rfl, rfl⟩

/-- On a valid graph the listed nodes are the emitted ones. -/
theorem listed_iff (h : g.Valid) {id : NodeId} : g.Listed id ↔ g.Emitted id := by
  rw [Listed, Emitted, h.joins_eq]
  apply or_congr_right
  constructor
  · rintro ⟨other, ⟨e, he, hid, -⟩ | ⟨e, he, -, hid⟩⟩
    · exact ⟨e, he, .inl hid⟩
    · exact ⟨e, he, .inr hid⟩
  · rintro ⟨e, he, rfl | rfl⟩
    · exact ⟨e.toNode, .inl ⟨e, he, rfl, rfl⟩⟩
    · exact ⟨e.fromNode, .inr ⟨e, he, rfl, rfl⟩⟩

theorem isLoop_iff (h : g.Valid) {c : List NodeId} : g.IsLoop c ↔ g.IsCycle c := by
  constructor
  · intro hc
    exact ⟨hc.nodup, h.joins_eq ▸ hc.chain, h.joins_eq ▸ hc.closes⟩
  · intro hc
    exact ⟨hc.nodup, h.joins_eq ▸ hc.chain, h.joins_eq ▸ hc.closes⟩

theorem wiring_oneProducer (h : g.Valid) : g.wiring.OneProducer := by
  intro i j k hik hjk
  obtain ⟨a, c, hac, rfl, rfl⟩ := edge_iff.mp hik
  obtain ⟨b, d, hbd, rfl, hd⟩ := edge_iff.mp hjk
  obtain rfl := NodeId.ext_index hd
  obtain ⟨-, -, e, he, rfl, rfl⟩ := hac
  obtain ⟨-, -, f, hf, rfl, hto⟩ := hbd
  rw [h.eq_of_toNode_eq hf he hto]

theorem numbered (h : g.Valid) : g.Numbered := by
  have hroom := h.room
  rw [Numbered, size]
  omega

end Valid

/-- A cycle that starts at the least node that lies on any. -/
def IsLeastCycle (g : Graph) (c : List NodeId) : Prop :=
  g.IsCycle c ∧ ∀ first ∈ c.head?, ∀ a, TransGen g.Feeds a a → first.index ≤ a.index

/-- The nodes that may come next in an emission order. -/
structure Ready (g : Graph) (placed : List NodeId) (id : NodeId) : Prop where
  emitted : g.Emitted id
  fresh : id ∉ placed
  fed : ∀ a, g.Feeds a id → a ∈ placed

namespace Valid

variable {g : Graph}

theorem transGen_of_isCycle (h : g.Valid) {c : List NodeId} (hc : g.IsCycle c) {a : NodeId}
    (ha : a ∈ c) : TransGen g.Feeds a a :=
  h.joins_eq ▸ (h.isLoop_iff.mpr hc).transGen ha

/-- Every node of a cycle is a filter. -/
theorem filter_of_isCycle (h : g.Valid) {c : List NodeId} (hc : g.IsCycle c) {a : NodeId}
    (ha : a ∈ c) : ∃ f, g.node? a = some (.filter f) := by
  have hcyc := h.transGen_of_isCycle hc ha
  obtain ⟨b, hab, -⟩ := TransGen.head'_iff.mp hcyc
  obtain ⟨p, -, hpa⟩ := TransGen.tail'_iff.mp hcyc
  exact h.filter_of_feeds hpa hab

/-- No cycle is found in a valid graph just if there is none. -/
theorem cycle?_eq_none_iff (h : g.Valid) : g.cycle? = none ↔ g.Acyclic := by
  rw [Graph.cycle?_eq_none_iff, h.joins_eq]
  exact Iff.rfl

/-- The cycle that is found starts at the least node on any cycle. -/
theorem isLeastCycle_of_cycle? (h : g.Valid) {c : List NodeId} (hc : g.cycle? = some c) :
    g.IsLeastCycle c := by
  refine ⟨h.isLoop_iff.mp (isLoop_of_cycle? hc), ?_⟩
  intro first hfirst a ha
  obtain ⟨f, hf, hleast⟩ := Wiring.cycle?_least g.wiring_inRange h.wiring_oneProducer
    (wiring_cycle?_eq_some hc)
  rw [List.head?_map, Option.mem_def.mp hfirst] at hf
  simp only [Option.map_some, Option.some.injEq] at hf
  subst hf
  by_contra hlt
  exact hleast a.index (by omega) (transGen_index (h.joins_eq ▸ ha))

/-- The reported cycle is the one through the least node that lies on any, from that node on. -/
theorem cycle?_eq_some_iff (h : g.Valid) {c : List NodeId} :
    g.cycle? = some c ↔ g.IsLeastCycle c := by
  constructor
  · exact h.isLeastCycle_of_cycle?
  · rintro ⟨hc, hleast⟩
    obtain ⟨first, last, hf, -⟩ := hc.closes
    have hfirst : first ∈ c := List.mem_of_head? hf
    cases hres : g.cycle? with
    | none => exact absurd (h.transGen_of_isCycle hc hfirst) (h.cycle?_eq_none_iff.mp hres first)
    | some c' =>
      obtain ⟨hc', hleast'⟩ := h.isLeastCycle_of_cycle? hres
      obtain ⟨first', last', hf', -⟩ := hc'.closes
      have hfirst' : first' ∈ c' := List.mem_of_head? hf'
      have hle := hleast first hf first' (h.transGen_of_isCycle hc' hfirst')
      have hle' := hleast' first' hf' first (h.transGen_of_isCycle hc hfirst)
      have heads : first' = first := NodeId.ext_index (by omega)
      have hmap := Wiring.IsCycle.unique h.wiring_oneProducer
        (isLoop_map_index.mpr (h.isLoop_iff.mpr hc')) (isLoop_map_index.mpr (h.isLoop_iff.mpr hc))
        (by simp [hf, hf', heads])
      rw [List.map_injective_iff.mpr (fun _ _ => NodeId.ext_index) hmap]

theorem mayFollow_iff (h : g.Valid) {placed : List NodeId} {id : NodeId} :
    g.MayFollow placed id ↔ g.Ready placed id := by
  constructor
  · intro hid
    exact ⟨h.listed_iff.mp hid.listed, hid.fresh, h.joins_eq ▸ hid.fed⟩
  · intro hid
    exact ⟨h.listed_iff.mpr hid.emitted, hid.fresh, h.joins_eq ▸ hid.fed⟩

/-- At every place of the order stands the least node that may come next. -/
theorem order_at (h : g.Valid) {before after : List NodeId} {id : NodeId}
    (ho : g.order = before ++ id :: after) :
    g.Ready before id ∧ ∀ a, g.Ready before a → id.index ≤ a.index := by
  simpa only [h.mayFollow_iff] using h.numbered.order_at ho

theorem emitted_of_mem_order (h : g.Valid) {id : NodeId} (hid : id ∈ g.order) :
    g.Emitted id := by
  obtain ⟨before, after, ho⟩ := List.append_of_mem hid
  exact (h.order_at ho).1.emitted

/-- An emitted node that no connection leads to is in the order, cycles or not. -/
theorem mem_order_of_bare (h : g.Valid) {id : NodeId} (he : g.Emitted id)
    (hbare : ∀ e ∈ g.connections, e.toNode ≠ id) : id ∈ g.order := by
  refine h.numbered.mem_order_iff.mpr ⟨h.listed_iff.mpr he, fun a hcyc hreach => ?_⟩
  have hstart : TransGen g.Joins a id := hcyc.trans_left hreach
  obtain ⟨b, -, -, -, e, he, -, hto⟩ := TransGen.tail'_iff.mp hstart
  exact hbare e he hto

/-- Without a cycle every emitted node is in the order. -/
theorem mem_order_iff (h : g.Valid) (hg : g.Acyclic) {id : NodeId} :
    id ∈ g.order ↔ g.Emitted id := by
  refine ⟨h.emitted_of_mem_order, fun he => ?_⟩
  refine h.numbered.forall_mem_order_iff.mpr ?_ id (h.listed_iff.mpr he)
  rw [h.joins_eq]
  exact hg

end Valid
end ClipGraph.Graph
