import ClipGraph.Proofs.EmissionOrder
import ClipGraph.Proofs.Ports
import ClipGraph.Script

/-!
# Graphs that nothing has checked

A graph value may hold any nodes and any connections: into nodes that are not there, from a node
to itself, several between the same two nodes, several into one input. What counts is which of its
nodes the connections join. The search answers a loop of joined nodes exactly if there is one, and
the emission order leaves out exactly the nodes that a loop leads to, so the two agree on every
graph.
-/

namespace ClipGraph.Graph

open Relation (ReflTransGen TransGen)

def Joins (g : Graph) (a b : NodeId) : Prop :=
  a.index < g.size ∧ b.index < g.size ∧ ∃ e ∈ g.connections, e.fromNode = a ∧ e.toNode = b

/-- The nodes that get a statement: outputs, and the ends of connections between nodes. -/
def Listed (g : Graph) (id : NodeId) : Prop :=
  (∃ o, g.node? id = some (.output o)) ∨ ∃ other, g.Joins id other ∨ g.Joins other id

/-- A list of different nodes, each joined to the next and the last to the first. -/
structure IsLoop (g : Graph) (c : List NodeId) : Prop where
  nodup : c.Nodup
  chain : c.IsChain g.Joins
  closes : ∃ first last, c.head? = some first ∧ c.getLast? = some last ∧ g.Joins last first

variable {g : Graph}

/-- The edges of a graph are its connections between nodes. -/
theorem mem_edges_iff {i j : Nat} : (i, j) ∈ Wiring.edges g.size g.connections.toList ↔
    ∃ a b, g.Joins a b ∧ a.index = i ∧ b.index = j := by
  simp only [Wiring.edges, List.mem_filterMap, Array.mem_toList_iff, Wiring.edge?]
  constructor
  · rintro ⟨e, he, hij⟩
    split at hij
    · next hlt =>
      obtain ⟨rfl, rfl⟩ := Prod.mk.inj (Option.some.inj hij)
      exact ⟨e.fromNode, e.toNode, ⟨hlt.1, hlt.2, e, he, rfl, rfl⟩, rfl, rfl⟩
    · cases hij
  · rintro ⟨_, _, ⟨ha, hb, e, he, rfl, rfl⟩, rfl, rfl⟩
    exact ⟨e, he, if_pos ⟨ha, hb⟩⟩

theorem mem_edges_index_iff {a b : NodeId} :
    (a.index, b.index) ∈ Wiring.edges g.size g.connections.toList ↔ g.Joins a b := by
  rw [mem_edges_iff]
  constructor
  · rintro ⟨a', b', hab, ha, hb⟩
    rwa [← NodeId.ext_index ha, ← NodeId.ext_index hb]
  · exact fun hab => ⟨a, b, hab, rfl, rfl⟩

theorem bounded_edges (g : Graph) : Wiring.Bounded (g.nodes.map Node.isOutput).size
    (Wiring.edges g.size g.connections.toList) := by
  rw [Array.size_map]
  exact Wiring.bounded_edges g.size _

theorem wiring_eq (g : Graph) : g.wiring = Wiring.ofEdges (g.nodes.map Node.isOutput).size
    (Wiring.edges g.size g.connections.toList) := by
  rw [wiring, Wiring.ofConnections, Array.size_map, size]

theorem edge_iff {i j : Nat} :
    g.wiring.Edge i j ↔ ∃ a b, g.Joins a b ∧ a.index = i ∧ b.index = j := by
  rw [wiring_eq, Wiring.edge_ofEdges_of_bounded g.bounded_edges, mem_edges_iff]

theorem edge_index_iff {a b : NodeId} : g.wiring.Edge a.index b.index ↔ g.Joins a b := by
  rw [edge_iff, ← mem_edges_iff, mem_edges_index_iff]

theorem joins_of_edge {i j : Nat} (h : g.wiring.Edge i j) : g.Joins (.ofIndex i) (.ofIndex j) := by
  obtain ⟨a, b, hab, rfl, rfl⟩ := edge_iff.mp h
  simpa only [NodeId.ofIndex_index] using hab

theorem wiring_inRange (g : Graph) : g.wiring.InRange := Wiring.inRange_ofConnections _ _

theorem transGen_index {a b : NodeId} (h : TransGen g.Joins a b) :
    TransGen g.wiring.Edge a.index b.index :=
  h.lift NodeId.index fun _ _ => edge_index_iff.mpr

theorem transGen_ofIndex {i j : Nat} (h : TransGen g.wiring.Edge i j) :
    TransGen g.Joins (.ofIndex i) (.ofIndex j) :=
  h.lift NodeId.ofIndex fun _ _ => joins_of_edge

theorem reflTransGen_index {a b : NodeId} (h : ReflTransGen g.Joins a b) :
    ReflTransGen g.wiring.Edge a.index b.index :=
  h.lift NodeId.index fun _ _ => edge_index_iff.mpr

theorem reflTransGen_ofIndex {i j : Nat} (h : ReflTransGen g.wiring.Edge i j) :
    ReflTransGen g.Joins (.ofIndex i) (.ofIndex j) :=
  h.lift NodeId.ofIndex fun _ _ => joins_of_edge

/-- The wiring is acyclic just if no node is joined to itself, directly or not. -/
theorem wiring_acyclic_iff : g.wiring.Acyclic ↔ ∀ a, ¬ TransGen g.Joins a a := by
  constructor
  · intro hw a ha
    exact hw a.index (transGen_index ha)
  · intro hg i hi
    exact hg (.ofIndex i) (transGen_ofIndex hi)

theorem isLoop_map_index {c : List NodeId} :
    g.wiring.IsCycle (c.map NodeId.index) ↔ g.IsLoop c := by
  have hinj : Function.Injective NodeId.index := fun _ _ => NodeId.ext_index
  constructor
  · intro hc
    refine ⟨(List.nodup_map_iff hinj).mp hc.nodup, ?_, ?_⟩
    · exact ((List.isChain_map _).mp hc.chain).imp fun _ _ => edge_index_iff.mp
    · obtain ⟨first, last, hf, hl, he⟩ := hc.closes
      rw [List.head?_map, Option.map_eq_some_iff] at hf
      rw [List.getLast?_map, Option.map_eq_some_iff] at hl
      obtain ⟨a, ha, rfl⟩ := hf
      obtain ⟨b, hb, rfl⟩ := hl
      exact ⟨a, b, ha, hb, edge_index_iff.mp he⟩
  · intro hc
    refine ⟨(List.nodup_map_iff hinj).mpr hc.nodup, ?_, ?_⟩
    · exact (List.isChain_map _).mpr (hc.chain.imp fun _ _ => edge_index_iff.mpr)
    · obtain ⟨first, last, hf, hl, he⟩ := hc.closes
      exact ⟨first.index, last.index, by simp [hf], by simp [hl], edge_index_iff.mpr he⟩

theorem IsLoop.transGen {c : List NodeId} (h : g.IsLoop c) {a : NodeId} (ha : a ∈ c) :
    TransGen g.Joins a a := by
  have hw := (isLoop_map_index.mpr h).transGen (List.mem_map_of_mem ha)
  simpa only [NodeId.ofIndex_index] using transGen_ofIndex hw

/-- The answer of the search is its answer by numbers. -/
theorem map_index_cycle? : g.cycle?.map (·.map NodeId.index) = g.wiring.cycle? := by
  rw [cycle?, Option.map_map]
  cases h : g.wiring.cycle? with
  | none => rfl
  | some l =>
    have hcycle := (Wiring.cycle?_eq_some g.wiring_inRange h).1
    -- A node on a cycle stands at an edge, so it has a number that fits.
    have hback : ∀ i ∈ l, (NodeId.ofIndex i).index = i := by
      intro i hi
      obtain ⟨j, hij, -⟩ := TransGen.head'_iff.mp (hcycle.transGen hi)
      obtain ⟨a, -, -, rfl, -⟩ := edge_iff.mp hij
      rw [NodeId.ofIndex_index]
    simp only [Option.map_some, Function.comp_apply, List.map_map]
    exact congrArg some ((List.map_congr_left hback).trans (List.map_id l))

theorem wiring_cycle?_eq_some {c : List NodeId} (h : g.cycle? = some c) :
    g.wiring.cycle? = some (c.map NodeId.index) := by
  rw [← map_index_cycle?, h, Option.map_some]

/-- What is found as a cycle is a loop. -/
theorem isLoop_of_cycle? {c : List NodeId} (h : g.cycle? = some c) : g.IsLoop c :=
  isLoop_map_index.mp (Wiring.cycle?_eq_some g.wiring_inRange (wiring_cycle?_eq_some h)).1

/-- No cycle is found just if no node is joined to itself, directly or not. -/
theorem cycle?_eq_none_iff : g.cycle? = none ↔ ∀ a, ¬ TransGen g.Joins a a := by
  constructor
  · intro h
    rw [← wiring_acyclic_iff]
    exact Wiring.cycle?_eq_none g.wiring_inRange (Option.map_eq_none_iff.mp h)
  · intro h
    cases hc : g.cycle? with
    | none => rfl
    | some c =>
      have hloop := isLoop_of_cycle? hc
      obtain ⟨first, -, hfirst, -⟩ := hloop.closes
      exact absurd (hloop.transGen (List.mem_of_head? hfirst)) (h first)

/-- Whatever a graph holds, the search through its nodes answers nothing exactly if no node leads
back to itself along connections between nodes, and what it answers is a loop of such
connections. -/
theorem cycle?_eq_none_iff_and_isLoop (g : Graph) :
    (g.cycle? = none ↔ ¬ ∃ a, TransGen g.Joins a a) ∧ ∀ c, g.cycle? = some c → g.IsLoop c := by
  rw [not_exists]
  exact ⟨cycle?_eq_none_iff, fun _ => isLoop_of_cycle?⟩

/-- A graph with two filters that feed each other and an output behind them, with a connection made
twice and with connections of a node that is not there. -/
def tangled : Graph where
  nodes := #[.source ⟨.ofText "in.mkv", none⟩, .filter ⟨"Crop", "std", "Crop", []⟩,
    .filter ⟨"Flip", "std", "FlipVertical", []⟩, .output ⟨0⟩, .output ⟨1⟩]
  connections := #[⟨⟨4097⟩, ⟨8192⟩⟩, ⟨⟨8193⟩, ⟨4096⟩⟩, ⟨⟨8193⟩, ⟨12288⟩⟩, ⟨⟨0⟩, ⟨16384⟩⟩,
    ⟨⟨0⟩, ⟨16384⟩⟩, ⟨⟨0⟩, ⟨36864⟩⟩, ⟨⟨36865⟩, ⟨36864⟩⟩]

theorem tangled_isLoop :
    tangled.cycle? = some [⟨1⟩, ⟨2⟩] ∧ tangled.IsLoop [⟨1⟩, ⟨2⟩] := by
  have hcycle : tangled.cycle? = some [⟨1⟩, ⟨2⟩] := by cbv
  exact ⟨hcycle, (cycle?_eq_none_iff_and_isLoop tangled).2 _ hcycle⟩

theorem listed_index_iff {id : NodeId} :
    Wiring.Emitted (g.nodes.map Node.isOutput) (Wiring.edges g.size g.connections.toList) id.index ↔
      g.Listed id := by
  have hout : (g.nodes.map Node.isOutput)[id.index]? = some true ↔
      ∃ o, g.node? id = some (.output o) := by
    rw [Array.getElem?_map, Option.map_eq_some_iff]
    constructor
    · rintro ⟨n, hn, ho⟩
      cases n with
      | output o => exact ⟨o, hn⟩
      | source s => simp at ho
      | filter f => simp at ho
    · rintro ⟨o, ho⟩
      exact ⟨_, ho, rfl⟩
  rw [Wiring.Emitted, Listed, hout]
  apply or_congr_right
  constructor
  · rintro ⟨⟨i, j⟩, hij, hid⟩
    obtain ⟨a, b, hab, rfl, rfl⟩ := mem_edges_iff.mp hij
    rcases hid with hid | hid
    · exact ⟨b, .inl (NodeId.ext_index hid ▸ hab)⟩
    · exact ⟨a, .inr (NodeId.ext_index hid ▸ hab)⟩
  · rintro ⟨other, hjoin | hjoin⟩
    · exact ⟨_, mem_edges_index_iff.mpr hjoin, .inl rfl⟩
    · exact ⟨_, mem_edges_index_iff.mpr hjoin, .inr rfl⟩

/-- A listed node that is not placed yet and whose producers all are. -/
structure MayFollow (g : Graph) (placed : List NodeId) (id : NodeId) : Prop where
  listed : g.Listed id
  fresh : id ∉ placed
  fed : ∀ a, g.Joins a id → a ∈ placed

theorem ready_index_iff {placed : List NodeId} {id : NodeId} :
    Wiring.Ready (g.nodes.map Node.isOutput) (Wiring.edges g.size g.connections.toList)
      (placed.map NodeId.index) id.index ↔ g.MayFollow placed id := by
  have hmem : ∀ a : NodeId, a.index ∈ placed.map NodeId.index ↔ a ∈ placed := fun _ =>
    List.mem_map_of_injective fun _ _ => NodeId.ext_index
  constructor
  · rintro ⟨he, hf, hfed⟩
    refine ⟨listed_index_iff.mp he, (hmem id).not.mp hf, fun a ha => ?_⟩
    exact (hmem a).mp (hfed a.index (mem_edges_index_iff.mpr ha))
  · rintro ⟨he, hf, hfed⟩
    refine ⟨listed_index_iff.mpr he, (hmem id).not.mpr hf, fun u hu => ?_⟩
    obtain ⟨a, b, hab, rfl, hb⟩ := mem_edges_iff.mp hu
    exact (hmem a).mpr (hfed a (NodeId.ext_index hb ▸ hab))

/-- A graph with no more nodes than there are numbers for. -/
def Numbered (g : Graph) : Prop := g.size < 4294967296

theorem Numbered.map_index_order (h : g.Numbered) : g.order.map NodeId.index =
    Wiring.order (g.nodes.map Node.isOutput) (Wiring.edges g.size g.connections.toList) := by
  have hback : ∀ i ∈ Wiring.order (g.nodes.map Node.isOutput)
      (Wiring.edges g.size g.connections.toList), (NodeId.ofIndex i).index = i := by
    intro i hi
    have hlt := ((Wiring.mem_order_iff g.bounded_edges).mp hi).1.lt g.bounded_edges
    rw [Array.size_map] at hlt
    exact NodeId.index_ofIndex (Nat.lt_trans hlt h)
  rw [order, List.map_map]
  exact (List.map_congr_left hback).trans (List.map_id _)

theorem Numbered.order_nodup (h : g.Numbered) : g.order.Nodup := by
  apply List.Nodup.of_map NodeId.index
  rw [h.map_index_order, ← List.nodup_reverse]
  exact (Wiring.order_greedy g.bounded_edges).1.nodup

/-- At every place of the order stands the least node that may come next. -/
theorem Numbered.order_at (h : g.Numbered) {before after : List NodeId} {id : NodeId}
    (ho : g.order = before ++ id :: after) :
    g.MayFollow before id ∧ ∀ a, g.MayFollow before a → id.index ≤ a.index := by
  have hsplit := h.map_index_order
  rw [ho, List.map_append, List.map_cons] at hsplit
  obtain ⟨hready, hleast⟩ :=
    Wiring.Greedy.at (Wiring.order_greedy g.bounded_edges).1 hsplit.symm
  exact ⟨ready_index_iff.mp hready, fun a ha => hleast a.index (ready_index_iff.mpr ha)⟩

/-- The order goes on as long as a listed node may come next. -/
theorem Numbered.mem_order_of_fed (h : g.Numbered) {id : NodeId} (hid : g.Listed id)
    (hfed : ∀ a, g.Joins a id → a ∈ g.order) : id ∈ g.order := by
  by_contra hout
  have hready := ready_index_iff.mpr ⟨hid, hout, hfed⟩
  rw [h.map_index_order] at hready
  refine (Wiring.order_greedy g.bounded_edges).2 id.index ⟨hready.emitted, ?_, ?_⟩
  · simpa using hready.fresh
  · simpa using hready.fed

/-- In the order are the listed nodes that no loop leads to. -/
theorem Numbered.mem_order_iff (h : g.Numbered) {id : NodeId} : id ∈ g.order ↔
    g.Listed id ∧ ∀ a, TransGen g.Joins a a → ¬ ReflTransGen g.Joins a id := by
  have hinj : Function.Injective NodeId.index := fun _ _ => NodeId.ext_index
  rw [← List.mem_map_of_injective hinj, h.map_index_order, Wiring.mem_order_iff g.bounded_edges,
    listed_index_iff, Wiring.acc_iff g.bounded_edges, ← wiring_eq]
  refine and_congr_right fun _ => ⟨fun hw a hcyc hreach => ?_, fun hg i hcyc hreach => ?_⟩
  · exact hw a.index (transGen_index hcyc) (reflTransGen_index hreach)
  · refine hg (.ofIndex i) (transGen_ofIndex hcyc) ?_
    simpa only [NodeId.ofIndex_index] using reflTransGen_ofIndex hreach

/-- A node of the order stands behind every node that is joined to it. -/
theorem Numbered.before_of_joins (h : g.Numbered) {a b : NodeId} (hab : g.Joins a b)
    (hb : b ∈ g.order) : a ∈ g.order ∧ g.order.idxOf a < g.order.idxOf b := by
  obtain ⟨before, after, ho⟩ := List.append_of_mem hb
  obtain ⟨hfollows, -⟩ := h.order_at ho
  have ha := hfollows.fed a hab
  rw [ho]
  refine ⟨List.mem_append_left _ ha, ?_⟩
  rw [List.idxOf_append_of_mem ha, List.idxOf_append_of_notMem hfollows.fresh,
    List.idxOf_cons_self, Nat.add_zero]
  exact List.idxOf_lt_length_of_mem ha

/-- A node on a loop is listed, and the loop leads to it. -/
theorem Numbered.forall_mem_order_iff (h : g.Numbered) :
    (∀ id, g.Listed id → id ∈ g.order) ↔ ∀ a, ¬ TransGen g.Joins a a := by
  constructor
  · intro hall a hcyc
    obtain ⟨b, hab, -⟩ := TransGen.head'_iff.mp hcyc
    exact (h.mem_order_iff.mp (hall a (.inr ⟨b, .inl hab⟩))).2 a hcyc .refl
  · exact fun hnone id hid => h.mem_order_iff.mpr ⟨hid, fun a hcyc => absurd hcyc (hnone a)⟩

/-- Whatever a graph holds, its order has no repeats and holds exactly the listed nodes that are on
no loop and that no loop leads to, every node behind its producers. So nothing is left out exactly
if the search finds no loop. -/
theorem order_nodup_and_mem_iff_and_before (h : g.Numbered) :
    g.order.Nodup ∧
    (∀ id, id ∈ g.order ↔
      g.Listed id ∧ ¬ ∃ a, TransGen g.Joins a a ∧ ReflTransGen g.Joins a id) ∧
    (∀ a b, g.Joins a b → b ∈ g.order → a ∈ g.order ∧ g.order.idxOf a < g.order.idxOf b) ∧
    ((∀ id, g.Listed id → id ∈ g.order) ↔ g.cycle? = none) := by
  refine ⟨h.order_nodup, fun id => ?_, fun _ _ => h.before_of_joins, ?_⟩
  · rw [h.mem_order_iff]
    simp only [not_exists, not_and]
  · rw [h.forall_mem_order_iff, cycle?_eq_none_iff]

/-- Nodes on a loop are not in the order, and neither is what they feed. -/
theorem tangled_order : tangled.Numbered ∧ tangled.order = [⟨0⟩, ⟨4⟩] ∧ tangled.Listed ⟨3⟩ ∧
    ∃ a, TransGen tangled.Joins a a ∧ ReflTransGen tangled.Joins a ⟨3⟩ := by
  have hnumbered : tangled.Numbered := (by decide : 5 < 4294967296)
  have horder : tangled.order = [⟨0⟩, ⟨4⟩] := by cbv
  have hlisted : tangled.Listed ⟨3⟩ := .inl ⟨⟨0⟩, rfl⟩
  obtain ⟨-, hmem, -⟩ := order_nodup_and_mem_iff_and_before hnumbered
  have hout : ⟨3⟩ ∉ tangled.order := by rw [horder]; decide
  exact ⟨hnumbered, horder, hlisted, by simpa [hlisted] using (hmem ⟨3⟩).not.mp hout⟩

end ClipGraph.Graph
