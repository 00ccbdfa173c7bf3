import ClipGraph.Project
import ClipGraph.Proofs.Parts

/-!
# Projects and graphs

A project names only the nodes that a connection joins. Nothing is lost by that: the ends of a
connection that a draft takes are the one output of its producer and the one input of its consumer,
so to connect two nodes is to join exactly those. A project has a graph exactly if some valid graph
has its nodes and its links, and there is no second one.
-/

namespace ClipGraph
namespace Project

theorem connectAll_cons_eq_ok_iff {d e : Draft} {l : Link} {rest : List Link} :
    connectAll d (l :: rest) = .ok e ↔
      ∃ next id, d.connect l.producer l.consumer = .ok (next, id) ∧
        connectAll next rest = .ok e := by
  simp only [connectAll, bind_eq_ok_iff, Prod.exists]

end Project

namespace Draft

theorem connectorOf_of_direction? {d : Draft} {c : Connector} {dir : Direction}
    (h : d.finish.direction? c = some dir) : d.connectorOf c.node dir = .ok c := by
  obtain ⟨n, hn, hc⟩ := Graph.direction?_eq_some_iff.mp h
  have hget : d.nodes[c.node.index]? = some n := hn
  simp [connectorOf, hget, hc]

/-- To connect the nodes of two connectors that can be joined is to join these two. -/
theorem connect_of_checkJoin {d : Draft} {c : Connection}
    (h : d.checkJoin c.source c.target = .ok ()) :
    d.connect c.fromNode c.toNode =
      .ok (d.pushConnection c.source c.target, .ofIndex d.connections.size) := by
  obtain ⟨hs, ht, -⟩ := (checkJoin_eq_ok_iff d c.source c.target).mp h
  exact connect_eq_ok_iff.mpr ⟨c.source, c.target, connectorOf_of_direction? hs,
    connectorOf_of_direction? ht, join_eq_ok_iff.mpr ⟨h, rfl, rfl⟩⟩

/-- What a draft connects it joins, by connectors of the two nodes. -/
theorem checkJoin_of_connect {d e : Draft} {producer consumer : NodeId} {id : ConnectionId}
    (h : d.connect producer consumer = .ok (e, id)) : ∃ c : Connection, c.fromNode = producer ∧
      c.toNode = consumer ∧ d.checkJoin c.source c.target = .ok () ∧
      e = d.pushConnection c.source c.target := by
  obtain ⟨source, target, hs, ht, hj⟩ := connect_eq_ok_iff.mp h
  obtain ⟨hc, he, -⟩ := join_eq_ok_iff.mp hj
  exact ⟨⟨source, target⟩, connectorOf_eq_ok hs, connectorOf_eq_ok ht, hc, he⟩

end Draft

namespace Project

/-- Links are connected exactly if some connections with these links are joined. -/
theorem connectAll_eq_ok_iff {d e : Draft} {links : List Link} :
    connectAll d links = .ok e ↔
      ∃ cs : List Connection, cs.map Link.ofConnection = links ∧ d.joinAll cs = .ok e := by
  induction links generalizing d with
  | nil => simp [connectAll, Draft.joinAll]
  | cons l rest ih =>
    rw [connectAll_cons_eq_ok_iff]
    constructor
    · rintro ⟨next, id, hconnect, hrest⟩
      obtain ⟨c, hp, hcons, hc, rfl⟩ := Draft.checkJoin_of_connect hconnect
      obtain ⟨cs, hcs, hjoin⟩ := ih.mp hrest
      have hl : Link.ofConnection c = l := by
        cases l
        simp_all [Link.ofConnection]
      exact ⟨c :: cs, by simp [hl, hcs], Draft.joinAll_cons_eq_ok_iff.mpr ⟨hc, hjoin⟩⟩
    · rintro ⟨cs, hcs, hjoin⟩
      obtain ⟨c, cs, rfl, rfl, htail⟩ := List.map_eq_cons_iff.mp hcs
      obtain ⟨hc, hjoin⟩ := Draft.joinAll_cons_eq_ok_iff.mp hjoin
      exact ⟨_, _, Draft.connect_of_checkJoin hc, ih.mpr ⟨cs, htail, hjoin⟩⟩

/-- A project has a graph just if its nodes are accepted with connections that its links stand for.
-/
theorem toGraph_eq_ok_iff_ofParts {p : Project} {g : Graph} : p.toGraph = .ok g ↔
    ∃ cs : List Connection, cs.map Link.ofConnection = p.links ∧
      Graph.ofParts p.nodes.toArray cs.toArray = .ok g := by
  simp only [toGraph, Graph.ofParts, bind_eq_ok_iff, connectAll_eq_ok_iff]
  constructor
  · rintro ⟨d, hadd, e, ⟨cs, hcs, hjoin⟩, hfinish⟩
    exact ⟨cs, hcs, d, hadd, e, hjoin, hfinish⟩
  · rintro ⟨cs, hcs, d, hadd, e, hjoin, hfinish⟩
    exact ⟨d, hadd, e, ⟨cs, hcs, hjoin⟩, hfinish⟩

/-- The graph of a project is the valid graph with its nodes and its links. -/
theorem toGraph_eq_ok_iff {p : Project} {g : Graph} : p.toGraph = .ok g ↔
    g.Valid ∧ g.nodes.toList = p.nodes ∧ g.connections.toList.map Link.ofConnection = p.links := by
  rw [toGraph_eq_ok_iff_ofParts]
  constructor
  · rintro ⟨cs, hcs, hparts⟩
    obtain ⟨hv, rfl⟩ := Graph.ofParts_eq_ok_iff.mp hparts
    exact ⟨hv, rfl, hcs⟩
  · rintro ⟨hv, hnodes, hlinks⟩
    refine ⟨g.connections.toList, hlinks, Graph.ofParts_eq_ok_iff.mpr ?_⟩
    rw [← hnodes]
    exact ⟨hv, rfl⟩

/-- A graph that came out of a draft comes back from its project as it was. The graph of a project
has the nodes of the project and a connection for each link, so the project comes back from it. -/
theorem toGraph_ofGraph_and_ofGraph_toGraph :
    (∀ (g : Graph) (name : String), g.Built → (ofGraph name g).toGraph = .ok g) ∧
    ∀ (p : Project) (g : Graph), p.toGraph = .ok g →
      g.nodes.toList = p.nodes ∧
      List.Forall₂ (fun c l => c.fromNode = l.producer ∧ c.toNode = l.consumer)
        g.connections.toList p.links ∧
      (ofGraph p.name g).nodes = p.nodes ∧ (ofGraph p.name g).links = p.links := by
  constructor
  · intro g name hg
    exact toGraph_eq_ok_iff.mpr ⟨hg.valid, rfl, rfl⟩
  · intro p g hg
    obtain ⟨-, hnodes, hlinks⟩ := toGraph_eq_ok_iff.mp hg
    refine ⟨hnodes, ?_, hnodes, hlinks⟩
    rw [← hlinks, List.forall₂_map_right_iff, List.forall₂_same]
    exact fun c _ => ⟨rfl, rfl⟩

/-- A filter in front of the source that it reads, with an output between them. -/
def filterFirst : Project where
  version := 1
  name := "crop"
  nodes := [.filter ⟨"Crop", "std", "Crop", [⟨"left", .int 4⟩]⟩, .output ⟨0⟩,
    .source ⟨.ofText "in.mkv", none⟩]
  links := [⟨⟨2⟩, ⟨0⟩⟩, ⟨⟨0⟩, ⟨1⟩⟩]

/-- A project whose filter stands in front of its source has the same links again. -/
theorem filterFirst_comes_back : ∃ g, filterFirst.toGraph = .ok g ∧
    g.connections = #[⟨⟨8192⟩, ⟨0⟩⟩, ⟨⟨1⟩, ⟨4096⟩⟩] ∧
    (ofGraph filterFirst.name g).links = filterFirst.links ∧
    g.Built ∧ (ofGraph "other" g).toGraph = .ok g := by
  have hgraph : filterFirst.toGraph =
      .ok ⟨filterFirst.nodes.toArray, #[⟨⟨8192⟩, ⟨0⟩⟩, ⟨⟨1⟩, ⟨4096⟩⟩]⟩ := by cbv
  have hbuilt := (toGraph_eq_ok_iff.mp hgraph).1.built
  have hback := toGraph_ofGraph_and_ofGraph_toGraph.2 _ _ hgraph
  exact ⟨_, hgraph, rfl, hback.2.2.2, hbuilt,
    toGraph_ofGraph_and_ofGraph_toGraph.1 _ "other" hbuilt⟩

end Project
end ClipGraph
