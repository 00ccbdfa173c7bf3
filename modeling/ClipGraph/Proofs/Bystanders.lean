import ClipGraph.Proofs.Parts
import ClipGraph.Proofs.SameShown
import ClipGraph.Proofs.Statistics

/-!
# Nodes that nothing touches

A source or a filter without a connection has no place in the emission order, though it waits for
nothing and would come first if it had one. So a draft may take any number of them behind its other
nodes: the script stays the same to the letter, and the counts only say that more nodes were left out.
-/

namespace ClipGraph

/-- A draft takes sources and filters as long as they are proper and there is room. -/
theorem Draft.exists_addAll_of_admissible {d : Draft} {extra : List Node}
    (hroom : d.nodes.size + extra.length ≤ 1048576)
    (hextra : ∀ n ∈ extra, n.isOutput = false ∧ n.Admissible) : ∃ e, d.addAll extra = .ok e := by
  induction extra generalizing d with
  | nil => exact ⟨d, rfl⟩
  | cons n rest ih =>
    obtain ⟨⟨hout, hn⟩, hrest⟩ := List.forall_mem_cons.mp hextra
    rw [List.length_cons] at hroom
    have hc : d.check n = .ok () := by
      refine (check_eq_ok_iff d n).mpr ⟨by omega, hn, fun k hk => ?_⟩
      obtain rfl := Node.slot?_eq_some_iff.mp hk
      cases hout
    obtain ⟨e, he⟩ := ih (d := d.push n) (by rw [push_nodes, Array.size_push]; omega) hrest
    exact ⟨e, addAll_cons_eq_ok_iff.mpr ⟨hc, he⟩⟩

namespace Graph

/-- A graph with more nodes behind its own and no other connections. -/
def withNodes (g : Graph) (extra : List Node) : Graph := ⟨g.nodes ++ extra.toArray, g.connections⟩

variable {g : Graph} {extra : List Node}

theorem size_withNodes (g : Graph) (extra : List Node) :
    (g.withNodes extra).size = g.size + extra.length := by
  simp [size, withNodes]

theorem node?_withNodes_of_lt {id : NodeId} (h : id.index < g.size) :
    (g.withNodes extra).node? id = g.node? id := by
  rw [node?, node?, withNodes, Array.getElem?_append_left h]

theorem mem_of_node?_withNodes {id : NodeId} {n : Node} (hid : g.size ≤ id.index)
    (hn : (g.withNodes extra).node? id = some n) : n ∈ extra := by
  rw [node?, withNodes, Array.getElem?_append_right hid, List.getElem?_toArray] at hn
  exact List.mem_of_getElem? hn

/-- Whatever has a statement with the new nodes is an old node. -/
theorem Valid.lt_size_of_emitted_withNodes (h : g.Valid)
    (hextra : ∀ n ∈ extra, n.isOutput = false) {id : NodeId}
    (hid : (g.withNodes extra).Emitted id) : id.index < g.size := by
  rcases hid with ⟨o, ho⟩ | ⟨e, he, rfl | rfl⟩
  · by_contra hle
    have hout := hextra _ (mem_of_node?_withNodes (Nat.le_of_not_lt hle) ho)
    cases hout
  · exact h.fromNode_lt he
  · exact h.toNode_lt he

/-- Nodes that nothing connects are not shown, unless they are outputs. -/
theorem Valid.sameShown_withNodes (h : g.Valid) (hextra : ∀ n ∈ extra, n.isOutput = false) :
    SameShown g (g.withNodes extra) where
  connections := fun _ => Iff.rfl
  nodes := by
    rintro id (hid | hid)
    · obtain ⟨n, hn⟩ := h.exists_node hid
      exact (node?_withNodes_of_lt (lt_size_of_node? hn)).symm
    · exact (node?_withNodes_of_lt (h.lt_size_of_emitted_withNodes hextra hid)).symm

/-- More nodes that are no outputs leave the program as it is. -/
theorem Valid.compile_withNodes (h : g.Valid) (hall : (g.withNodes extra).Valid)
    (hextra : ∀ n ∈ extra, n.isOutput = false) {s : Script} (hs : g.compile = .ok s) :
    (g.withNodes extra).compile = .ok ⟨s.program,
      { s.stats with
        total := s.stats.total + extra.length, omitted := s.stats.omitted + extra.length }⟩ := by
  have hout := h.outcome_compile
  rw [hs] at hout
  cases hout with
  | ok hsource houtput hacyclic =>
    have hmore : ∀ n ∈ g.nodes, n ∈ (g.withNodes extra).nodes :=
      fun n hn => Array.mem_append_left _ hn
    rw [(h.sameShown_withNodes hextra).compile_eq_ok h hall (hsource.imp fun _ => hmore _)
      (houtput.imp fun _ => hmore _) hs, size_withNodes, stats]
    have hle := h.length_order_le hacyclic
    rw [Nat.sub_add_comm hle]

/-- A draft takes sources and filters behind a graph that compiles and stays unconnected to them. The
text stays the same, and of the counts only those of all nodes and of the nodes left out grow. -/
theorem compile_finish_of_addAll {calls : List Draft.Call} {extra : List Node} {d : Draft}
    {s : Script} (hs : (Draft.run calls).finish.compile = .ok s)
    (hextra : ∀ n ∈ extra, n.isOutput = false) (hd : (Draft.run calls).addAll extra = .ok d) :
    d.finish = (Draft.run calls).finish.withNodes extra ∧
    ∃ t, d.finish.compile = .ok t ∧ t.text = s.text ∧
      t.stats = { s.stats with
        total := s.stats.total + extra.length, omitted := s.stats.omitted + extra.length } := by
  have hrun := Draft.run_sound calls
  obtain ⟨hsound, hnodes, hconnections⟩ := Draft.addAll_sound hrun hd
  have hfinish : d.finish = (Draft.run calls).finish.withNodes extra := by
    rw [Draft.finish, hnodes, hconnections]
    rfl
  have hvalid := hsound.valid
  rw [hfinish] at hvalid ⊢
  exact ⟨rfl, _, hrun.valid.compile_withNodes hvalid hextra hs, rfl, rfl⟩

def passing : List Draft.Call :=
  [.add (.source ⟨.ofText "in.mkv", none⟩), .add (.output ⟨0⟩), .connect ⟨0⟩ ⟨1⟩]

/-- A source and a filter that nothing connects. -/
def idle : List Node :=
  [.source ⟨.ofText "unused.mkv", none⟩, .filter ⟨"Unused", "std", "Invert", []⟩]

theorem idle_unseen : ∃ d s t, (Draft.run passing).finish.compile = .ok s ∧
    (Draft.run passing).addAll idle = .ok d ∧ d.finish.compile = .ok t ∧ t.text = s.text ∧
    s.stats = ⟨2, 2, 0, 0, 1⟩ ∧ t.stats = ⟨4, 2, 2, 0, 1⟩ := by
  have hcompile : (Draft.run passing).finish.compile =
      .ok ⟨⟨[.load ⟨0⟩ "ffms2.Source" "in.mkv"], [.bind (.source ⟨0⟩) 0]⟩, ⟨2, 2, 0, 0, 1⟩⟩ := by
    cbv
  have hidle : ∀ n ∈ idle, n.isOutput = false ∧ n.Admissible := by decide +kernel
  have hroom : (Draft.run passing).nodes.size + idle.length ≤ 1048576 := by
    rw [show (Draft.run passing).nodes.size = 2 by cbv]
    decide
  obtain ⟨d, hd⟩ : ∃ d, (Draft.run passing).addAll idle = .ok d :=
    Draft.exists_addAll_of_admissible hroom hidle
  obtain ⟨-, t, ht, htext, hstats⟩ := compile_finish_of_addAll hcompile (by decide) hd
  exact ⟨d, _, t, hcompile, hd, ht, htext, rfl, hstats⟩

end Graph
end ClipGraph
