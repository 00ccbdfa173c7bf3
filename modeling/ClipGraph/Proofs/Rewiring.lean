import ClipGraph.Proofs.SameShown

/-!
# The order of connections

Connections are kept in the order in which they were made, and the walk for cycles, the ready list
and the table of feeds all go through them in that order. None of it shows: a valid graph has one
cycle at most through any node, so whatever a compilation answers, a script or a fault, depends on
which connections there are.
-/

namespace ClipGraph.Graph

/-- Two graphs with the same nodes and, in some order and number, the same connections. -/
structure SameWires (g h : Graph) : Prop where
  nodes : g.nodes = h.nodes
  connections : ∀ e, e ∈ g.connections ↔ e ∈ h.connections

namespace SameWires

variable {g h : Graph}

theorem node?_eq (hw : SameWires g h) : g.node? = h.node? := by
  funext id
  rw [node?, node?, hw.nodes]

theorem sameShown (hw : SameWires g h) : SameShown g h :=
  ⟨hw.connections, fun id _ => congrFun hw.node?_eq id⟩

/-- Graphs with the same wires have the same outcome. -/
theorem outcome (hw : SameWires g h) (hg : g.Valid) (hh : h.Valid)
    {r : Except CompileFault Script} (hr : g.Outcome r) : h.Outcome r := by
  have hshown := hw.sameShown
  have hsource : g.HasSource ↔ h.HasSource := by simp only [HasSource, hw.nodes]
  have houtput : g.HasOutput ↔ h.HasOutput := by simp only [HasOutput, hw.nodes]
  cases hr with
  | noSource hs => exact .noSource (hsource.not.mp hs)
  | noOutput hs ho => exact .noOutput (hsource.mp hs) (houtput.not.mp ho)
  | cycle hs ho hc hf =>
    rw [hw.node?_eq] at hf
    exact .cycle (hsource.mp hs) (houtput.mp ho) (hshown.isLeastCycle hc) hf
  | danglingInput hs ho ha hu hl =>
    exact .danglingInput (hsource.mp hs) (houtput.mp ho) (hshown.acyclic ha) (hshown.unfed hu)
      fun a hua => hl a (hshown.symm.unfed hua)
  | ok hs ho ha hu hp =>
    have horder : ∀ id ∈ g.order, g.Emitted id := fun id => hg.emitted_of_mem_order
    have hstats : h.stats g.order = g.stats g.order := by
      rw [hshown.stats_eq horder, stats, size, size, hw.nodes]
    have hspells := hshown.spells hg hh horder hp
    rw [hshown.order_eq hg hh] at hspells
    rw [← hstats, hshown.order_eq hg hh]
    exact .ok (hsource.mp hs) (houtput.mp ho) (hshown.acyclic ha)
      (fun a hua => hu a (hshown.symm.unfed hua)) hspells

end SameWires

/-- Two graphs out of drafts with the same nodes, whose connections were made in different orders,
compile to the same script with the same counts or to the same fault. -/
theorem compile_eq_of_perm {g h : Graph} (hg : g.Built) (hh : h.Built) (hn : g.nodes = h.nodes)
    (hc : g.connections.toList.Perm h.connections.toList) : g.compile = h.compile := by
  have hw : SameWires g h := ⟨hn, fun e => by simpa using hc.mem_iff (a := e)⟩
  have hout := hw.outcome hg.valid hh.valid hg.valid.outcome_compile
  exact hh.valid.outcome_unique hout hh.valid.outcome_compile

/-- The two filters that feed each other, connected in another order. -/
def loopedAgain : Graph :=
  ⟨looped.nodes, #[⟨⟨4097⟩, ⟨8192⟩⟩, ⟨⟨8193⟩, ⟨4096⟩⟩, ⟨⟨0⟩, ⟨12288⟩⟩]⟩

theorem loopedAgain_compile : looped.Built ∧ loopedAgain.Built ∧
    looped.connections.toList.Perm loopedAgain.connections.toList ∧
    loopedAgain.compile = .error (.cycle [⟨1⟩, ⟨2⟩]) := by
  have hbuilt : looped.Built := Valid.built (by decide +kernel)
  have hbuilt' : loopedAgain.Built := Valid.built (by decide +kernel)
  have hperm : looped.connections.toList.Perm loopedAgain.connections.toList := by decide
  have hcompile : looped.compile = .error (.cycle [⟨1⟩, ⟨2⟩]) := by cbv
  refine ⟨hbuilt, hbuilt', hperm, ?_⟩
  rw [← compile_eq_of_perm hbuilt hbuilt' rfl hperm]
  exact hcompile

end ClipGraph.Graph
