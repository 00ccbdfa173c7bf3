import ClipGraph.Proofs.AnyOrder
import ClipGraph.Proofs.Feeding

/-!
# What a listing holds

The script of a valid graph has a statement for every node of the order, in that order, with the
statements that bind slots behind the others. Each one follows from the graph and the order alone:
its variable from the place of its node, its input from the variable of the one node that feeds it.
A listing fails at a node that nothing feeds and for no other reason.
-/

namespace ClipGraph

open Relation (ReflTransGen TransGen)

namespace Graph

/-- The node whose clip a node reads. -/
def producer? (g : Graph) (id : NodeId) : Option NodeId := do
  let n ← g.node? id
  let input ← n.input? id
  let e ← g.incoming? input
  return e.fromNode

def var? (g : Graph) (order : List NodeId) (id : NodeId) : Option Variable :=
  match g.node? id with
  | some (.source _) => some (.source id)
  | some (.filter _) => some (.filter id (order.idxOf id))
  | _ => none

theorem isSome_var? (g : Graph) (order : List NodeId) (id : NodeId) :
    (g.var? order id).isSome = g.makesClip id := by
  unfold var? makesClip
  cases g.node? id with
  | none => rfl
  | some n => cases n <;> rfl

def input? (g : Graph) (order : List NodeId) (id : NodeId) : Option Variable :=
  (g.producer? id).bind (g.var? order)

/-- The statement that the script of an order has for a node. -/
def statement? (g : Graph) (order : List NodeId) (id : NodeId) : Option Statement :=
  match g.node? id with
  | some (.source s) => s.path.text?.map (.load id (Adapter.select s.hint).function)
  | some (.filter f) =>
    (g.input? order id).map (.call id (order.idxOf id) f.plugin f.function · f.arguments)
  | some (.output o) => (g.input? order id).map (.bind · o.slot)
  | none => none

/-- A program with one statement a node of the order: first the nodes that make clips, then those
that bind slots. -/
structure Spells (g : Graph) (order : List NodeId) (p : Program) : Prop where
  body : p.body.map some = (order.filter g.makesClip).map (g.statement? order)
  bindings : p.bindings.map some = (order.filter g.bindsSlot).map (g.statement? order)

/-- A node that has a statement and reads a clip, but has no connection into its input. -/
structure Unfed (g : Graph) (id : NodeId) : Prop where
  reads : (∃ o, g.node? id = some (.output o)) ∨ (∃ f, g.node? id = some (.filter f)) ∧
    ∃ e ∈ g.connections, e.fromNode = id ∨ e.toNode = id
  bare : ∀ e ∈ g.connections, e.toNode ≠ id

namespace Valid

variable {g : Graph}

/-- The connection found at the input of a node is the one that leads to the node. -/
theorem producer?_eq_some_iff (h : g.Valid) {id p : NodeId} :
    g.producer? id = some p ↔ g.Feeds p id := by
  simp only [producer?, Option.bind_eq_bind, Option.bind_eq_some_iff, Option.pure_def,
    Option.some.injEq, incoming?_eq_some_iff h.targets]
  constructor
  · rintro ⟨n, -, input, hin, e, ⟨he, rfl⟩, rfl⟩
    exact ⟨e, he, rfl, (Node.input?_eq_some_iff.mp hin).1⟩
  · rintro ⟨e, he, rfl, rfl⟩
    obtain ⟨n, hn, hin⟩ := h.target_node he
    exact ⟨n, hn, e.target, hin, e, ⟨he, rfl⟩, rfl⟩

/-- Whatever feeds a node has a variable. -/
theorem var?_of_feeds (h : g.Valid) {a b : NodeId} (hab : g.Feeds a b) (order : List NodeId) :
    ∃ v, g.var? order a = some v := by
  obtain ⟨e, he, rfl, -⟩ := hab
  obtain ⟨n, hn, hout⟩ := h.source_node he
  cases n with
  | source s => exact ⟨.source e.fromNode, by simp only [var?, hn]⟩
  | filter f => exact ⟨.filter e.fromNode (order.idxOf e.fromNode), by simp only [var?, hn]⟩
  | output o =>
    simp at hout

/-- A node has no producer just if no connection ends at it. -/
theorem producer?_eq_none_iff (h : g.Valid) {id : NodeId} :
    g.producer? id = none ↔ ∀ e ∈ g.connections, e.toNode ≠ id := by
  rw [Option.eq_none_iff_forall_ne_some]
  constructor
  · rintro hnone e he rfl
    exact hnone e.fromNode (h.producer?_eq_some_iff.mpr ⟨e, he, rfl, rfl⟩)
  · intro hbare p hp
    obtain ⟨e, he, -, hto⟩ := h.producer?_eq_some_iff.mp hp
    exact hbare e he hto

theorem exists_node (h : g.Valid) {id : NodeId} (hid : g.Emitted id) :
    ∃ n, g.node? id = some n := by
  rcases hid with ⟨o, ho⟩ | ⟨e, he, rfl | rfl⟩
  · exact ⟨_, ho⟩
  · exact (h.source_node he).imp fun _ => And.left
  · exact (h.target_node he).imp fun _ => And.left

/-- An emitted node is unfed just if it reads a clip and no connection brings one. -/
theorem unfed_iff (h : g.Valid) {id : NodeId} :
    g.Unfed id ↔ g.Emitted id ∧ (∀ s, g.node? id ≠ some (.source s)) ∧ g.producer? id = none := by
  rw [h.producer?_eq_none_iff]
  constructor
  · rintro ⟨⟨o, ho⟩ | ⟨⟨f, hf⟩, he⟩, hb⟩
    · exact ⟨.inl ⟨o, ho⟩, by simp [ho], hb⟩
    · exact ⟨.inr he, by simp [hf], hb⟩
  · rintro ⟨hid, hs, hb⟩
    refine ⟨?_, hb⟩
    obtain ⟨n, hn⟩ := h.exists_node hid
    cases n with
    | source s => exact absurd hn (hs s)
    | output o => exact .inl ⟨o, hn⟩
    | filter f =>
      rcases hid with ⟨o, ho⟩ | he
      · simp [hn] at ho
      · exact .inr ⟨⟨f, hn⟩, he⟩

section Order

variable {before after : List NodeId} {id a : NodeId}

/-- In the emission order whatever a connection comes from feeds the node that it leads to. -/
theorem fedBy_iff (h : g.Valid) (ho : g.order = before ++ id :: after) {e : Connection} :
    g.FedBy before id e ↔ e ∈ g.connections ∧ e.toNode = id := by
  constructor
  · exact fun he => ⟨he.mem, he.toNode⟩
  · rintro ⟨he, hto⟩
    have hready := (h.order_at ho).1
    obtain ⟨n, hn, hout⟩ := h.source_node he
    refine ⟨he, hto, (h.ends e he).2, hready.fed _ ⟨e, he, rfl, hto⟩, ?_⟩
    cases n with
    | source s => simp [makesClip, hn]
    | filter f => simp [makesClip, hn]
    | output o => simp at hout

/-- All that can be wrong with a place of the emission order is that nothing feeds its node. -/
theorem offends_iff (h : g.Valid) (ho : g.order = before ++ id :: after) {fault : CompileFault} :
    g.Offends before id fault ↔ g.Unfed id ∧ fault = .danglingInput id := by
  have hemitted := (h.order_at ho).1.emitted
  constructor
  · intro hid
    cases hid with
    | unknown hn =>
      obtain ⟨n, hn'⟩ := h.exists_node hemitted
      rw [hn] at hn'
      cases hn'
    | badPath hn hp =>
      obtain ⟨path, hpath⟩ := h.nodes _ (mem_of_node? hn)
      exact absurd hpath (hp path)
    | unfed hn hs hf =>
      refine ⟨h.unfed_iff.mpr ⟨hemitted, ?_, ?_⟩, rfl⟩
      · rintro s hsource
        rw [hn, Option.some.injEq] at hsource
        subst hsource
        cases hs
      · exact h.producer?_eq_none_iff.mpr fun e he hto => hf e ((h.fedBy_iff ho).mpr ⟨he, hto⟩)
  · rintro ⟨hu, rfl⟩
    obtain ⟨n, hn⟩ := h.exists_node hemitted
    refine .unfed hn ?_ fun e he => hu.bare e he.mem he.toNode
    cases n with
    | source s => exact absurd hn ((h.unfed_iff.mp hu).2.1 s)
    | filter f => rfl
    | output o => rfl

theorem idxOf_order (h : g.Valid) (ho : g.order = before ++ id :: after) :
    g.order.idxOf id = before.length := by
  rw [ho, List.idxOf_append, if_neg (h.order_at ho).1.fresh, List.idxOf_cons_self, Nat.zero_add]

/-- The variable that a node has by then is the one that it has in the whole order. -/
theorem var?_of_holds (h : g.Valid) (ho : g.order = before ++ id :: after) {v : Variable}
    (hv : g.Holds before a v) : g.var? g.order a = some v := by
  cases hv with
  | source hn => simp only [var?, hn]
  | @filter f earlier later hn hd =>
    have hplace : g.order = earlier ++ a :: (later ++ id :: after) := by simp [ho, hd]
    simp only [var?, hn, h.idxOf_order hplace]

/-- A line at a place of the order is the statement of the node there. -/
theorem statement?_of_line (h : g.Valid) (ho : g.order = before ++ id :: after) {st : Statement}
    (hst : g.Line before id st) : g.statement? g.order id = some st := by
  have hinput : ∀ {e v}, g.FedBy before id e → g.Holds before e.fromNode v →
      g.input? g.order id = some v := by
    intro e v he hv
    have hp : g.producer? id = some e.fromNode :=
      h.producer?_eq_some_iff.mpr ⟨e, he.mem, rfl, he.toNode⟩
    rw [input?, hp, Option.bind_some, h.var?_of_holds ho hv]
  cases hst with
  | load hn hp => simp only [statement?, hn, FilePath.text?_eq_some_iff.mpr hp, Option.map_some]
  | call hn he hv => simp only [statement?, hn, hinput he hv, h.idxOf_order ho, Option.map_some]
  | bind hn he hv => simp only [statement?, hn, hinput he hv, Option.map_some]

/-- What stands at the places of the emission order is what the graph says. -/
theorem spells_of_linesOf (h : g.Valid) {p : Program} (hp : g.LinesOf g.order p) :
    g.Spells g.order p := by
  have hlines : ∀ {keep : NodeId → Bool} {sts : List Statement},
      List.Forall₂ (fun cut st => g.Line cut.1 cut.2 st)
        ((cuts g.order).filter fun cut => keep cut.2) sts →
      sts.map some = (g.order.filter keep).map (g.statement? g.order) := by
    intro keep sts hsts
    rw [← map_snd_filter_cuts, List.map_map]
    refine (map_eq_map_of_forall₂ hsts fun cut hcut st hst => ?_).symm
    obtain ⟨after, ho⟩ := mem_cuts.mp (List.mem_filter.mp hcut).1
    exact h.statement?_of_line ho hst
  exact ⟨hlines hp.body, hlines hp.bindings⟩

end Order

/-- The program of a valid graph: it spells out the order, or fails at the least node that nothing
feeds. -/
theorem programFor_cases (h : g.Valid) :
    (∃ id, g.programFor g.order = .error (.danglingInput id) ∧ g.Unfed id ∧
      ∀ a, g.Unfed a → id.index ≤ a.index) ∨
    ((∀ a, ¬ g.Unfed a) ∧ ∃ p, g.programFor g.order = .ok p ∧ g.Spells g.order p) := by
  rcases listable_or_exists_firstFault g g.order with hl | ⟨fault, hfault⟩
  · refine .inr ⟨fun a ha => ?_, ?_⟩
    · have hmem := h.mem_order_of_bare (h.unfed_iff.mp ha).1 ha.bare
      obtain ⟨before, after, ho⟩ := List.append_of_mem hmem
      exact (listable_iff.mp hl).2 (before, a) (mem_cuts.mpr ⟨after, ho⟩) _
        ((h.offends_iff ho).mpr ⟨ha, rfl⟩)
    · obtain ⟨p, hp, hlines⟩ := hl.programFor
      exact ⟨p, hp, h.spells_of_linesOf hlines⟩
  · have herr := hfault.programFor
    cases hfault with
    | @inputTaken before after e hc _ he =>
      have hnodup := h.targets
      rw [hc, List.map_append, List.map_cons, List.nodup_append] at hnodup
      exact absurd rfl (hnodup.2.2 _ he _ List.mem_cons_self)
    | @node before after id fault _ ho hb hid =>
      obtain ⟨hu, rfl⟩ := (h.offends_iff ho).mp hid
      refine .inl ⟨id, herr, hu, fun a ha => (h.order_at ho).2 a ?_⟩
      -- a node that nothing feeds may come at any place, so it stands where it is the least
      refine ⟨(h.unfed_iff.mp ha).1, fun hm => ?_, ?_⟩
      · obtain ⟨earlier, later, hd⟩ := List.append_of_mem hm
        have hplace : g.order = earlier ++ a :: (later ++ id :: after) := by simp [ho, hd]
        exact hb (earlier, a) (mem_cuts.mpr ⟨later, hd⟩) _ ((h.offends_iff hplace).mpr ⟨ha, rfl⟩)
      · rintro b ⟨e, he, -, hto⟩
        exact absurd hto (ha.bare e he)

end Valid
end Graph
end ClipGraph
