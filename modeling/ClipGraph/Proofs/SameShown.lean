import ClipGraph.Proofs.Outcome

/-!
# What a script shows of a graph

A script has statements for the outputs and for whatever touches a connection, and it shows nothing
else of a graph. The emission order is the only one that follows its rule, and every input has one
connection at most. So graphs with the same connections, in whatever order, and with the same nodes
where there are statements have the same cycles, the same order and the same program.
-/

namespace ClipGraph.Graph

open Relation (TransGen)

/-- A list that takes the least node that may come next as long as there is one. -/
structure IsOrder (g : Graph) (l : List NodeId) : Prop where
  least : ∀ before id after, l = before ++ id :: after →
    g.Ready before id ∧ ∀ a, g.Ready before a → id.index ≤ a.index
  complete : ∀ a, ¬ g.Ready l a

/-- The emission order takes the least node that may come next, as long as there is one. -/
theorem Valid.isOrder_order {g : Graph} (h : g.Valid) : g.IsOrder g.order where
  least := fun _ _ _ ho => h.order_at ho
  complete := by
    intro a ha
    have hfed := ha.fed
    rw [← h.joins_eq] at hfed
    exact ha.fresh (h.numbered.mem_order_of_fed (h.listed_iff.mpr ha.emitted) hfed)

/-- Two such lists that agree up to some place agree from there on. -/
theorem IsOrder.rest_unique {g : Graph} (before : List NodeId) {rest rest' : List NodeId}
    (h : g.IsOrder (before ++ rest)) (h' : g.IsOrder (before ++ rest')) : rest = rest' := by
  induction rest generalizing before rest' with
  | nil =>
    cases rest' with
    | nil => rfl
    | cons b rest' =>
      have hb := (h'.least before b rest' rfl).1
      exact absurd hb (by simpa using h.complete b)
  | cons a rest ih =>
    obtain ⟨ha, hleast⟩ := h.least before a rest rfl
    cases rest' with
    | nil => exact absurd ha (by simpa using h'.complete a)
    | cons b rest' =>
      obtain ⟨hb, hleast'⟩ := h'.least before b rest' rfl
      have hab : a = b := NodeId.ext_index (Nat.le_antisymm (hleast b hb) (hleast' a ha))
      subst hab
      have hstep : ∀ l, before ++ a :: l = (before ++ [a]) ++ l := fun l => by simp
      rw [hstep] at h h'
      rw [ih (before ++ [a]) h h']

/-- There is one such order only. -/
theorem IsOrder.unique {g : Graph} {l l' : List NodeId} (h : g.IsOrder l) (h' : g.IsOrder l') :
    l = l' :=
  IsOrder.rest_unique [] h h'

/-- Two graphs with, in some order and number, the same connections, and with the same nodes wherever
one of them has a statement. -/
structure SameShown (g h : Graph) : Prop where
  connections : ∀ e, e ∈ g.connections ↔ e ∈ h.connections
  nodes : ∀ id, g.Emitted id ∨ h.Emitted id → g.node? id = h.node? id

namespace SameShown

variable {g h : Graph} {id : NodeId}

theorem symm (hw : SameShown g h) : SameShown h g :=
  ⟨fun e => (hw.connections e).symm, fun id hid => (hw.nodes id hid.symm).symm⟩

theorem emitted (hw : SameShown g h) (hid : g.Emitted id) : h.Emitted id := by
  have hnode := hw.nodes id (.inl hid)
  rcases hid with ⟨o, ho⟩ | ⟨e, he, hend⟩
  · exact .inl ⟨o, hnode ▸ ho⟩
  · exact .inr ⟨e, (hw.connections e).mp he, hend⟩

theorem node?_eq (hw : SameShown g h) (hid : g.Emitted id) : g.node? id = h.node? id :=
  hw.nodes id (.inl hid)

theorem feeds_eq (hw : SameShown g h) : g.Feeds = h.Feeds := by
  funext a b
  simp only [Feeds, hw.connections]

theorem ready (hw : SameShown g h) {placed : List NodeId} (hr : g.Ready placed id) :
    h.Ready placed id where
  emitted := hw.emitted hr.emitted
  fresh := hr.fresh
  fed := hw.feeds_eq ▸ hr.fed

theorem unfed (hw : SameShown g h) (hu : g.Unfed id) : h.Unfed id where
  reads := by
    have hid : g.Emitted id := hu.reads.imp_right And.right
    simpa only [hw.connections, hw.node?_eq hid] using hu.reads
  bare := by simpa only [hw.connections] using hu.bare

theorem isCycle (hw : SameShown g h) {c : List NodeId} (hc : g.IsCycle c) : h.IsCycle c where
  nodup := hc.nodup
  chain := hw.feeds_eq ▸ hc.chain
  closes := hw.feeds_eq ▸ hc.closes

theorem isLeastCycle (hw : SameShown g h) {c : List NodeId} (hc : g.IsLeastCycle c) :
    h.IsLeastCycle c := ⟨hw.isCycle hc.1, hw.feeds_eq ▸ hc.2⟩

theorem acyclic (hw : SameShown g h) (ha : g.Acyclic) : h.Acyclic := by
  simpa only [Acyclic, hw.feeds_eq] using ha

theorem isOrder (hw : SameShown g h) {l : List NodeId} (hl : g.IsOrder l) : h.IsOrder l where
  least := by
    intro before id after ho
    obtain ⟨hid, hleast⟩ := hl.least before id after ho
    exact ⟨hw.ready hid, fun a ha => hleast a (hw.symm.ready ha)⟩
  complete := fun a ha => hl.complete a (hw.symm.ready ha)

/-- Graphs that show the same have the same emission order. -/
theorem order_eq (hw : SameShown g h) (hg : g.Valid) (hh : h.Valid) : g.order = h.order :=
  (hw.isOrder hg.isOrder_order).unique hh.isOrder_order

/-- What feeds a node touches a connection, so both graphs have a variable for it. -/
theorem input?_eq (hw : SameShown g h) (hg : g.Valid) (hh : h.Valid) (order : List NodeId)
    (id : NodeId) : g.input? order id = h.input? order id := by
  have hproducer : g.producer? id = h.producer? id := by
    apply Option.ext
    intro p
    rw [hg.producer?_eq_some_iff, hh.producer?_eq_some_iff, hw.feeds_eq]
  rw [input?, input?, ← hproducer]
  refine Option.bind_congr fun p hp => ?_
  obtain ⟨e, he, hfrom, -⟩ := hg.producer?_eq_some_iff.mp hp
  simp only [var?, hw.node?_eq (.inr ⟨e, he, .inl hfrom⟩)]

theorem statement?_eq (hw : SameShown g h) (hg : g.Valid) (hh : h.Valid) (order : List NodeId)
    (hid : g.Emitted id) : g.statement? order id = h.statement? order id := by
  simp only [statement?, hw.node?_eq hid, hw.input?_eq hg hh]

/-- Graphs that show the same spell the same program. -/
theorem spells (hw : SameShown g h) (hg : g.Valid) (hh : h.Valid) {order : List NodeId}
    (horder : ∀ id ∈ order, g.Emitted id) {p : Program} (hp : g.Spells order p) :
    h.Spells order p := by
  have hstatements : ∀ keep : Graph → NodeId → Bool,
      (∀ id ∈ order, keep g id = keep h id) →
      (order.filter (keep g)).map (g.statement? order) =
        (order.filter (keep h)).map (h.statement? order) := by
    intro keep hkeep
    rw [List.filter_congr hkeep]
    refine List.map_congr_left fun id hid => ?_
    exact hw.statement?_eq hg hh order (horder id (List.mem_of_mem_filter hid))
  refine ⟨hp.body.trans (hstatements makesClip fun id hid => ?_),
    hp.bindings.trans (hstatements bindsSlot fun id hid => ?_)⟩
  · rw [makesClip, makesClip, hw.node?_eq (horder id hid)]
  · rw [bindsSlot, bindsSlot, hw.node?_eq (horder id hid)]

theorem countIn_eq (hw : SameShown g h) {order : List NodeId} (horder : ∀ id ∈ order, g.Emitted id)
    (p : Node → Bool) : g.countIn p order = h.countIn p order := by
  refine List.countP_congr fun id hid => ?_
  rw [hw.node?_eq (horder id hid)]

/-- Only what is counted among all nodes can differ. -/
theorem stats_eq (hw : SameShown g h) {order : List NodeId} (horder : ∀ id ∈ order, g.Emitted id) :
    h.stats order =
      { g.stats order with total := h.size, omitted := h.size - order.length } := by
  simp only [stats, hw.countIn_eq horder]

/-- Where one of the two graphs has a script, the other has the same program. -/
theorem compile_eq_ok (hw : SameShown g h) (hg : g.Valid) (hh : h.Valid) (hs : h.HasSource)
    (ho : h.HasOutput) {s : Script} (hok : g.compile = .ok s) :
    h.compile = .ok ⟨s.program,
      { s.stats with total := h.size, omitted := h.size - g.order.length }⟩ := by
  obtain ⟨hacyclic, hfed, hspells⟩ := hg.of_compile_eq_ok hok
  have horder : ∀ id ∈ g.order, g.Emitted id := fun id => hg.emitted_of_mem_order
  have hspells' : h.Spells h.order s.program := by
    rw [← hw.order_eq hg hh]
    exact hw.spells hg hh horder hspells
  have hout : h.Outcome (.ok ⟨s.program, h.stats h.order⟩) :=
    .ok hs ho (hw.acyclic hacyclic) (fun a ha => hfed a (hw.symm.unfed ha)) hspells'
  rw [hh.outcome_unique hh.outcome_compile hout, ← hw.order_eq hg hh, hw.stats_eq horder,
    hg.stats_of_compile_eq_ok hok]

end SameShown
end ClipGraph.Graph
