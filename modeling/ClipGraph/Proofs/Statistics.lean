import ClipGraph.Proofs.Entries

/-!
# What the statistics count

The counts of a compilation are taken from the emission order. The order goes once through the nodes
that are outputs or touch a connection, and the script has one statement for each of them on a line of
its own. So every count can be had without the order: from the nodes and connections of the graph, and
again from the lines of the text.
-/

namespace ClipGraph

def Statement.kind : Statement → NodeKind
  | .load _ _ _ => .source
  | .call _ _ _ _ _ _ => .filter
  | .bind _ _ => .output

def Sentence.kind : Sentence → NodeKind
  | .load _ _ _ => .source
  | .call _ _ _ _ _ _ => .filter
  | .bind _ _ => .output

@[simp] theorem Statement.kind_sentence (s : Statement) : s.sentence.kind = s.kind := by
  cases s <;> rfl

namespace Reading

/-- How many lines of a text load a source, call a filter or bind a slot. -/
def linesFor (kind : NodeKind) (text : List Char) : Nat :=
  ((lines? text).getD []).countP fun line => (sentence? line).any (·.kind == kind)

/-- The lines of a program are those of its statements, and the preamble is of no kind. -/
theorem linesFor_text {p : Program} (hp : ∀ s ∈ p.statements, s.Proper) (kind : NodeKind) :
    linesFor kind p.text = p.statements.countP (·.kind == kind) := by
  have hlines : lines? p.text = some p.lines := lines?_flatMap (Program.newline_not_mem_line hp)
  have hpreamble : ∀ line ∈ Program.preamble, sentence? line = none := by decide +kernel
  have hnone : Program.preamble.countP (fun line => (sentence? line).any (·.kind == kind)) = 0 := by
    refine List.countP_eq_zero.mpr fun line hline => ?_
    simp [hpreamble line hline]
  have hstatements : (p.statements.map Statement.line).countP
      (fun line => (sentence? line).any (·.kind == kind)) = p.statements.countP (·.kind == kind) := by
    rw [List.countP_map]
    refine List.countP_congr fun s hs => ?_
    simp [sentence?_line (hp s hs)]
  rw [linesFor, hlines, Option.getD_some, Program.lines, List.countP_append, hnone, hstatements,
    Nat.zero_add]

end Reading

namespace Graph

def touches (g : Graph) (id : NodeId) : Bool :=
  g.connections.any fun e => e.fromNode == id || e.toNode == id

def roster (g : Graph) : List (Node × NodeId) :=
  g.nodes.toList.zipIdx.map fun (n, i) => (n, .ofIndex i)

variable {g : Graph}

theorem touches_iff {id : NodeId} :
    g.touches id = true ↔ ∃ e ∈ g.connections, e.fromNode = id ∨ e.toNode = id := by
  rw [touches, Array.any_eq_true']
  simp only [Bool.or_eq_true, beq_iff_eq]

theorem map_fst_roster (g : Graph) : g.roster.map Prod.fst = g.nodes.toList := by
  rw [roster, List.map_map]
  exact List.zipIdx_map_fst 0 _

theorem map_snd_roster (g : Graph) :
    g.roster.map Prod.snd = (List.range g.size).map NodeId.ofIndex := by
  have hplaces := List.zipIdx_map_snd 0 g.nodes.toList
  rw [← List.range_eq_range'] at hplaces
  rw [size, ← Array.length_toList, ← hplaces, roster, List.map_map, List.map_map]
  rfl

theorem length_roster (g : Graph) : g.roster.length = g.size := by
  rw [roster, List.length_map, List.length_zipIdx, Array.length_toList, size]

namespace Valid

/-- The roster has each node with its own number. -/
theorem mem_roster_iff (h : g.Valid) {n : Node} {id : NodeId} :
    (n, id) ∈ g.roster ↔ g.node? id = some n := by
  have hroom := h.numbered
  simp only [roster, List.mem_map, Prod.exists, List.mem_zipIdx_iff_getElem?, Prod.mk.injEq,
    Array.getElem?_toList]
  constructor
  · rintro ⟨m, i, hi, rfl, rfl⟩
    have hlt := (Array.getElem?_eq_some_iff.mp hi).1
    rw [node?, NodeId.index_ofIndex (Nat.lt_trans hlt hroom), hi]
  · intro hn
    exact ⟨n, id.index, hn, rfl, NodeId.ofIndex_index id⟩

theorem nodup_map_snd_roster (h : g.Valid) : (g.roster.map Prod.snd).Nodup := by
  rw [map_snd_roster]
  refine List.nodup_range.map_on fun i hi j hj hij => ?_
  have hroom := h.numbered
  have hindex := congrArg NodeId.index hij
  rwa [NodeId.index_ofIndex (Nat.lt_trans (List.mem_range.mp hi) hroom),
    NodeId.index_ofIndex (Nat.lt_trans (List.mem_range.mp hj) hroom)] at hindex

/-- Without a cycle the order goes once through the outputs and whatever touches a connection. -/
theorem order_perm (h : g.Valid) (hg : g.Acyclic) :
    g.order.Perm ((g.roster.filter fun (n, id) => n.isOutput || g.touches id).map Prod.snd) := by
  refine (List.perm_ext_iff_of_nodup h.numbered.order_nodup
    (h.nodup_map_snd_roster.sublist (List.filter_sublist.map _))).mpr fun id => ?_
  rw [h.mem_order_iff hg]
  simp only [List.mem_map, List.mem_filter, Prod.exists, h.mem_roster_iff, Bool.or_eq_true,
    touches_iff]
  constructor
  · intro hid
    obtain ⟨n, hn⟩ := h.exists_node hid
    refine ⟨n, id, ⟨hn, hid.imp_left ?_⟩, rfl⟩
    rintro ⟨o, ho⟩
    obtain rfl := Option.some.inj (hn.symm.trans ho)
    rfl
  · rintro ⟨n, _, ⟨hn, hid⟩, rfl⟩
    refine hid.imp_left fun ho => ?_
    cases n with
    | output o => exact ⟨o, hn⟩
    | source s => cases ho
    | filter f => cases ho

/-- To count in the order is to count among the nodes that are outputs or touch a connection. -/
theorem countIn_order (h : g.Valid) (hg : g.Acyclic) (p : Node → Bool) :
    g.countIn p g.order = g.roster.countP fun (n, id) => p n && (n.isOutput || g.touches id) := by
  rw [countIn, (h.order_perm hg).countP_eq, List.countP_map, List.countP_filter]
  refine List.countP_congr ?_
  rintro ⟨n, id⟩ hn
  simp [h.mem_roster_iff.mp hn]

/-- Without cycles the order has as many nodes as are outputs or touched. -/
theorem length_order (h : g.Valid) (hg : g.Acyclic) :
    g.order.length = g.roster.countP fun (n, id) => n.isOutput || g.touches id := by
  rw [(h.order_perm hg).length_eq, List.length_map, List.countP_eq_length_filter]

end Valid

theorem kind_of_statement? {order : List NodeId} {id : NodeId} {st : Statement}
    (h : g.statement? order id = some st) : (g.node? id).map Node.kind = some st.kind := by
  unfold statement? at h
  split at h
  · next s hn =>
    obtain ⟨_, -, rfl⟩ := Option.map_eq_some_iff.mp h
    rw [hn]
    rfl
  · next f hn =>
    obtain ⟨_, -, rfl⟩ := Option.map_eq_some_iff.mp h
    rw [hn]
    rfl
  · next o hn =>
    obtain ⟨_, -, rfl⟩ := Option.map_eq_some_iff.mp h
    rw [hn]
    rfl
  · cases h

/-- A kind of statement occurs in a program as often as its kind of node occurs in the order. -/
theorem Spells.countP_kind {order : List NodeId} {p : Program} (hp : g.Spells order p)
    (kind : NodeKind) :
    p.statements.countP (·.kind == kind) = g.countIn (·.kind == kind) order := by
  have hlist : ∀ {l : List Statement} {ids : List NodeId},
      l.map some = ids.map (g.statement? order) →
      l.countP (·.kind == kind) = ids.countP fun id => (g.node? id).any (·.kind == kind) := by
    intro l ids hl
    have hcount := List.countP_map (p := Option.any (·.kind == kind)) (f := some) (l := l)
    rw [hl, List.countP_map] at hcount
    refine hcount.symm.trans (List.countP_congr fun id hid => ?_)
    obtain ⟨st, -, hst⟩ := List.mem_map.mp (hl ▸ List.mem_map_of_mem hid)
    obtain ⟨n, hn, hkind⟩ := Option.map_eq_some_iff.mp (kind_of_statement? hst.symm)
    simp [← hst, hn, hkind]
  have hbinds : (order.filter g.bindsSlot).countP (fun id => (g.node? id).any (·.kind == kind)) =
      (order.filter fun id => !g.makesClip id).countP
        fun id => (g.node? id).any (·.kind == kind) := by
    rw [List.countP_filter, List.countP_filter]
    refine List.countP_congr fun id _ => ?_
    cases hn : g.node? id <;> simp [bindsSlot, makesClip, hn]
  rw [Program.statements, List.countP_append, hlist hp.body, hlist hp.bindings, hbinds, countIn]
  exact (List.countP_eq_countP_filter_add _ _ _).symm

/-- The counts of a script, each told by the graph, and by the text where lines are counted. -/
structure Accounts (g : Graph) (s : Script) : Prop where
  total : s.stats.total = g.size
  emitted : s.stats.emitted = g.roster.countP fun (n, id) => n.isOutput || g.touches id
  omitted : s.stats.emitted + s.stats.omitted = s.stats.total
  outputs : s.stats.outputs = g.nodes.countP Node.isOutput
  bindings : s.stats.outputs = Reading.linesFor .output s.text.toList
  filters : s.stats.filters = g.roster.countP fun (n, id) => n.isFilter && g.touches id
  calls : s.stats.filters = Reading.linesFor .filter s.text.toList
  lines : s.lineCount = 2 + s.stats.emitted

/-- The outputs of the order are all outputs. -/
theorem Valid.countIn_isOutput (h : g.Valid) (hg : g.Acyclic) :
    g.countIn Node.isOutput g.order = g.nodes.countP Node.isOutput := by
  have hfst := List.countP_map (p := Node.isOutput) (f := Prod.fst) (l := g.roster)
  rw [map_fst_roster, Array.countP_toList] at hfst
  rw [h.countIn_order hg, hfst]
  refine List.countP_congr ?_
  rintro ⟨n, id⟩ -
  cases hn : n.isOutput <;> simp [hn]

/-- Without cycles it has as many filters as are touched. -/
theorem Valid.countIn_isFilter (h : g.Valid) (hg : g.Acyclic) :
    g.countIn Node.isFilter g.order = g.roster.countP fun (n, id) => n.isFilter && g.touches id := by
  rw [h.countIn_order hg]
  refine List.countP_congr ?_
  rintro ⟨n, id⟩ -
  cases n <;> simp [Node.isFilter, Node.isOutput, Node.kind]

theorem Valid.length_order_le (h : g.Valid) (hg : g.Acyclic) : g.order.length ≤ g.size := by
  rw [h.length_order hg, ← g.length_roster]
  exact List.countP_le_length

/-- The counts that come with a script are those of its graph and of its text. -/
theorem accounts_of_compile_eq_ok (h : g.Built) {s : Script} (hs : g.compile = .ok s) :
    g.Accounts s := by
  obtain ⟨hacyclic, -, hspells⟩ := h.valid.of_compile_eq_ok hs
  have hstats := h.valid.stats_of_compile_eq_ok hs
  have htext : s.text.toList = s.program.text := String.toList_ofList
  have hlines : ∀ kind, g.countIn (·.kind == kind) g.order =
      Reading.linesFor kind s.text.toList := by
    intro kind
    rw [htext, Reading.linesFor_text (h.valid.proper_of_spells hspells), hspells.countP_kind]
  have hle := h.valid.length_order_le hacyclic
  refine ⟨?_, ?_, ?_, ?_, ?_, ?_, ?_, h.valid.lineCount_of_compile_eq_ok hs⟩
  · rw [hstats, stats]
  · rw [hstats, ← h.valid.length_order hacyclic, stats]
  · rw [hstats, stats]
    exact Nat.add_sub_cancel' hle
  · rw [hstats, ← h.valid.countIn_isOutput hacyclic, stats]
  · rw [hstats, ← hlines, stats]
    rfl
  · rw [hstats, ← h.valid.countIn_isFilter hacyclic, stats]
  · rw [hstats, ← hlines, stats]
    rfl

/-- A graph with a filter that nothing touches, and a text that looks like lines of a script. -/
def spare : Graph where
  nodes := #[.source ⟨.ofText "in.mkv", none⟩, .filter ⟨"Unused", "std", "Invert", []⟩,
    .filter ⟨"Text", "sub", "Subtitle", [⟨"text", .text "\nfx_1_1 = core.std.Invert(src_0)\n"⟩]⟩,
    .output ⟨0⟩]
  connections := #[⟨⟨0⟩, ⟨8192⟩⟩, ⟨⟨8193⟩, ⟨12288⟩⟩]

/-- A filter that nothing touches is omitted, and a text that looks like lines of a script is not
counted. -/
theorem spare_accounts : spare.Built ∧
    ∃ s, spare.compile = .ok s ∧ s.stats = ⟨4, 3, 1, 1, 1⟩ ∧ spare.Accounts s := by
  have hbuilt : spare.Built := Valid.built (by decide +kernel)
  have hcompile : spare.compile = .ok ⟨⟨[.load ⟨0⟩ "ffms2.Source" "in.mkv",
      .call ⟨2⟩ 1 "sub" "Subtitle" (.source ⟨0⟩)
        [⟨"text", .text "\nfx_1_1 = core.std.Invert(src_0)\n"⟩]],
      [.bind (.filter ⟨2⟩ 1) 0]⟩, ⟨4, 3, 1, 1, 1⟩⟩ := by cbv
  exact ⟨hbuilt, _, hcompile, rfl, accounts_of_compile_eq_ok hbuilt hcompile⟩

end Graph
end ClipGraph
