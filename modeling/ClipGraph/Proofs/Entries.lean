import ClipGraph.CommandLine.Run
import ClipGraph.Proofs.Reading

/-!
# Listings beside scripts

The listing of a graph goes through the emission order and the script has one statement for every node
of it, but with the outputs behind the others. Taken kind by kind the two agree: an entry for a source
or a filter stands where the statement stands that makes its clip, and the place that it shows is the
one in the name of the filter's variable; an entry for an output stands where its slot is bound.
-/

namespace ClipGraph

/-- A line of a listing: a node and its place in the order. -/
structure Entry where
  place : Nat
  id : NodeId
  node : Node

namespace Entry

def text (e : Entry) : String := CommandLine.orderLine e.place e.id e.node

/-- The line is that of the node, with the number and the place of the entry. -/
def Says (e : Entry) (line : Sentence) : Prop :=
  match e.node with
  | .source s => ∃ path, line = .load e.id (Adapter.select s.hint).function path
  | .filter f => ∃ input, line = .call e.id e.place f.plugin f.function input
      (f.arguments.map fun a => (a.name, a.value.spelling))
  | .output o => ∃ input, line = .bind input o.slot

end Entry

namespace Script

theorem count_newline (lines : List (List Char)) (h : ∀ l ∈ lines, '\n' ∉ l) :
    (lines.flatMap (· ++ ['\n'])).count '\n' = lines.length := by
  induction lines with
  | nil => rfl
  | cons l rest ih =>
    obtain ⟨hl, hrest⟩ := List.forall_mem_cons.mp h
    simp only [List.flatMap_cons, List.count_append, List.count_eq_zero.mpr hl, ih hrest,
      List.length_cons, List.count_singleton_self]
    omega

theorem getLast?_lines (lines : List (List Char)) :
    (lines.flatMap (· ++ ['\n'])).getLast?.all (· == '\n') = true := by
  induction lines with
  | nil => rfl
  | cons l rest ih =>
    rw [List.flatMap_cons, List.getLast?_append]
    cases h : (rest.flatMap (· ++ ['\n'])).getLast? with
    | none => simp
    | some c => simpa [h] using ih

/-- The lines behind the preamble are those of the statements. -/
theorem countLines_text {p : Program} (hp : ∀ s ∈ p.statements, s.Proper) :
    countLines p.text = Program.preamble.length + p.statements.length := by
  rw [countLines, Program.text, getLast?_lines, count_newline _ (Program.newline_not_mem_line hp),
    if_pos rfl, Program.lines, List.length_append, List.length_map, Nat.add_zero]

end Script

namespace Graph

def entries (g : Graph) : List Entry :=
  g.order.zipIdx.filterMap fun (id, place) => (g.node? id).map (⟨place, id, ·⟩)

/-- A listing is the lines of its entries. -/
theorem orderText_eq (g : Graph) :
    CommandLine.orderText g = String.join (g.entries.map Entry.text) := by
  rw [CommandLine.orderText, entries, List.map_filterMap]
  simp only [Option.map_map]
  rfl

variable {g : Graph} {e : Entry}

theorem mem_entries_iff : e ∈ g.entries ↔
    g.order[e.place]? = some e.id ∧ g.node? e.id = some e.node := by
  simp only [entries, List.mem_filterMap, Prod.exists, List.mem_zipIdx_iff_getElem?,
    Option.map_eq_some_iff]
  constructor
  · rintro ⟨id, place, hid, n, hn, rfl⟩
    exact ⟨hid, hn⟩
  · rintro ⟨hid, hn⟩
    exact ⟨e.id, e.place, hid, e.node, hn, rfl⟩

namespace Valid

/-- Every node of the order has an entry, with its place. -/
theorem zipIdx_entries (h : g.Valid) :
    g.entries.map (fun e => (e.id, e.place)) = g.order.zipIdx := by
  have hkept : ∀ p ∈ g.order.zipIdx, ((g.node? p.1).map (Entry.mk p.2 p.1 ·)).map
      (fun e => (e.id, e.place)) = some p := by
    intro p hp
    have hmem : p.1 ∈ g.order := List.mem_of_getElem? (List.mem_zipIdx_iff_getElem?.mp hp)
    obtain ⟨n, hn⟩ := h.exists_node (h.emitted_of_mem_order hmem)
    rw [hn]
    rfl
  rw [entries, List.map_filterMap, List.filterMap_congr hkept, List.filterMap_some]

/-- The entries list the emission order. -/
theorem map_id_entries (h : g.Valid) : g.entries.map Entry.id = g.order := by
  have hfst := congrArg (List.map Prod.fst) h.zipIdx_entries
  rwa [List.map_map, List.zipIdx_map_fst] at hfst

theorem map_place_entries (h : g.Valid) :
    g.entries.map Entry.place = List.range g.order.length := by
  have hsnd := congrArg (List.map Prod.snd) h.zipIdx_entries
  rwa [List.map_map, List.zipIdx_map_snd, ← List.range_eq_range'] at hsnd

/-- The statement that the script has for the node of an entry is the one that the entry says. -/
theorem says_of_statement? (h : g.Valid) (he : e ∈ g.entries) {st : Statement}
    (hst : g.statement? g.order e.id = some st) : e.Says st.sentence := by
  obtain ⟨hplace, hn⟩ := mem_entries_iff.mp he
  obtain ⟨hlt, hid⟩ := List.getElem?_eq_some_iff.mp hplace
  have hidx : g.order.idxOf e.id = e.place := by
    rw [← hid, h.numbered.order_nodup.idxOf_getElem]
  obtain ⟨place, id, n⟩ := e
  rw [statement?, hn] at hst
  cases n with
  | source s =>
    obtain ⟨path, -, rfl⟩ := Option.map_eq_some_iff.mp hst
    exact ⟨path, rfl⟩
  | filter f =>
    obtain ⟨input, -, rfl⟩ := Option.map_eq_some_iff.mp hst
    refine ⟨input, ?_⟩
    rw [hidx]
    rfl
  | output o =>
    obtain ⟨input, -, rfl⟩ := Option.map_eq_some_iff.mp hst
    exact ⟨input, rfl⟩

/-- The entries of one kind say, one by one, the statements for the nodes of that kind. -/
theorem forall₂_says (h : g.Valid) {p : NodeId → Bool} {q : Entry → Bool}
    (hpq : ∀ e ∈ g.entries, p e.id = q e) {statements : List Statement}
    (hs : statements.map some = (g.order.filter p).map (g.statement? g.order)) :
    List.Forall₂ Entry.Says (g.entries.filter q) (statements.map Statement.sentence) := by
  have hids : g.order.filter p = (g.entries.filter q).map Entry.id := by
    rw [← h.map_id_entries, List.filter_map]
    exact congrArg _ (List.filter_congr hpq)
  have heq : List.Forall₂ Eq ((g.entries.filter q).map fun e => g.statement? g.order e.id)
      (statements.map some) := by
    rw [List.forall₂_eq_eq_eq, hs, hids, List.map_map]
    rfl
  rw [List.forall₂_map_left_iff, List.forall₂_map_right_iff] at heq
  have hmem : ∀ e ∈ g.entries.filter q, e ∈ g.entries := fun e he => (List.mem_filter.mp he).1
  rw [List.forall₂_map_right_iff]
  exact ((List.forall₂_and_left _ _).mpr ⟨hmem, heq⟩).imp fun e st ⟨he, hst⟩ =>
    h.says_of_statement? he hst

end Valid

/-- The entries that make clips say the statements that do, and those of outputs the others. -/
theorem Valid.forall₂_entries (h : g.Valid) {p : Program} (hp : g.Spells g.order p) :
    List.Forall₂ Entry.Says (g.entries.filter (!·.node.isOutput)) (p.body.map Statement.sentence) ∧
      List.Forall₂ Entry.Says (g.entries.filter (·.node.isOutput))
        (p.bindings.map Statement.sentence) := by
  constructor
  · refine h.forall₂_says (fun e he => ?_) hp.body
    rw [makesClip, (mem_entries_iff.mp he).2, Option.any_some]
  · refine h.forall₂_says (fun e he => ?_) hp.bindings
    rw [bindsSlot, (mem_entries_iff.mp he).2, Option.any_some]

/-- A script has a line behind the preamble for every emitted node. -/
theorem Valid.lineCount_of_compile_eq_ok (h : g.Valid) {s : Script} (hs : g.compile = .ok s) :
    s.lineCount = Program.preamble.length + s.stats.emitted := by
  obtain ⟨-, -, hspells⟩ := h.of_compile_eq_ok hs
  have hstatements : s.program.statements.length = g.order.length := by
    obtain ⟨hbody, hbindings⟩ := h.forall₂_entries hspells
    have hbody := hbody.length_eq
    have hbindings := hbindings.length_eq
    rw [List.length_map] at hbody hbindings
    rw [Program.statements, List.length_append, ← hbody, ← hbindings, Nat.add_comm, ← h.map_id_entries,
      List.length_map]
    exact (List.length_eq_length_filter_add _).symm
  rw [Script.lineCount, Script.text, String.toList_ofList,
    Script.countLines_text (h.proper_of_spells hspells), hstatements, h.stats_of_compile_eq_ok hs, stats]

end Graph
end ClipGraph
