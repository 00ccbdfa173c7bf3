import ClipGraph.Proofs.Commands

/-!
# Listings as tables

A listing is printed to be taken apart again: at the line feeds into lines, and each line at the tabs
into the place, the number, the kind and the label of a node. Numbers and kinds survive this. A label
is a name or a path from the project and is printed as it is, so the line feeds and tabs in it are
taken for those of the table. The table read back is the one that was meant exactly if no label has
any.
-/

namespace ClipGraph

/-- The pieces of a text hold what it holds, save for the separator. -/
theorem mem_and_ne_of_mem_splitOn {c d : Char} {cs piece : List Char} (h : piece ∈ cs.splitOn c)
    (hd : d ∈ piece) : d ∈ cs ∧ d ≠ c := by
  induction cs generalizing piece with
  | nil =>
    rw [List.splitOn_nil, List.mem_singleton] at h
    exact absurd (h ▸ hd) List.not_mem_nil
  | cons a cs ih =>
    obtain ⟨first, rest, hsplit⟩ := List.exists_cons_of_ne_nil (List.splitOn_ne_nil c cs)
    rw [List.splitOn_cons_eq_if_modifyHead, hsplit, List.modifyHead_cons] at h
    simp only [hsplit, List.mem_cons] at ih
    have hrest : ∀ p, p = first ∨ p ∈ rest → d ∈ p → d ∈ a :: cs ∧ d ≠ c :=
      fun p hp hdp => (ih hp hdp).imp_left (List.mem_cons_of_mem _)
    split at h
    · rcases List.mem_cons.mp h with rfl | h
      · exact absurd hd List.not_mem_nil
      · exact hrest piece (List.mem_cons.mp h) hd
    · next hac =>
      rcases List.mem_cons.mp h with rfl | h
      · rcases List.mem_cons.mp hd with rfl | hd
        · exact ⟨List.mem_cons_self, by simpa using hac⟩
        · exact hrest first (.inl rfl) hd
      · exact hrest piece (.inr h) hd

/-- What stands before the first separator belongs to the first piece. -/
theorem splitOn_append_of_not_mem {c : Char} {cs : List Char} (h : c ∉ cs) (rest : List Char) :
    (cs ++ rest).splitOn c = (rest.splitOn c).modifyHead (cs ++ ·) := by
  induction cs with
  | nil =>
    cases hsplit : rest.splitOn c <;> simp [hsplit]
  | cons a cs ih =>
    rw [List.mem_cons, not_or] at h
    rw [List.cons_append, List.splitOn_cons_eq_if_modifyHead, ih h.2, List.modifyHead_modifyHead,
      if_neg (by simpa using Ne.symm h.1)]
    rfl

/-- Pieces that end in separators are split one by one, whatever is in them. -/
theorem splitOn_flatMap_append {c : Char} (pieces : List (List Char)) (rest : List Char) :
    (pieces.flatMap (· ++ [c]) ++ rest).splitOn c =
      pieces.flatMap (List.splitOn c) ++ rest.splitOn c := by
  induction pieces with
  | nil => rfl
  | cons piece pieces ih =>
    rw [List.flatMap_cons, List.append_assoc, List.append_assoc, List.singleton_append,
      List.splitOn_append_cons_self, ih, List.flatMap_cons, List.append_assoc]

namespace Table

/-- The cells of a printed table. What stands behind the last line feed is no line. -/
def rows (text : List Char) : List (List (List Char)) :=
  (text.splitOn '\n').dropLast.map (List.splitOn '\t')

theorem rows_flatMap (lines : List (List Char)) :
    rows (lines.flatMap (· ++ ['\n'])) =
      lines.flatMap fun line => (line.splitOn '\n').map (List.splitOn '\t') := by
  have hsplit := splitOn_flatMap_append (c := '\n') lines []
  rw [List.append_nil, List.splitOn_nil] at hsplit
  rw [rows, hsplit, List.dropLast_concat, List.map_flatMap]

/-- No cell holds a tab or a line feed. -/
theorem ne_of_mem_cell {text cell : List Char} {row : List (List Char)} (hrow : row ∈ rows text)
    (hcell : cell ∈ row) {d : Char} (hd : d ∈ cell) : d ≠ '\t' ∧ d ≠ '\n' := by
  obtain ⟨line, hline, rfl⟩ := List.mem_map.mp hrow
  obtain ⟨hmem, htab⟩ := mem_and_ne_of_mem_splitOn hcell hd
  exact ⟨htab, (mem_and_ne_of_mem_splitOn (List.mem_of_mem_dropLast hline) hmem).2⟩

end Table

namespace Entry

def label (e : Entry) : List Char := e.node.label.toList

/-- What comes before the label. -/
def stub (e : Entry) : List (List Char) :=
  [decimal e.place, decimal e.id.index, e.node.kind.title.toList]

def fields (e : Entry) : List (List Char) := e.stub ++ [e.label]

/-- What is read for an entry: its fields, with the label taken apart. Only the first line of a label
comes behind the other fields. -/
def rows (e : Entry) : List (List (List Char)) :=
  ((e.label.splitOn '\n').map (List.splitOn '\t')).modifyHead (e.stub ++ ·)

def line (e : Entry) : List Char := e.stub.flatMap (· ++ ['\t']) ++ e.label

theorem toList_text (e : Entry) : e.text.toList = e.line ++ ['\n'] := by
  have hplain : ∀ s : String, toString s = s := fun _ => rfl
  have hid : e.id.text.toList = decimal e.id.index := Nat.toList_repr
  simp [text, CommandLine.orderLine, line, stub, label, hplain, hid, decimal]

/-- No number and no kind is taken apart. -/
theorem ne_of_mem_stub {e : Entry} {field : List Char} (h : field ∈ e.stub) {d : Char}
    (hd : d ∈ field) : d ≠ '\t' ∧ d ≠ '\n' := by
  have hdigit : ∀ {n : Nat}, d ∈ decimal n → d ≠ '\t' ∧ d ≠ '\n' := by
    intro n hn
    have hd := isDigit_of_mem_decimal hn
    constructor <;> rintro rfl <;> simp at hd
  have htitle : ∀ kind : NodeKind, ∀ d ∈ kind.title.toList, d ≠ '\t' ∧ d ≠ '\n' := by
    intro kind
    cases kind <;> simp [NodeKind.title]
  simp only [stub, List.mem_cons, List.not_mem_nil, or_false] at h
  rcases h with rfl | rfl | rfl
  · exact hdigit hd
  · exact hdigit hd
  · exact htitle _ d hd

/-- The line of an entry is read as its rows. -/
theorem rows_line (e : Entry) :
    (e.line.splitOn '\n').map (List.splitOn '\t') = e.rows := by
  have hstub : '\n' ∉ e.stub.flatMap (· ++ ['\t']) := by
    intro h
    obtain ⟨field, hfield, h⟩ := List.mem_flatMap.mp h
    rcases List.mem_append.mp h with h | h
    · exact (ne_of_mem_stub hfield h).2 rfl
    · simp at h
  have hfields : e.stub.flatMap (List.splitOn '\t') = e.stub := by
    rw [List.flatMap_congr fun field hfield => List.splitOn_eq_singleton fun hd =>
      (ne_of_mem_stub hfield hd).1 rfl]
    exact List.flatMap_singleton' _
  rw [line, splitOn_append_of_not_mem hstub, rows]
  cases e.label.splitOn '\n' with
  | nil => rfl
  | cons first rest =>
    simp only [List.modifyHead_cons, List.map_cons, splitOn_flatMap_append, hfields]

/-- An entry is read as it is meant if nothing in its label looks like the table. -/
theorem rows_eq_fields {e : Entry} (htab : '\t' ∉ e.label) (hline : '\n' ∉ e.label) :
    e.rows = [e.fields] := by
  rw [rows, List.splitOn_eq_singleton hline, List.map_singleton, List.splitOn_eq_singleton htab]
  rfl

end Entry

namespace Graph

variable {g : Graph}

theorem toList_orderText (g : Graph) : (CommandLine.orderText g).toList =
    (g.entries.map Entry.line).flatMap (· ++ ['\n']) := by
  rw [orderText_eq, String.toList_join, List.flatMap_map, List.flatMap_map]
  exact List.flatMap_congr fun e _ => e.toList_text

theorem rows_orderText (g : Graph) :
    Table.rows (CommandLine.orderText g).toList = g.entries.flatMap Entry.rows := by
  rw [toList_orderText, Table.rows_flatMap, List.flatMap_map]
  exact List.flatMap_congr fun e _ => e.rows_line

/-- Nothing that is read holds a tab or a line feed, so only labels without any are read back. -/
theorem rows_orderText_eq_fields_iff :
    Table.rows (CommandLine.orderText g).toList = g.entries.map Entry.fields ↔
      ∀ e ∈ g.entries, '\t' ∉ e.label ∧ '\n' ∉ e.label := by
  constructor
  · intro h e he
    have hrow : e.fields ∈ Table.rows (CommandLine.orderText g).toList :=
      h ▸ List.mem_map_of_mem he
    have hcell : e.label ∈ e.fields := List.mem_append_right _ (List.mem_singleton_self _)
    exact ⟨fun hd => (Table.ne_of_mem_cell hrow hcell hd).1 rfl,
      fun hd => (Table.ne_of_mem_cell hrow hcell hd).2 rfl⟩
  · intro h
    rw [rows_orderText, List.flatMap_congr fun e he => Entry.rows_eq_fields (h e he).1 (h e he).2]
    exact List.map_eq_flatMap.symm

end Graph

namespace CommandLine

/-- What can be read off a listing: for each node of the emission order what stands for its entry, and
that is what the entry means exactly if no label gets in the way. -/
structure ReadsBack (g : Graph) (listing : String) : Prop where
  ids : g.entries.map Entry.id = g.order
  places : g.entries.map Entry.place = List.range g.order.length
  nodes : ∀ e ∈ g.entries, g.node? e.id = some e.node
  rows : Table.rows listing.toList = g.entries.flatMap Entry.rows
  exact_iff : Table.rows listing.toList = g.entries.map Entry.fields ↔
    ∀ e ∈ g.entries, '\t' ∉ e.label ∧ '\n' ∉ e.label

variable {settings : Settings} {t : FileTree} {project : FilePath} {g : Graph}

/-- What `order` prints of a project is read back row by row. -/
theorem readsBack_of_perform {text : String}
    (h : (t.after (perform settings (.order project))).1 = .ok text) :
    ∃ g, (t.after (loadGraph project)).1 = .ok g ∧ ReadsBack g text := by
  obtain ⟨g, hgraph, -, rfl⟩ := order_eq_ok_iff.mp h
  have hvalid := valid_of_loadGraph hgraph
  exact ⟨g, hgraph, hvalid.map_id_entries, hvalid.map_place_entries,
    fun e he => (Graph.mem_entries_iff.mp he).2, g.rows_orderText, Graph.rows_orderText_eq_fields_iff⟩

/-- Whenever `order` succeeds, as a command or as a run, the table that it prints is that of the graph of
its project. -/
theorem readsBack_of_order (t : FileTree) (project : FilePath) :
    (∀ (settings : Settings) (text : String),
      (t.after (perform settings (.order project))).1 = .ok text →
      ∃ g, (t.after (loadGraph project)).1 = .ok g ∧ ReadsBack g text) ∧
    ∀ {environment : Environment} {config : Option FilePath} {t' : FileTree}
      {arguments : List String} {outcome : Outcome},
    Invocation.ofArguments arguments = .ok ⟨config, .order project⟩ →
    t.after (run environment arguments) = (outcome, t') → outcome.status = 0 →
    ∃ settings found g, Starts environment config t settings found ∧
      (found.after (loadGraph project)).1 = .ok g ∧ ReadsBack g outcome.output := by
  refine ⟨fun settings text => readsBack_of_perform, ?_⟩
  intro environment config t' arguments outcome harguments hrun hok
  rcases starts_or_fails environment config t with ⟨settings, found, hstart⟩ | ⟨fault, hfails⟩
  · rw [hstart.after_run harguments] at hrun
    obtain ⟨rfl, -⟩ := Prod.mk.inj hrun
    obtain ⟨text, htext⟩ := Outcome.status_ofResult_eq_zero_iff.mp hok
    obtain ⟨g, hgraph, hreads⟩ := readsBack_of_perform htext
    rw [htext]
    exact ⟨settings, found, g, hstart, hgraph, hreads⟩
  · rw [after_run harguments, hfails] at hrun
    obtain ⟨rfl, -⟩ := Prod.mk.inj hrun
    obtain ⟨text, htext⟩ := Outcome.status_ofResult_eq_zero_iff.mp hok
    cases htext

theorem order_arguments : Invocation.ofArguments ["order", "p.json"] =
    .ok ⟨none, .order (.ofText "p.json")⟩ := by decide +kernel

/-- What `order` answers without any settings, for a project that is there and has no cycle. -/
theorem after_run_order (hgraph : (t.after (loadGraph (.ofText "p.json"))).1 = .ok g)
    (hvalidate : g.validate = .ok ()) :
    t.after (run ⟨none, none⟩ ["order", "p.json"]) = (⟨0, orderText g, ""⟩, t) := by
  rw [(standard_starts t).after_run order_arguments, after_order, hgraph, ok_bind, listOrder,
    hvalidate]
  rfl

/-- The listing of a project whose labels are plain is read back. -/
theorem bench_readsBack : ∃ ordered g,
    bench.after (run ⟨none, none⟩ ["order", "p.json"]) = (ordered, bench) ∧ ordered.status = 0 ∧
    (bench.after (loadGraph (.ofText "p.json"))).1 = .ok g ∧ ReadsBack g ordered.output ∧
    Table.rows ordered.output.toList = g.entries.map Entry.fields := by
  have hrun := after_run_order bench_loadGraph
    (Graph.validate_of_compile_eq_ok forkGraph_compile)
  obtain ⟨settings, found, g, hstart, hgraph, hreads⟩ :=
    (readsBack_of_order bench _).2 order_arguments hrun rfl
  obtain ⟨rfl, rfl⟩ := (standard_starts bench).unique hstart
  obtain rfl := Except.ok.inj (hgraph.symm.trans bench_loadGraph)
  have hlabels : ∀ e ∈ forkGraph.entries, '\t' ∉ e.label ∧ '\n' ∉ e.label := by decide +kernel
  exact ⟨_, _, hrun, rfl, hgraph, hreads, hreads.exact_iff.mpr hlabels⟩

/-- A project whose filter has a name of two lines. -/
def tornText : String :=
  "[1,\"\",[[\"source\",\"in.mkv\",null],[\"filter\",\"Crop\\nleft\",\"std\",\"Crop\",[]]," ++
    "[\"output\",0]],[[0,1],[1,2]]]"

def torn : FileTree := ⟨[], [([Utf8.encode "p.json"], .file (Utf8.encode tornText))]⟩

def tornGraph : Graph where
  nodes := #[.source ⟨.ofText "in.mkv", none⟩, .filter ⟨"Crop\nleft", "std", "Crop", []⟩,
    .output ⟨0⟩]
  connections := #[⟨⟨0⟩, ⟨4096⟩⟩, ⟨⟨4097⟩, ⟨8192⟩⟩]

theorem torn_loadGraph : (torn.after (loadGraph (.ofText "p.json"))).1 = .ok tornGraph := by
  have hread : torn.readBytes (.ofText "p.json") = .ok (Utf8.encode tornText) := by decide +kernel
  have hparse : Project.parse tornText =
      .ok ⟨1, "", tornGraph.nodes.toList, [⟨⟨0⟩, ⟨1⟩⟩, ⟨⟨1⟩, ⟨2⟩⟩]⟩ := by decide +kernel
  exact after_loadGraph_eq_ok_iff.mpr ⟨_, Project.after_load_of_readBytes hread hparse, by cbv⟩

/-- The name takes two lines of the listing, and the second one has no other field. -/
theorem torn_not_readsBack : ∃ ordered g,
    torn.after (run ⟨none, none⟩ ["order", "p.json"]) = (ordered, torn) ∧ ordered.status = 0 ∧
    (torn.after (loadGraph (.ofText "p.json"))).1 = .ok g ∧
    ["left".toList] ∈ Table.rows ordered.output.toList ∧
    Table.rows ordered.output.toList ≠ g.entries.map Entry.fields := by
  have hvalidate : tornGraph.validate = .ok () := by cbv
  have hentry : ⟨1, ⟨1⟩, .filter ⟨"Crop\nleft", "std", "Crop", []⟩⟩ ∈ tornGraph.entries :=
    Graph.mem_entries_iff.mpr ⟨by cbv, rfl⟩
  refine ⟨_, _, after_run_order torn_loadGraph hvalidate, rfl, torn_loadGraph, ?_, ?_⟩
  · rw [tornGraph.rows_orderText]
    refine List.mem_flatMap.mpr ⟨_, hentry, ?_⟩
    decide +kernel
  · rw [Ne, Graph.rows_orderText_eq_fields_iff]
    intro hplain
    exact (hplain _ hentry).2 (by decide +kernel)

end CommandLine
end ClipGraph
