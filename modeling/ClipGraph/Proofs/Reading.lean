import ClipGraph.Proofs.Grammar
import ClipGraph.Proofs.Outcome

/-!
# Scripts read back

The script of a graph is its two fixed lines and then one line for every emitted node: the nodes that
make clips in the order of emission, and behind them the outputs in the same order. One reader gets
all of it back, whatever characters the paths and the texts of the graph hold, so no text can pass for
a piece of the script around it.
-/

namespace ClipGraph

/-- Every adapter is a function of a plugin. -/
theorem Adapter.select_function (hint : Option String) : ∃ plugin name, IsName plugin ∧
    IsName name ∧ (select hint).function = plugin ++ "." ++ name := by
  have hselect : select hint ∈ fallback :: table := by
    cases hint with
    | none => exact List.mem_cons_self
    | some hint =>
      rw [select]
      cases hfind : table.find? _ with
      | none => exact List.mem_cons_self
      | some a => exact List.mem_cons_of_mem _ (List.mem_of_find?_eq_some hfind)
  simp only [fallback, table, List.mem_cons, List.not_mem_nil, or_false] at hselect
  have hnames : ∀ s ∈ ["ffms2", "Source", "lsmas", "LWLibavSource", "bs", "VideoSource", "d2v",
      "dgdecodenv", "DGSource"], IsName s := by
    intro s hs
    rw [← isIdentifier_iff]
    revert hs s
    decide
  rcases hselect with h | h | h | h | h <;> rw [h]
  · exact ⟨"ffms2", "Source", hnames _ (by decide), hnames _ (by decide), by decide⟩
  · exact ⟨"lsmas", "LWLibavSource", hnames _ (by decide), hnames _ (by decide), by decide⟩
  · exact ⟨"bs", "VideoSource", hnames _ (by decide), hnames _ (by decide), by decide⟩
  · exact ⟨"d2v", "Source", hnames _ (by decide), hnames _ (by decide), by decide⟩
  · exact ⟨"dgdecodenv", "DGSource", hnames _ (by decide), hnames _ (by decide), by decide⟩

namespace Graph

variable {g : Graph}

/-- Every statement of a valid graph is proper. -/
theorem Valid.proper_statement (h : g.Valid) {order : List NodeId} {id : NodeId} {s : Statement}
    (hs : g.statement? order id = some s) : s.Proper := by
  unfold statement? at hs
  split at hs
  · next src hn =>
    obtain ⟨path, -, rfl⟩ := Option.map_eq_some_iff.mp hs
    exact Adapter.select_function src.hint
  · next f hn =>
    obtain ⟨v, -, rfl⟩ := Option.map_eq_some_iff.mp hs
    have hf : f.Named := h.nodes _ (mem_of_node? hn)
    exact ⟨hf.plugin, hf.function, hf.arguments⟩
  · obtain ⟨v, -, rfl⟩ := Option.map_eq_some_iff.mp hs
    trivial
  · cases hs

theorem Valid.proper_of_spells (h : g.Valid) {order : List NodeId} {p : Program}
    (hp : g.Spells order p) : ∀ s ∈ p.statements, s.Proper := by
  have hlist : ∀ {l : List Statement} {ids : List NodeId},
      l.map some = ids.map (g.statement? order) → ∀ s ∈ l, s.Proper := by
    intro l ids hl s hs
    have hmem : some s ∈ ids.map (g.statement? order) := hl ▸ List.mem_map_of_mem hs
    obtain ⟨id, -, hid⟩ := List.mem_map.mp hmem
    exact h.proper_statement hid
  intro s hs
  rcases List.mem_append.mp hs with hs | hs
  · exact hlist hp.body s hs
  · exact hlist hp.bindings s hs

/-- A script has one line for every emitted node, in the order of emission with the outputs behind
the others, and its text reads back to what its statements say. -/
theorem script?_of_compile_eq_ok (h : g.Built) {s : Script} (hs : g.compile = .ok s) :
    (g.order.Nodup ∧ ∀ id, id ∈ g.order ↔ g.Emitted id) ∧
    g.Spells g.order s.program ∧
    (s.text.toList = (Program.preamble ++ s.program.statements.map Statement.line).flatMap
      (· ++ ['\n']) ∧ ∀ st ∈ s.program.statements, '\n' ∉ st.line) ∧
    Reading.script? s.text.toList = some (s.program.statements.map Statement.sentence) := by
  obtain ⟨hacyclic, -, hspells⟩ := h.valid.of_compile_eq_ok hs
  have hproper := h.valid.proper_of_spells hspells
  have htext : s.text.toList = s.program.text := String.toList_ofList
  refine ⟨⟨h.valid.numbered.order_nodup, fun id => h.valid.mem_order_iff hacyclic⟩, hspells,
    ⟨?_, ?_⟩, ?_⟩
  · rw [htext]
    rfl
  · exact fun st hst => (hproper st hst).clean_line.not_mem_newline
  · rw [htext]
    exact Reading.script?_text hproper

/-- A graph whose texts look like the script around them. -/
def quoting : Graph where
  nodes := #[.source ⟨.ofText "a\")\nfx_1_1.set_output(0)", none⟩,
    .filter ⟨"Text", "sub", "Subtitle", [⟨"text", .text "\\\", blend=False)"⟩,
      ⟨"blend", .bool true⟩, ⟨"gain", .float ⟨0x7ff8000000000000⟩⟩]⟩, .output ⟨3⟩]
  connections := #[⟨⟨0⟩, ⟨4096⟩⟩, ⟨⟨4097⟩, ⟨8192⟩⟩]

/-- A graph whose texts look like the script around them is read back. -/
theorem quoting_reads_back : quoting.Built ∧ ∃ s, quoting.compile = .ok s ∧
    Reading.script? s.text.toList = some [
      .load ⟨0⟩ "ffms2.Source" "a\")\nfx_1_1.set_output(0)",
      .call ⟨1⟩ 1 "sub" "Subtitle" (.source ⟨0⟩) [("text", .text "\\\", blend=False)"),
        ("blend", .plain "True".toList), ("gain", .plain "float(\"nan\")".toList)],
      .bind (.filter ⟨1⟩ 1) 3] := by
  have hbuilt : quoting.Built := Valid.built (by decide +kernel)
  have hcompile : quoting.compile = .ok ⟨⟨[
      .load ⟨0⟩ "ffms2.Source" "a\")\nfx_1_1.set_output(0)",
      .call ⟨1⟩ 1 "sub" "Subtitle" (.source ⟨0⟩) [⟨"text", .text "\\\", blend=False)"⟩,
        ⟨"blend", .bool true⟩, ⟨"gain", .float ⟨0x7ff8000000000000⟩⟩]],
      [.bind (.filter ⟨1⟩ 1) 3]⟩, ⟨3, 3, 0, 1, 1⟩⟩ := by cbv
  refine ⟨hbuilt, _, hcompile, (script?_of_compile_eq_ok hbuilt hcompile).2.2.2.trans ?_⟩
  decide

end Graph
end ClipGraph
