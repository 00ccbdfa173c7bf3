import ClipGraph.Proofs.LiteralValues
import ClipGraph.Proofs.Sameness
import ClipGraph.Proofs.Storing

/-!
# Graphs with their doubles reread

Rereading the doubles of a graph changes no node's kind and no connection. So a graph and the reread one
fail alike, or the script of the second has the statements of the first with their doubles reread. No two
finite doubles have one literal, so the texts of the scripts are equal just if no double of an emitted
filter is changed.
-/

namespace ClipGraph

namespace Statement

def reread : Statement → Statement
  | .call node position plugin function input arguments =>
    .call node position plugin function input (arguments.map Argument.reread)
  | s => s

end Statement

def Program.reread (p : Program) : Program :=
  ⟨p.body.map Statement.reread, p.bindings.map Statement.reread⟩

def Script.reread (s : Script) : Script := { s with program := s.program.reread }

def Graph.reread (g : Graph) : Graph := { g with nodes := g.nodes.map Node.reread }

@[simp] theorem Node.kind_reread (n : Node) : n.reread.kind = n.kind := by cases n <;> rfl

/-- Rereading the doubles of a node keeps it admissible. -/
theorem Node.admissible_reread {n : Node} (h : n.Admissible) : n.reread.Admissible := by
  cases n with
  | filter f =>
    have hf : f.Named := h
    have hnames : (f.arguments.map Argument.reread).map Argument.name = f.arguments.map Argument.name := by
      rw [List.map_map]
      exact List.map_congr_left fun _ _ => rfl
    refine ⟨hf.plugin, hf.function, ?_, by rw [hnames]; exact hf.distinct⟩
    intro a ha
    obtain ⟨b, hb, rfl⟩ := List.mem_map.mp ha
    exact hf.arguments b hb
  | _ => exact h

/-- The path of a source is text in every graph. -/
theorem Node.Admissible.storable_source {n : SourceNode} (h : (Node.source n).Admissible) :
    (Node.source n).Storable := by
  obtain ⟨t, ht⟩ := h
  rw [Node.Storable, ht, FilePath.text?_ofText]
  rfl

theorem Node.slot?_reread (n : Node) : n.reread.slot? = n.slot? := by cases n <;> rfl

namespace Graph

variable {g : Graph}

theorem node?_reread (g : Graph) (id : NodeId) : g.reread.node? id = (g.node? id).map Node.reread := by
  simp [node?, reread]

theorem sameShape_reread (g : Graph) : g.SameShape g.reread where
  kinds := by
    rw [reread, Array.map_map]
    exact Array.map_congr_left fun n _ => n.kind_reread.symm
  connections := rfl

/-- Rereading the doubles of a graph keeps it valid. -/
theorem Valid.reread (h : g.Valid) : g.reread.Valid where
  room := by
    rw [Graph.reread, Array.size_map]
    exact h.room
  nodes := by
    intro n hn
    obtain ⟨m, hm, rfl⟩ := Array.mem_map.mp hn
    exact Node.admissible_reread (h.nodes m hm)
  slots := by
    have hslots : g.reread.nodes.toList.filterMap Node.slot? = g.nodes.toList.filterMap Node.slot? := by
      simp only [Graph.reread, Array.toList_map, List.filterMap_map, Function.comp_def, Node.slot?_reread]
    rw [hslots]
    exact h.slots
  ends := by
    have hdirection : ∀ c, g.reread.direction? c = g.direction? c := by
      intro c
      rw [direction?, direction?, node?_reread, Option.bind_map]
      refine Option.bind_congr fun n _ => ?_
      simp [Node.direction?, Node.ports]
    intro e he
    rw [hdirection, hdirection]
    exact h.ends e he
  targets := h.targets

theorem statement?_reread (g : Graph) (order : List NodeId) (id : NodeId) :
    g.reread.statement? order id = (g.statement? order id).map Statement.reread := by
  have hinput := congrFun ((sameShape_reread g).input?_eq order) id
  rw [statement?, statement?, node?_reread, ← hinput]
  rcases g.node? id with _ | ⟨s | f | o⟩
  · rfl
  · simp only [Option.map_some, Node.reread]
    cases s.path.text? <;> rfl
  · simp only [Option.map_some, Node.reread]
    cases g.input? order id <;> rfl
  · simp only [Option.map_some, Node.reread]
    cases g.input? order id <;> rfl

/-- The program of a reread graph is the reread program. -/
theorem Spells.reread {order : List NodeId} {p q : Program} (hp : g.Spells order p)
    (hq : g.reread.Spells order q) : q = p.reread := by
  have hpart : ∀ {l l' : List Statement} {ids : List NodeId}, l.map some = ids.map (g.statement? order) →
      l'.map some = ids.map (g.reread.statement? order) → l' = l.map Statement.reread := by
    intro l l' ids hl hl'
    have hstatements : g.reread.statement? order = Option.map Statement.reread ∘ g.statement? order :=
      funext (statement?_reread g order)
    apply List.map_injective_iff.mpr (Option.some_injective Statement)
    rw [hl', hstatements, ← List.map_map, ← hl, List.map_map, List.map_map]
    rfl
  have hshape := sameShape_reread g
  have hbody := hq.body
  have hbindings := hq.bindings
  rw [← hshape.makesClip_eq] at hbody
  rw [← hshape.bindsSlot_eq] at hbindings
  cases q
  exact congrArg₂ Program.mk (hpart hp.body hbody) (hpart hp.bindings hbindings)

/-- Compilation reads the doubles of a graph nowhere, so it commutes with rereading them. -/
theorem Valid.compile_reread (h : g.Valid) : g.reread.compile = g.compile.map Script.reread := by
  rcases (sameShape_reread g).compile_cases h h.reread with
    ⟨fault, hg, hreread⟩ | ⟨p, q, hg, hreread, hp, hq⟩
  · rw [hg, hreread]
    rfl
  · rw [hg, hreread, hp.reread hq]
    rfl

/-- A graph whose doubles all are finite numbers. -/
def Finite (g : Graph) : Prop :=
  ∀ f, .filter f ∈ g.nodes → ∀ a ∈ f.arguments, ∀ x, a.value = .float x → x.isFinite = true

/-- A valid graph is finite just if each of its nodes can be written. -/
theorem Valid.finite_iff (h : g.Valid) : g.Finite ↔ ∀ n ∈ g.nodes, n.Storable := by
  constructor
  · intro hg n hn
    cases n with
    | source s => exact (h.nodes _ hn).storable_source
    | filter f =>
      intro a ha
      cases hx : a.value with
      | float x => exact hg f hn a ha x hx
      | _ => trivial
    | output o => trivial
  · intro hg f hf a ha x hx
    have ha := hg _ hf a ha
    rwa [hx] at ha

/-- Every double of a filter that has a statement is read back. -/
def ShowsReadBack (g : Graph) : Prop := ∀ id, g.Emitted id → ∀ n, g.node? id = some n → n.ReadsBack

end Graph

/-- Two finite values that are spelled alike are the same. -/
theorem Param.readsBack_of_spelling {v : Param} (hv : v.Storable)
    (h : v.reread.spelling = v.spelling) : v.ReadsBack := by
  have hvalue := v.reread.value?_spelling
  rw [h, v.value?_spelling, Option.some.injEq] at hvalue
  rcases eq_or_isNaN_of_canonical hvalue with hsame | ⟨x, y, hx, -, hnan, -⟩
  · exact (reread_eq_iff hv).mp hsame.symm
  · subst hx
    have hfinite : x.isFinite = true := hv
    simp only [Binary64.isFinite, Binary64.isNaN, decide_eq_true_eq] at hfinite hnan
    omega

/-- A call that reads alike with its doubles reread has none that is changed. -/
theorem Argument.readsBack_of_spelling {arguments : List Argument}
    (hs : ∀ a ∈ arguments, a.value.Storable)
    (h : (arguments.map reread).map (fun a => (a.name, a.value.spelling)) =
      arguments.map fun a => (a.name, a.value.spelling)) : ∀ a ∈ arguments, a.value.ReadsBack := by
  rw [List.map_map, List.map_inj_left] at h
  exact fun a ha => Param.readsBack_of_spelling (hs a ha) (Prod.mk.inj (h a ha)).2

namespace Graph

variable {g : Graph} {s : Script}

/-- Every emitted node has its statement in a script. -/
theorem Spells.exists_statement {order : List NodeId} {p : Program} (hp : g.Spells order p)
    {id : NodeId} (hid : id ∈ g.lineup order) :
    ∃ st ∈ p.statements, g.statement? order id = some st := by
  have hmem := hp.statements ▸ List.mem_map_of_mem (f := g.statement? order) hid
  obtain ⟨st, hst, heq⟩ := List.mem_map.mp hmem
  exact ⟨st, hst, heq.symm⟩

theorem Valid.sentences_reread (h : g.Valid) (hs : g.compile = .ok s)
    (htext : s.reread.text = s.text) :
    ∀ st ∈ s.program.statements, st.reread.sentence = st.sentence := by
  have hreread : g.reread.compile = .ok s.reread := by rw [h.compile_reread, hs, map_ok]
  obtain ⟨-, -, hp⟩ := h.of_compile_eq_ok hs
  obtain ⟨-, -, hq⟩ := h.reread.of_compile_eq_ok hreread
  have hread := Reading.script?_text (h.proper_of_spells hp)
  have hlines : s.reread.program.text = s.program.text := String.ofList_injective htext
  rw [← hlines, Reading.script?_text (h.reread.proper_of_spells hq), Option.some.injEq] at hread
  have hstatements : s.reread.program.statements = s.program.statements.map Statement.reread :=
    List.map_append.symm
  rw [hstatements, List.map_map, List.map_inj_left] at hread
  exact hread

/-- Where the doubles that show read back, a statement is its own rereading. -/
theorem ShowsReadBack.reread_statement (hg : g.ShowsReadBack) (hs : ∀ n ∈ g.nodes, n.Storable)
    {order : List NodeId} {id : NodeId} (hid : g.Emitted id) {st : Statement}
    (hst : g.statement? order id = some st) : st.reread = st := by
  unfold statement? at hst
  split at hst
  · obtain ⟨path, -, rfl⟩ := Option.map_eq_some_iff.mp hst
    rfl
  · next f hn =>
    obtain ⟨v, -, rfl⟩ := Option.map_eq_some_iff.mp hst
    have hsame := (Argument.map_reread_eq_iff (hs _ (mem_of_node? hn))).mpr (hg id hid _ hn)
    rw [Statement.reread, hsame]
  · obtain ⟨v, -, rfl⟩ := Option.map_eq_some_iff.mp hst
    rfl
  · cases hst

/-- Rereading the doubles keeps the text of a script just if no double that it shows is changed. -/
theorem Valid.text_reread_iff (h : g.Valid) (hf : g.Finite) (hs : g.compile = .ok s) :
    s.reread.text = s.text ↔ g.ShowsReadBack := by
  obtain ⟨hacyclic, -, hp⟩ := h.of_compile_eq_ok hs
  have hstorable := h.finite_iff.mp hf
  constructor
  · intro htext id hid n hn
    cases n with
    | filter f =>
      have hlineup : id ∈ g.lineup g.order :=
        mem_lineup_iff.mpr ⟨(h.mem_order_iff hacyclic).mpr hid, _, hn⟩
      obtain ⟨st, hst, hstatement⟩ := hp.exists_statement hlineup
      have hsentence := h.sentences_reread hs htext st hst
      simp only [statement?, hn, Option.map_eq_some_iff] at hstatement
      obtain ⟨v, -, rfl⟩ := hstatement
      simp only [Statement.reread, Statement.sentence, Sentence.call.injEq, true_and] at hsentence
      exact Argument.readsBack_of_spelling (hstorable _ (mem_of_node? hn)) hsentence
    | _ => trivial
  · intro hshows
    have hstatements : s.reread.program.statements = s.program.statements := by
      refine List.map_append.symm.trans (map_eq_self_iff.mpr fun st hst => ?_)
      have hmem := hp.statements ▸ List.mem_map_of_mem (f := some) hst
      obtain ⟨id, hid, hstatement⟩ := List.mem_map.mp hmem
      exact hshows.reread_statement hstorable (h.emitted_of_mem_order (mem_lineup_iff.mp hid).1) hstatement
    rw [Script.text, Script.text, Program.text, Program.text, Program.lines, Program.lines, hstatements]

end Graph
end ClipGraph
