import ClipGraph.Proofs.Loading
import ClipGraph.Proofs.Projects
import ClipGraph.Proofs.Rereading

/-!
# Graphs opened again

A draft takes any double, and a script has a literal for each of them. The text of a project has
`null` in the place of a double that is no finite number, and no parameter is read from `null`. So a
graph is always saved, and it is opened again exactly if its doubles are finite, with its doubles reread.
-/

namespace ClipGraph

open Json (whole Partial Reader)

/-- Every value is said as one that a text can hold. -/
theorem Param.fits_said (v : Param) : (Json.said v.toJson).Fits := by
  by_cases hv : v.Storable
  · rw [said_toJson hv]
    exact fits_toJson (storable_reread hv)
  · cases v with
    | float x =>
      rw [toJson, Json.said_float_of_not_finite hv]
      trivial
    | _ => exact absurd trivial hv

theorem Param.depth_said (v : Param) : (Json.said v.toJson).depth = 0 := by
  cases v with
  | float x =>
    rw [toJson, Json.said]
    split <;> rfl
  | _ => rfl

theorem Argument.fits_said (a : Argument) : (Json.said a.toJson).Fits :=
  ⟨trivial, a.value.fits_said, trivial⟩

theorem Argument.depth_said (a : Argument) : (Json.said a.toJson).depth = 1 := by
  simp [Argument.toJson, Json.said, Json.saidMembers, Json.depth, Json.depthMembers,
    a.value.depth_said]

namespace Project

/-- What is wrong with a text that has nothing in the place of a value. -/
def noValue : Json.Fault := .noVariant "ParamValue"

/-- A double that is no finite number is written as nothing, and nothing is no value. -/
theorem readParam_of_not_storable {v : Param} (hv : ¬ v.Storable) (depth : Nat) :
    readParam depth (whole (Json.said v.toJson)) = .error noValue := by
  cases v with
  | float x =>
    have hx : ¬ x.isFinite = true := hv
    rw [Param.toJson, Json.said_float_of_not_finite hx]
    rfl
  | _ => exact absurd trivial hv

theorem readArgument_of_not_storable {a : Argument} (ha : ¬ a.value.Storable) (kept : Bool)
    (depth : Nat) : readArgument kept depth (whole (Json.said a.toJson)) = .error noValue := by
  have hvalue := readParam_of_not_storable ha (depth - 1)
  simp [readArgument, Argument.toJson, Json.said, Json.saidMembers, whole, Json.wholeMembers,
    Reader.pair, Reader.foldMembers, Reader.text, Reader.textOr, Reader.once, hvalue]

/-- The arguments of a filter as a text says them. -/
def saidArguments (arguments : List Argument) : Json :=
  .array (arguments.map fun a => Json.said a.toJson)

theorem array_saidItems (arguments : List Argument) :
    Json.array (Json.saidItems (arguments.map Argument.toJson)) = saidArguments arguments := by
  rw [Json.saidItems_eq_map, List.map_map]
  rfl

theorem fits_saidArguments (arguments : List Argument) : (saidArguments arguments).Fits := by
  refine Json.fitItems_iff.mpr ?_
  intro v hv
  obtain ⟨a, -, rfl⟩ := List.mem_map.mp hv
  exact a.fits_said

theorem depth_saidArguments (arguments : List Argument) :
    (saidArguments arguments).depth ≤ 2 := by
  refine Nat.succ_le_succ (Json.depthItems_le ?_)
  intro v hv
  obtain ⟨a, -, rfl⟩ := List.mem_map.mp hv
  exact Nat.le_of_eq a.depth_said

/-- A list with an argument that cannot be written is refused with that fault. -/
theorem readArguments_of_not_storable {arguments : List Argument}
    (h : ∃ a ∈ arguments, ¬ a.value.Storable) (depth : Nat) :
    readArguments depth (whole (saidArguments arguments)) = .error noValue := by
  rw [saidArguments, whole, readArguments, Reader.listOf, Json.wholeItems_eq_map, List.map_map]
  refine mapM_eq_error ?_ ?_
  · intro v hv
    obtain ⟨a, -, rfl⟩ := List.mem_map.mp hv
    by_cases ha : a.value.Storable
    · rw [Function.comp_apply, Argument.said_toJson ha]
      exact .inr ⟨a.reread, readArgument_toJson (Param.storable_reread ha) true (depth - 1)⟩
    · exact .inl (readArgument_of_not_storable ha true (depth - 1))
  · obtain ⟨a, ha, hvalue⟩ := h
    exact ⟨_, List.mem_map_of_mem ha, readArgument_of_not_storable hvalue true (depth - 1)⟩

/-- A node of a graph is read with its doubles reread, or it has a double that no text says. -/
theorem readNode_said {n : Node} (hn : n.Admissible) (depth : Nat) :
    ∃ j, n.toJson = .ok j ∧ (Json.said j).Fits ∧
      (n.Storable → readNode (depth + 3) (whole (Json.said j)) = .ok n.reread) ∧
      (¬ n.Storable → readNode (depth + 3) (whole (Json.said j)) = .error noValue) := by
  by_cases hs : n.Storable
  · obtain ⟨j, hj, hreread⟩ := Node.toJson_reread hs
    obtain ⟨said, hsaid, hfits, hread⟩ := readNode_toJson (Node.storable_reread hs) depth
    obtain rfl := Except.ok.inj (hreread.symm.trans hsaid)
    exact ⟨j, hj, hfits, fun _ => hread, fun h => absurd hs h⟩
  · cases n with
    | source n => exact absurd hn.storable_source hs
    | filter n =>
      have hfits := fits_saidArguments n.arguments
      have hvalue := Json.value?_whole _ hfits (Nat.le_trans (depth_saidArguments n.arguments)
        (Nat.le_add_left 2 depth))
      have hbad : ∃ a ∈ n.arguments, ¬ a.value.Storable := by simpa [Node.Storable] using hs
      refine ⟨_, rfl, ?_, fun h => absurd h hs, fun _ => ?_⟩ <;>
        simp only [Json.said, Json.saidMembers, array_saidItems]
      · exact ⟨trivial, trivial, trivial, trivial, hfits, trivial⟩
      · refine (readNode_filter (by rw [hvalue]; rfl)).trans ?_
        rw [readArguments_of_not_storable hbad (depth + 2), map_error]
    | output n => exact absurd trivial hs

/-- The nodes of a graph are written, and read back up to the first whose double no text says. -/
theorem readNodes_said {nodes : List Node} (h : ∀ n ∈ nodes, n.Admissible) :
    ∃ js, nodes.mapM Node.toJson = .ok js ∧ Json.FitItems (Json.saidItems js) ∧
      ((∃ n ∈ nodes, ¬ n.Storable) →
        (Json.wholeItems (Json.saidItems js)).mapM (readNode (Json.depthLimit - 2)) =
          .error noValue) := by
  induction nodes with
  | nil => exact ⟨[], rfl, trivial, by simp⟩
  | cons n rest ih =>
    obtain ⟨hn, hrest⟩ := List.forall_mem_cons.mp h
    obtain ⟨j, hj, hfits, hgood, hbad⟩ := readNode_said hn (Json.depthLimit - 5)
    obtain ⟨js, hjs, hfitsRest, hread⟩ := ih hrest
    refine ⟨j :: js, by simp [hj, hjs], ⟨hfits, hfitsRest⟩, ?_⟩
    intro hex
    rw [Json.saidItems, Json.wholeItems, List.mapM_cons]
    by_cases hs : n.Storable
    · have hfirst : readNode (Json.depthLimit - 2) (whole (Json.said j)) = .ok n.reread := hgood hs
      have hmore : ∃ m ∈ rest, ¬ m.Storable := by simpa [hs] using hex
      rw [hfirst, ok_bind, hread hmore, error_bind]
    · have hfirst : readNode (Json.depthLimit - 2) (whole (Json.said j)) = .error noValue := hbad hs
      rw [hfirst, error_bind]

/-- A project whose nodes a graph can have is written. With a double that no text says it is not read
again. -/
theorem parse_of_not_storable {p : Project} (hp : ∀ n ∈ p.nodes, n.Admissible)
    (hbad : ∃ n ∈ p.nodes, ¬ n.Storable) :
    ∃ text, p.write = .ok text ∧ parse text = .error (.document (.json noValue)) := by
  obtain ⟨js, hjs, hfits, hread⟩ := readNodes_said hp
  obtain ⟨hfitsLinks, hlinks⟩ := readLinks_toJson p.links
  let j : Json := .object [("version", .word p.version), ("name", .string p.name),
    ("nodes", .array js), ("connections", .array (p.links.map Link.toJson))]
  have hwrite : p.write = .ok (.ofList (j.pretty 0)) := by
    rw [write, toJson, hjs]
    rfl
  have hsaid : Json.said j = .object [("version", .word p.version), ("name", .string p.name),
      ("nodes", .array (Json.saidItems js)), ("connections", .array (p.links.map Link.toJson))] := by
    simp only [j, Json.said, Json.saidMembers, Json.word, Link.saidItems_toJson]
  have hfitsAll : (Json.said j).Fits := by
    rw [hsaid]
    exact ⟨Json.fits_word p.version, trivial, hfits, hfitsLinks, trivial⟩
  have htext : Json.Document.ofText (String.ofList (j.pretty 0)).toList =
      ⟨whole (Json.said j), true⟩ := by
    rw [String.toList_ofList]
    exact Json.Document.ofText_pretty hfitsAll 0
  have hreader : reader (whole (Json.said j)) = .error noValue := by
    rw [hsaid]
    refine (reader_object (Reader.word_toNat p.version) hlinks).trans ?_
    rw [whole, readNodes, Reader.listOf, hread hbad, map_error]
  refine ⟨_, hwrite, ?_⟩
  rw [parse, Reader.document]
  simp only [htext, hreader, error_bind]

open ClipGraph.Graph (boosted boosted_valid)

/-- The project of a graph with finite doubles is read as that of the graph with its doubles reread. -/
theorem parse_write_ofGraph {g : Graph} (hg : g.Valid) (hf : g.Finite) (name : String) :
    ∃ text, (ofGraph name g).write = .ok text ∧ parse text = .ok (ofGraph name g.reread) := by
  have hstorable : (ofGraph name g).Storable := by
    refine ⟨Nat.le_refl _, fun n hn => ?_⟩
    exact hg.finite_iff.mp hf n (by simpa [ofGraph] using hn)
  have hreread : (ofGraph name g).reread = ofGraph name g.reread := by
    simp [reread, ofGraph, Graph.reread]
  rw [← hreread]
  exact hstorable.parse_write.1

/-- A graph out of a draft is always written to a text. The text is opened as a graph exactly if every
double of the graph is finite, and then as the graph with its doubles reread. That one has the same fault,
or the script with its doubles reread, whose text is the same just if every double that it shows is read
back. If some double is not finite, the reader finds nothing where it wants a value. -/
theorem opens_iff_finite {g : Graph} (hg : g.Built) (name : String) :
    ∃ text, (ofGraph name g).write = .ok text ∧
      ((∃ p h, parse text = .ok p ∧ p.toGraph = .ok h) ↔ g.Finite) ∧
      (∀ p h, parse text = .ok p → p.toGraph = .ok h → h = g.reread ∧
        h.compile = g.compile.map Script.reread ∧
        ∀ s, g.compile = .ok s → (s.reread.text = s.text ↔ g.ShowsReadBack)) ∧
      (¬ g.Finite → parse text = .error (.document (.json (.noVariant "ParamValue")))) := by
  by_cases hf : g.Finite
  · obtain ⟨text, hwrite, hparse⟩ := parse_write_ofGraph hg.valid hf name
    have hgraph : (ofGraph name g.reread).toGraph = .ok g.reread :=
      toGraph_eq_ok_iff.mpr ⟨hg.valid.reread, rfl, rfl⟩
    refine ⟨text, hwrite, iff_of_true ⟨_, _, hparse, hgraph⟩ hf, ?_, fun h => absurd hf h⟩
    intro p h hp hh
    rw [hparse] at hp
    obtain rfl := Except.ok.inj hp
    rw [hgraph] at hh
    obtain rfl := Except.ok.inj hh
    exact ⟨rfl, hg.valid.compile_reread, fun s hs => hg.valid.text_reread_iff hf hs⟩
  · have hbad : ∃ n ∈ (ofGraph name g).nodes, ¬ n.Storable := by
      simpa [hg.valid.finite_iff, ofGraph] using hf
    obtain ⟨text, hwrite, hparse⟩ := parse_of_not_storable
      (fun n hn => hg.valid.nodes n (by simpa [ofGraph] using hn)) hbad
    refine ⟨text, hwrite, iff_of_false ?_ hf, ?_, fun _ => hparse⟩
    · rintro ⟨p, h, hp, -⟩
      rw [hparse] at hp
      cases hp
    · intro p h hp
      rw [hparse] at hp
      cases hp

/-- The graph is finite just if its gain is. -/
theorem boosted_finite_iff {path : String} {gain : Binary64} :
    (boosted path gain).Finite ↔ gain.isFinite = true := by
  rw [(boosted_valid path gain).finite_iff]
  simp [boosted, Node.Storable, Param.Storable]

/-- The filter that has the gain is emitted. -/
theorem boosted_showsReadBack_iff {path : String} {gain : Binary64} :
    (boosted path gain).ShowsReadBack ↔ Json.ReadsBack gain := by
  constructor
  · intro h
    exact h ⟨1⟩ (.inr ⟨⟨⟨0⟩, ⟨4096⟩⟩, by simp [boosted], .inr rfl⟩) _ rfl _ (List.mem_singleton.mpr rfl)
  · intro h id _ n hn
    have hn := Graph.mem_of_node? hn
    simp only [boosted, List.mem_toArray, List.mem_cons, List.not_mem_nil, or_false] at hn
    rcases hn with rfl | rfl | rfl
    · trivial
    · exact List.forall_mem_singleton.mpr h
    · trivial

theorem boosted_compile (gain : Binary64) : (boosted "in.mkv" gain).compile = .ok ⟨⟨[
      .load ⟨0⟩ "ffms2.Source" "in.mkv",
      .call ⟨1⟩ 1 "std" "Expr" (.source ⟨0⟩) [⟨"gain", .float gain⟩]],
      [.bind (.filter ⟨1⟩ 1) 0]⟩, ⟨3, 3, 0, 1, 1⟩⟩ := by cbv

/-- A gain that is read as its neighbour: one divided by two and a fifth. -/
def drifting : Binary64 := ⟨0x3fdd1745d1745d17⟩

theorem reread_drifting : Json.reread drifting = ⟨0x3fdd1745d1745d18⟩ := by decide +kernel

theorem readsBack_half : Json.ReadsBack ⟨0x3fe0000000000000⟩ := by
  let f : Figure := ⟨['0'], some ['5'], none⟩
  have hspells : f.Spells (Binary64.rank ⟨0x3fe0000000000000⟩) :=
    ⟨Figure.wellFormed_pointed Text.isWhole_zero (by simp) (by simp), .inl (by simp [f]),
      by decide +kernel⟩
  exact Json.Token.readsBack_of_spells (by decide) (by decide +kernel) hspells (by decide) (by decide)

/-- One half comes back, a gain that drifts has another script, and one that is no number is lost. -/
theorem boosted_opens : (boosted "in.mkv" ⟨0x3fe0000000000000⟩).Built ∧
    (boosted "in.mkv" drifting).Built ∧ (boosted "in.mkv" ⟨0x7ff8000000000000⟩).Built ∧
    (∃ text p h s, (ofGraph "half" (boosted "in.mkv" ⟨0x3fe0000000000000⟩)).write = .ok text ∧
      parse text = .ok p ∧ p.toGraph = .ok h ∧
      (boosted "in.mkv" ⟨0x3fe0000000000000⟩).compile = .ok s ∧ h.compile = .ok s.reread ∧
      s.reread.text = s.text) ∧
    (∃ text p h s, (ofGraph "drift" (boosted "in.mkv" drifting)).write = .ok text ∧
      parse text = .ok p ∧ p.toGraph = .ok h ∧ (boosted "in.mkv" drifting).compile = .ok s ∧
      h.compile = .ok s.reread ∧ s.reread.text ≠ s.text) ∧
    ∃ text, (ofGraph "nan" (boosted "in.mkv" ⟨0x7ff8000000000000⟩)).write = .ok text ∧
      parse text = .error (.document (.json (.noVariant "ParamValue"))) := by
  have hbuilt : ∀ gain, (boosted "in.mkv" gain).Built := fun gain => (boosted_valid _ gain).built
  have hopens : ∀ name gain, gain.isFinite = true → ∃ text p h s,
      (ofGraph name (boosted "in.mkv" gain)).write = .ok text ∧ parse text = .ok p ∧
      p.toGraph = .ok h ∧ (boosted "in.mkv" gain).compile = .ok s ∧ h.compile = .ok s.reread ∧
      (s.reread.text = s.text ↔ Json.ReadsBack gain) := by
    intro name gain hgain
    obtain ⟨text, hwrite, hopen, hsame, -⟩ := opens_iff_finite (hbuilt gain) name
    obtain ⟨p, h, hp, hh⟩ := hopen.mpr (boosted_finite_iff.mpr hgain)
    obtain ⟨-, hcompile, htext⟩ := hsame p h hp hh
    have hs := boosted_compile gain
    rw [hs, map_ok] at hcompile
    exact ⟨text, p, h, _, hwrite, hp, hh, hs, hcompile, (htext _ hs).trans boosted_showsReadBack_iff⟩
  have hdrifts : ¬ Json.ReadsBack drifting := by
    intro h
    have hsame := (Json.Token.readsBack_iff.mp h).2
    rw [reread_drifting] at hsame
    exact absurd hsame (by decide)
  obtain ⟨text, p, h, s, hwrite, hp, hh, hs, hcompile, htext⟩ :=
    hopens "half" ⟨0x3fe0000000000000⟩ (by decide)
  obtain ⟨text', p', h', s', hwrite', hp', hh', hs', hcompile', htext'⟩ :=
    hopens "drift" drifting (by decide)
  obtain ⟨lost, hlost, -, -, herror⟩ := opens_iff_finite (hbuilt ⟨0x7ff8000000000000⟩) "nan"
  exact ⟨hbuilt _, hbuilt _, hbuilt _,
    ⟨text, p, h, s, hwrite, hp, hh, hs, hcompile, htext.mpr readsBack_half⟩,
    ⟨text', p', h', s', hwrite', hp', hh', hs', hcompile', fun heq => hdrifts (htext'.mp heq)⟩,
    lost, hlost, herror (mt boosted_finite_iff.mp (by decide))⟩

/-- A graph with an infinite gain has a script and is written, and what is written is lost. -/
theorem infinite_gain_lost : (boosted "in.mkv" ⟨0x7ff0000000000000⟩).Built ∧
    (∃ s, (boosted "in.mkv" ⟨0x7ff0000000000000⟩).compile = .ok s) ∧
    ∃ text, (ofGraph "gain" (boosted "in.mkv" ⟨0x7ff0000000000000⟩)).write = .ok text ∧
      ∀ p, parse text ≠ .ok p := by
  have hvalid := boosted_valid "in.mkv" ⟨0x7ff0000000000000⟩
  have hinfinite : ¬ Node.Storable
      (.filter ⟨"Gain", "std", "Expr", [⟨"gain", .float ⟨0x7ff0000000000000⟩⟩]⟩) := by
    intro h
    have hx : Binary64.isFinite ⟨0x7ff0000000000000⟩ = true := h _ (List.mem_singleton.mpr rfl)
    exact absurd hx (by decide)
  obtain ⟨text, hwrite, hparse⟩ := parse_of_not_storable
    (p := ofGraph "gain" (boosted "in.mkv" ⟨0x7ff0000000000000⟩))
    (fun n hn => hvalid.nodes n (by simpa [ofGraph] using hn))
    ⟨_, by simp [ofGraph, boosted], hinfinite⟩
  refine ⟨hvalid.built, ⟨_, boosted_compile _⟩, text, hwrite, ?_⟩
  intro p hp
  rw [hparse] at hp
  cases hp

end Project
end ClipGraph
