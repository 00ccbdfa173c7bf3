import ClipGraph.Proofs.Reading

/-!
# Same graphs

Sameness compares paths by their parts and doubles as numbers, and a script shows how a path is
spelled and the sign of a zero. So same graphs fail alike or have scripts of the same statements, and
the texts of these are equal exactly if every node that has a statement is spelled alike.
-/

namespace ClipGraph

theorem Binary64.eq_zero_of_rank {x : Binary64} (h : x.rank = 0) :
    x = ⟨0⟩ ∨ x = ⟨0x8000000000000000⟩ := by
  obtain ⟨bits⟩ := x
  have hlt := bits.toNat_lt
  simp only [rank, Nat.pow_eq] at h
  have hbits : bits.toNat = 0 ∨ bits.toNat = 2 ^ 63 := by omega
  rcases hbits with hbits | hbits
  · exact .inl (congrArg mk (UInt64.toNat.inj hbits))
  · exact .inr (congrArg mk (UInt64.toNat.inj hbits))

/-- Two zeros are the same double if they are written with the same sign. -/
theorem Binary64.eq_of_sameNumber {x y : Binary64} (h : x.sameNumber y = true)
    (hw : Literal.writeFloat x = Literal.writeFloat y) : x = y := by
  simp only [sameNumber, Bool.and_eq_true, Bool.or_eq_true, beq_iff_eq] at h
  rcases h.2 with hbits | ⟨hx, hy⟩
  · cases x
    cases y
    exact congrArg mk hbits
  · have hsigns : Literal.writeFloat ⟨0⟩ ≠ Literal.writeFloat ⟨0x8000000000000000⟩ := by decide
    rcases eq_zero_of_rank hx with rfl | rfl <;> rcases eq_zero_of_rank hy with rfl | rfl
    · rfl
    · exact absurd hw hsigns
    · exact absurd hw.symm hsigns
    · rfl

/-- Values that are the same and are written in the same way are equal. -/
theorem Param.eq_of_same {v w : Param} (h : v.same w = true) (hs : v.spelling = w.spelling) :
    v = w := by
  cases v <;> cases w <;> simp only [same, beq_iff_eq, Bool.false_eq_true] at h
  · exact congrArg bool h
  · exact congrArg int h
  · exact congrArg float (Binary64.eq_of_sameNumber h (Spelling.plain.inj hs))
  · exact congrArg text h

namespace Node

theorem sameArguments_iff {as bs : List Argument} : sameArguments as bs = true ↔
    List.Forall₂ (fun a b => a.name = b.name ∧ a.value.same b.value = true) as bs := by
  induction as generalizing bs with
  | nil => cases bs <;> simp [sameArguments]
  | cons a as ih => cases bs <;> simp [sameArguments, Argument.same, ih]

theorem eq_of_sameArguments {as bs : List Argument} (h : sameArguments as bs = true)
    (hs : as.map (fun a => (a.name, a.value.spelling)) =
      bs.map fun b => (b.name, b.value.spelling)) : as = bs := by
  rw [sameArguments_iff] at h
  induction h with
  | nil => rfl
  | @cons a b as bs hab hrest ih =>
    obtain ⟨hhead, htail⟩ := List.cons.inj hs
    have hvalue := Param.eq_of_same hab.2 (Prod.mk.inj hhead).2
    rw [ih htail]
    cases a
    cases b
    simp_all

/-- Same nodes are of one kind, and what they hold is the same. -/
theorem same_cases {n m : Node} (h : n.same m = true) :
    (∃ a b, n = .source a ∧ m = .source b ∧ a.path.same b.path = true ∧ a.hint = b.hint) ∨
    (∃ a bs, n = .filter a ∧ m = .filter { a with arguments := bs } ∧
      sameArguments a.arguments bs = true) ∨
    ∃ o, n = .output o ∧ m = .output o := by
  cases n <;> cases m <;> simp only [same, Bool.and_eq_true, beq_iff_eq, Bool.false_eq_true] at h
  · next a b => exact .inl ⟨a, b, rfl, rfl, h⟩
  · next a b =>
    obtain ⟨⟨⟨hname, hplugin⟩, hfunction⟩, has⟩ := h
    refine .inr (.inl ⟨a, b.arguments, rfl, ?_, has⟩)
    cases b
    simp_all
  · next a b =>
    cases a
    cases b
    exact .inr (.inr ⟨_, rfl, by simp_all⟩)

theorem kind_eq_of_same {n m : Node} (h : n.same m = true) : n.kind = m.kind := by
  rcases same_cases h with ⟨a, b, rfl, rfl, -⟩ | ⟨a, bs, rfl, rfl, -⟩ | ⟨o, rfl, rfl⟩ <;> rfl

/-- The kind of a node decides where its input is. -/
theorem input?_eq_of_kind {n m : Node} (h : n.kind = m.kind) (id : NodeId) :
    n.input? id = m.input? id := by
  simp only [input?, connector?, ports, h]

end Node

/-- Statements that differ in the spelling of a path or in the sign of a zero, if at all. -/
inductive Statement.Same : Statement → Statement → Prop where
  | load (node : NodeId) (function : String) {path path' : String}
      (h : (FilePath.ofText path).same (.ofText path') = true) :
      Same (.load node function path) (.load node function path')
  | call (node : NodeId) (position : Nat) (plugin function : String) (input : Variable)
      {as bs : List Argument} (h : Node.sameArguments as bs = true) :
      Same (.call node position plugin function input as)
        (.call node position plugin function input bs)
  | bind (input : Variable) (slot : UInt32) : Same (.bind input slot) (.bind input slot)

namespace Graph

/-- Graphs with the same connections between nodes of the same kinds. -/
structure SameShape (g h : Graph) : Prop where
  kinds : g.nodes.map Node.kind = h.nodes.map Node.kind
  connections : g.connections = h.connections

theorem sameNodes_iff {ns ms : List Node} :
    sameNodes ns ms = true ↔ List.Forall₂ (fun n m => n.same m = true) ns ms := by
  induction ns generalizing ms with
  | nil => cases ms <;> simp [sameNodes]
  | cons n ns ih => cases ms <;> simp [sameNodes, ih]

variable {g h : Graph}

/-- Graphs that are the same have the same shape. -/
theorem sameShape_of_same (hs : g.same h = true) : g.SameShape h := by
  rw [same, Bool.and_eq_true, beq_iff_eq, sameNodes_iff] at hs
  obtain ⟨hnodes, hconnections⟩ := hs
  have hmap : ∀ {ns ms : List Node}, List.Forall₂ (fun n m => n.same m = true) ns ms →
      ns.map Node.kind = ms.map Node.kind := by
    intro ns ms hall
    induction hall with
    | nil => rfl
    | cons hn _ ih => rw [List.map_cons, List.map_cons, Node.kind_eq_of_same hn, ih]
  exact ⟨Array.toList_inj.mp (by simpa using hmap hnodes), hconnections⟩

theorem node?_cases_of_same (hs : g.same h = true) (id : NodeId) :
    (g.node? id = none ∧ h.node? id = none) ∨
    ∃ n m, g.node? id = some n ∧ h.node? id = some m ∧ n.same m = true := by
  rw [same, Bool.and_eq_true, sameNodes_iff, List.forall₂_iff_get] at hs
  obtain ⟨⟨hlength, hget⟩, -⟩ := hs
  simp only [Array.length_toList] at hlength
  rcases Nat.lt_or_ge id.index g.nodes.size with hlt | hge
  · refine .inr ⟨_, _, Array.getElem?_eq_getElem hlt, Array.getElem?_eq_getElem (hlength ▸ hlt), ?_⟩
    exact hget id.index (by simpa using hlt) (by simpa using hlength ▸ hlt)
  · exact .inl ⟨Array.getElem?_eq_none hge, Array.getElem?_eq_none (hlength ▸ hge)⟩

namespace SameShape

variable (hgh : g.SameShape h)
include hgh

theorem size_eq : g.size = h.size := by
  simpa [size] using congrArg Array.size hgh.kinds

theorem kind?_eq (id : NodeId) : (g.node? id).map Node.kind = (h.node? id).map Node.kind := by
  simpa [node?] using congrArg (·[id.index]?) hgh.kinds

theorem any_kind_eq (q : NodeKind → Bool) (id : NodeId) :
    (g.node? id).any (fun n => q n.kind) = (h.node? id).any fun n => q n.kind := by
  rw [← Option.any_map, hgh.kind?_eq, Option.any_map]

theorem makesClip_eq : g.makesClip = h.makesClip :=
  funext (hgh.any_kind_eq fun kind => !(kind == .output))

theorem bindsSlot_eq : g.bindsSlot = h.bindsSlot := funext (hgh.any_kind_eq (· == .output))

/-- Validation depends on the shape of a graph only. -/
theorem validate_eq : g.validate = h.validate := by
  have hany : ∀ q : NodeKind → Bool,
      g.nodes.any (fun n => q n.kind) = h.nodes.any fun n => q n.kind := by
    intro q
    have hmap := congrArg (fun kinds => Array.any kinds q) hgh.kinds
    simpa only [Array.any_map, Function.comp_def] using hmap
  have hsource : g.nodes.any Node.isSource = h.nodes.any Node.isSource := hany (· == .source)
  have houtput : g.nodes.any Node.isOutput = h.nodes.any Node.isOutput := hany (· == .output)
  have hcycle : g.cycle? = h.cycle? := by
    rw [cycle?, cycle?, wiring, wiring, hgh.size_eq, hgh.connections]
  rw [validate, validate, hsource, houtput, hcycle]

/-- So does the emission order. -/
theorem order_eq : g.order = h.order := by
  have houtputs : g.nodes.map Node.isOutput = h.nodes.map Node.isOutput := by
    have hmap := congrArg (Array.map (· == NodeKind.output)) hgh.kinds
    rw [Array.map_map, Array.map_map] at hmap
    exact hmap
  rw [order, order, houtputs, hgh.size_eq, hgh.connections]

theorem stats_eq (order : List NodeId) : g.stats order = h.stats order := by
  have hcount : ∀ q : NodeKind → Bool,
      g.countIn (fun n => q n.kind) order = h.countIn (fun n => q n.kind) order :=
    fun q => List.countP_congr fun id _ => by rw [hgh.any_kind_eq q id]
  have hfilters : g.countIn Node.isFilter order = h.countIn Node.isFilter order :=
    hcount (· == .filter)
  have houtputs : g.countIn Node.isOutput order = h.countIn Node.isOutput order :=
    hcount (· == .output)
  rw [stats, stats, hgh.size_eq, hfilters, houtputs]

/-- At every place stand two nodes of one kind, or none. -/
theorem node?_cases (id : NodeId) :
    (g.node? id = none ∧ h.node? id = none) ∨
    (∃ a b, g.node? id = some (.source a) ∧ h.node? id = some (.source b)) ∨
    (∃ a b, g.node? id = some (.filter a) ∧ h.node? id = some (.filter b)) ∨
    ∃ a b, g.node? id = some (.output a) ∧ h.node? id = some (.output b) := by
  have hkind := hgh.kind?_eq id
  cases hn : g.node? id with
  | none => simp_all
  | some n =>
    cases hm : h.node? id with
    | none => simp_all
    | some m => cases n <;> cases m <;> simp_all [Node.kind]

theorem var?_eq (order : List NodeId) : g.var? order = h.var? order := by
  funext id
  rw [var?, var?]
  rcases hgh.node?_cases id with ⟨hn, hm⟩ | ⟨a, b, hn, hm⟩ | ⟨a, b, hn, hm⟩ | ⟨a, b, hn, hm⟩ <;>
    rw [hn, hm]

theorem producer?_eq : g.producer? = h.producer? := by
  funext id
  have hinput : (g.node? id).bind (·.input? id) = (h.node? id).bind (·.input? id) := by
    rcases hgh.node?_cases id with ⟨hn, hm⟩ | ⟨a, b, hn, hm⟩ | ⟨a, b, hn, hm⟩ | ⟨a, b, hn, hm⟩ <;>
      rw [hn, hm]
    all_goals exact Node.input?_eq_of_kind rfl id
  simp only [producer?, Option.bind_eq_bind, ← Option.bind_assoc, hinput, incoming?,
    hgh.connections]

theorem input?_eq (order : List NodeId) : g.input? order = h.input? order := by
  funext id
  rw [input?, input?, hgh.producer?_eq, hgh.var?_eq]

theorem symm : h.SameShape g := ⟨hgh.kinds.symm, hgh.connections.symm⟩

/-- A node that is unfed in one graph is so in another of its shape. -/
theorem unfed {id : NodeId} (hu : g.Unfed id) : h.Unfed id := by
  obtain ⟨hreads, hbare⟩ := hu
  rw [hgh.connections] at hreads hbare
  refine ⟨?_, hbare⟩
  rcases hgh.node?_cases id with ⟨hn, -⟩ | ⟨a, b, hn, -⟩ | ⟨a, b, hn, hm⟩ | ⟨a, b, -, hm⟩
  · simp [hn] at hreads
  · simp [hn] at hreads
  · exact .inr ⟨⟨b, hm⟩, by simpa [hn] using hreads⟩
  · exact .inl ⟨b, hm⟩

end SameShape

/-- Valid graphs of one shape fail alike or have programs for the same order. -/
theorem SameShape.compile_cases (hgh : g.SameShape h) (hg : g.Valid) (hh : h.Valid) :
    (∃ fault, g.compile = .error fault ∧ h.compile = .error fault) ∨
    ∃ p q, g.compile = .ok ⟨p, g.stats g.order⟩ ∧ h.compile = .ok ⟨q, g.stats g.order⟩ ∧
      g.Spells g.order p ∧ h.Spells g.order q := by
  cases hval : g.validate with
  | error fault =>
    exact .inl ⟨fault, compile_of_validate_error hval,
      compile_of_validate_error (hgh.validate_eq ▸ hval)⟩
  | ok u =>
    rw [compile_of_validate_ok hval, compile_of_validate_ok (hgh.validate_eq ▸ hval),
      ← hgh.stats_eq, ← hgh.order_eq]
    rcases hg.programFor_cases with ⟨a, hga, hua, hla⟩ | ⟨hng, p, hp, hgp⟩ <;>
      rcases hh.programFor_cases with ⟨b, hhb, hub, hlb⟩ | ⟨hnh, q, hq, hhq⟩
    · have hab : a = b := NodeId.ext_index
        (Nat.le_antisymm (hla b (hgh.symm.unfed hub)) (hlb a (hgh.unfed hua)))
      rw [← hgh.order_eq] at hhb
      exact .inl ⟨.danglingInput a, by rw [hga]; rfl, by rw [hhb, hab]; rfl⟩
    · exact absurd (hgh.unfed hua) (hnh a)
    · exact absurd (hgh.symm.unfed hub) (hng b)
    · rw [← hgh.order_eq] at hq hhq
      exact .inr ⟨p, q, by rw [hp]; rfl, by rw [hq]; rfl, hgp, hhq⟩

/-- The nodes in the order of their statements. -/
def lineup (g : Graph) (order : List NodeId) : List NodeId :=
  order.filter g.makesClip ++ order.filter g.bindsSlot

theorem Spells.statements {order : List NodeId} {p : Program} (hp : g.Spells order p) :
    p.statements.map some = (g.lineup order).map (g.statement? order) := by
  rw [Program.statements, lineup, List.map_append, List.map_append, hp.body, hp.bindings]

theorem mem_lineup_iff {order : List NodeId} {id : NodeId} :
    id ∈ g.lineup order ↔ id ∈ order ∧ ∃ n, g.node? id = some n := by
  rw [lineup, List.mem_append, List.mem_filter, List.mem_filter, ← and_or_left, makesClip, bindsSlot]
  cases g.node? id with
  | none => simp
  | some n => cases n <;> simp

/-- If two programs for one lineup read alike, so do their statements for every node of it. -/
theorem Spells.sentence_eq {order : List NodeId} {p q : Program} (hp : g.Spells order p)
    (hq : h.Spells order q) (hlineup : h.lineup order = g.lineup order)
    (hpq : p.statements.map Statement.sentence = q.statements.map Statement.sentence)
    {id : NodeId} (hid : id ∈ g.lineup order) :
    ∃ s s', g.statement? order id = some s ∧ h.statement? order id = some s' ∧
      s.sentence = s'.sentence := by
  have hp' := hp.statements
  have hq' := hq.statements
  rw [hlineup] at hq'
  have hsome : ∀ {l : List Statement} {f : NodeId → Option Statement},
      l.map some = (g.lineup order).map f → ∃ s, f id = some s := by
    intro l f hl
    have hmem := hl ▸ List.mem_map_of_mem (f := f) hid
    obtain ⟨s, -, hs⟩ := List.mem_map.mp hmem
    exact ⟨s, hs.symm⟩
  obtain ⟨s, hs⟩ := hsome hp'
  obtain ⟨s', hs'⟩ := hsome hq'
  refine ⟨s, s', hs, hs', ?_⟩
  have hmaps : ((g.lineup order).map (g.statement? order)).map (Option.map Statement.sentence) =
      ((g.lineup order).map (h.statement? order)).map (Option.map Statement.sentence) := by
    rw [← hp', ← hq', List.map_map, List.map_map]
    simpa [Function.comp_def] using congrArg (List.map some) hpq
  rw [List.map_map, List.map_map, List.map_inj_left] at hmaps
  simpa [hs, hs'] using hmaps id hid

/-- The statements for the same node are the same. -/
theorem statement?_same (hs : g.same h = true) (hg : g.Valid) (hh : h.Valid)
    (order : List NodeId) (id : NodeId) :
    Option.Rel Statement.Same (g.statement? order id) (h.statement? order id) := by
  have hinput := congrFun ((sameShape_of_same hs).input?_eq order) id
  rcases node?_cases_of_same hs id with ⟨hn, hm⟩ | ⟨n, m, hn, hm, hnm⟩
  · rw [statement?, statement?, hn, hm]
    exact .none
  rcases Node.same_cases hnm with ⟨a, b, rfl, rfl, hpath, hhint⟩ | ⟨a, bs, rfl, rfl, has⟩ |
    ⟨o, rfl, rfl⟩
  · obtain ⟨path, ha⟩ := hg.nodes _ (mem_of_node? hn)
    obtain ⟨path', hb⟩ := hh.nodes _ (mem_of_node? hm)
    rw [ha, hb] at hpath
    simp only [statement?, hn, hm, ha, hb, hhint, FilePath.text?_ofText]
    exact .some (.load id _ hpath)
  · simp only [statement?, hn, hm, ← hinput]
    cases g.input? order id with
    | none => exact .none
    | some v => exact .some (.call id _ a.plugin a.function v has)
  · simp only [statement?, hn, hm, ← hinput]
    cases g.input? order id with
    | none => exact .none
    | some v => exact .some (.bind v o.slot)

/-- The same node is spelled alike if its statements read alike. -/
theorem node?_eq_of_sentence (hs : g.same h = true) (hg : g.Valid) (hh : h.Valid)
    {order : List NodeId} {id : NodeId} {s s' : Statement} (hgs : g.statement? order id = some s)
    (hhs : h.statement? order id = some s') (hsent : s.sentence = s'.sentence) :
    g.node? id = h.node? id := by
  rcases node?_cases_of_same hs id with ⟨hn, hm⟩ | ⟨n, m, hn, hm, hnm⟩
  · rw [hn, hm]
  rw [hn, hm]
  rcases Node.same_cases hnm with ⟨a, b, rfl, rfl, -, hhint⟩ | ⟨a, bs, rfl, rfl, has⟩ |
    ⟨o, rfl, rfl⟩
  · obtain ⟨path, ha⟩ := hg.nodes _ (mem_of_node? hn)
    obtain ⟨path', hb⟩ := hh.nodes _ (mem_of_node? hm)
    simp only [statement?, hn, hm, ha, hb, FilePath.text?_ofText, Option.map_some,
      Option.some.injEq] at hgs hhs
    subst hgs hhs
    have hpath : path = path' := (Sentence.load.inj hsent).2.2
    cases a
    cases b
    simp_all
  · simp only [statement?, hn, hm, Option.map_eq_some_iff] at hgs hhs
    obtain ⟨v, -, rfl⟩ := hgs
    obtain ⟨v', -, rfl⟩ := hhs
    simp only [Statement.sentence, Sentence.call.injEq] at hsent
    rw [← Node.eq_of_sameArguments has hsent.2.2.2.2.2]
  · rfl

/-- Same graphs fail with the same fault, or both have scripts. The scripts count the same and have
the same statements one by one. Their texts are equal exactly if the graphs spell every node that has
a statement alike. -/
theorem compile_of_same (hg : g.Built) (hh : h.Built) (hs : g.same h = true) :
    (∀ fault, g.compile = .error fault ↔ h.compile = .error fault) ∧
    ((∃ s, g.compile = .ok s) ↔ ∃ s, h.compile = .ok s) ∧
    ∀ s s', g.compile = .ok s → h.compile = .ok s' → s.stats = s'.stats ∧
      List.Forall₂ Statement.Same s.program.statements s'.program.statements ∧
      (s.text = s'.text ↔ ∀ id, g.Emitted id → g.node? id = h.node? id) := by
  have hgh := sameShape_of_same hs
  rcases hgh.compile_cases hg.valid hh.valid with ⟨fault, hgf, hhf⟩ | ⟨p, q, hgp, hhq, hp, hq⟩
  · simp [hgf, hhf]
  refine ⟨by simp [hgp, hhq], by simp [hgp, hhq], ?_⟩
  intro s s' hgs hhs
  rw [hgp] at hgs
  rw [hhq] at hhs
  obtain rfl := Except.ok.inj hgs
  obtain rfl := Except.ok.inj hhs
  have hlineup : h.lineup g.order = g.lineup g.order := by
    rw [lineup, lineup, hgh.makesClip_eq, hgh.bindsSlot_eq]
  have hp' := hp.statements
  have hq' := hq.statements
  rw [hlineup] at hq'
  refine ⟨rfl, ?_, ?_, ?_⟩
  · have hall : List.Forall₂ (Option.Rel Statement.Same) (p.statements.map some)
        (q.statements.map some) := by
      rw [hp', hq', List.forall₂_map_left_iff, List.forall₂_map_right_iff, List.forall₂_same]
      exact fun id _ => statement?_same hs hg.valid hh.valid g.order id
    rw [List.forall₂_map_left_iff, List.forall₂_map_right_iff] at hall
    exact hall.imp fun _ _ hsame => by simpa using hsame
  · intro htext id hid
    have hsentences : p.statements.map Statement.sentence = q.statements.map Statement.sentence := by
      have hpq : p.text = q.text := String.ofList_injective htext
      have hread := Reading.script?_text (hg.valid.proper_of_spells hp)
      rw [hpq, Reading.script?_text (hh.valid.proper_of_spells hq)] at hread
      exact (Option.some.inj hread).symm
    have hacyclic := (hg.valid.of_compile_eq_ok hgp).1
    have hid' : id ∈ g.lineup g.order :=
      mem_lineup_iff.mpr ⟨(hg.valid.mem_order_iff hacyclic).mpr hid, hg.valid.exists_node hid⟩
    obtain ⟨s, s', hgs, hhs, hsent⟩ := hp.sentence_eq hq hlineup hsentences hid'
    exact node?_eq_of_sentence hs hg.valid hh.valid hgs hhs hsent
  · intro hnodes
    have hstatements : p.statements = q.statements := by
      apply List.map_injective_iff.mpr (Option.some_injective Statement)
      rw [hp', hq']
      refine List.map_congr_left fun id hid => ?_
      have hemitted := hg.valid.emitted_of_mem_order (mem_lineup_iff.mp hid).1
      rw [statement?, statement?, hnodes id hemitted, hgh.input?_eq]
    rw [Script.text, Script.text, Program.text, Program.text, Program.lines, Program.lines,
      hstatements]

/-- A path with a second slash and a zero with a minus sign. -/
theorem boosted_same : (boosted "a//b.mkv" ⟨0⟩).Built ∧
    (boosted "a/b.mkv" ⟨0x8000000000000000⟩).Built ∧
    (boosted "a//b.mkv" ⟨0⟩).same (boosted "a/b.mkv" ⟨0x8000000000000000⟩) = true ∧
    ∃ s s', (boosted "a//b.mkv" ⟨0⟩).compile = .ok s ∧
      (boosted "a/b.mkv" ⟨0x8000000000000000⟩).compile = .ok s' ∧ s.stats = s'.stats ∧
      List.Forall₂ Statement.Same s.program.statements s'.program.statements ∧
      s.text ≠ s'.text := by
  have hg := (boosted_valid "a//b.mkv" ⟨0⟩).built
  have hh := (boosted_valid "a/b.mkv" ⟨0x8000000000000000⟩).built
  have hs : (boosted "a//b.mkv" ⟨0⟩).same (boosted "a/b.mkv" ⟨0x8000000000000000⟩) = true := by
    decide +kernel
  obtain ⟨-, hok, hscripts⟩ := compile_of_same hg hh hs
  have hcompile : ∃ s, (boosted "a//b.mkv" ⟨0⟩).compile = .ok s := ⟨_, by cbv⟩
  obtain ⟨s, hgs⟩ := hcompile
  obtain ⟨s', hhs⟩ := hok.mp ⟨s, hgs⟩
  obtain ⟨hstats, hstatements, htext⟩ := hscripts s s' hgs hhs
  refine ⟨hg, hh, hs, s, s', hgs, hhs, hstats, hstatements, fun heq => ?_⟩
  have hsource := htext.mp heq ⟨0⟩ (.inr ⟨⟨⟨0⟩, ⟨4096⟩⟩, by simp [boosted], .inl rfl⟩)
  exact absurd hsource (by decide)

/-- Same graphs may have different scripts. -/
theorem spellings_differ : (boosted "a//b.mkv" ⟨0⟩).Built ∧ (boosted "a/b.mkv" ⟨0⟩).Built ∧
    (boosted "a//b.mkv" ⟨0⟩).same (boosted "a/b.mkv" ⟨0⟩) = true ∧
    ∃ s s', (boosted "a//b.mkv" ⟨0⟩).compile = .ok s ∧ (boosted "a/b.mkv" ⟨0⟩).compile = .ok s' ∧
      s.text ≠ s'.text := by
  have hcompile : ∀ path ∈ ["a//b.mkv", "a/b.mkv"], (boosted path ⟨0⟩).compile = .ok ⟨⟨[
      .load ⟨0⟩ "ffms2.Source" path,
      .call ⟨1⟩ 1 "std" "Expr" (.source ⟨0⟩) [⟨"gain", .float ⟨0⟩⟩]],
      [.bind (.filter ⟨1⟩ 1) 0]⟩, ⟨3, 3, 0, 1, 1⟩⟩ := by
    intro path hpath
    simp only [List.mem_cons, List.not_mem_nil, or_false] at hpath
    rcases hpath with rfl | rfl <;> cbv
  exact ⟨(boosted_valid _ _).built, (boosted_valid _ _).built, by decide +kernel, _, _,
    hcompile "a//b.mkv" (by simp), hcompile "a/b.mkv" (by simp), by decide +kernel⟩

end Graph
end ClipGraph
