import ClipGraph.Proofs.Reading

/-!
# What a script makes

The text of a script is run on clips that only remember how they were made: it is read line by line, and
the lines are carried out in turn. The run keeps a table from the names that lines assign to the clips that
they hold, and a table of slots. A line that reads a name without a clip, or assigns a name that has one,
stops the run, and a text that is no script has none. A graph says by itself which clip arrives at a
node: walk the connections back through the filters to a source. The two agree: the run of a script
never stops early, and every output slot ends up with the clip that arrives at its output.
-/

namespace ClipGraph

/-- A clip by the calls that made it. -/
inductive Clip where
  | source (function path : String)
  | filter (plugin function : String) (arguments : List (String × List Char)) (input : Clip)
  deriving DecidableEq, Repr

def writtenArguments (as : List Argument) : List (String × List Char) :=
  as.map fun a => (a.name, a.value.literal)

def Spelling.literal : Spelling → List Char
  | .text s => Literal.quote s.toList
  | .plain cs => cs

theorem Param.literal_spelling (v : Param) : v.spelling.literal = v.literal := by cases v <;> rfl

/-- What the lines of a script have assigned and bound. -/
structure Stage where
  clips : List Char → Option Clip
  slots : UInt32 → Option Clip

namespace Stage

def empty : Stage := ⟨fun _ => none, fun _ => none⟩

def set (st : Stage) (name : List Char) (clip : Clip) : Stage :=
  { st with clips := fun other => if other = name then some clip else st.clips other }

/-- Assigns a name that has no clip yet. -/
def assign (st : Stage) (name : List Char) (clip : Clip) : Option Stage :=
  if (st.clips name).isSome then none else some (st.set name clip)

def bind (st : Stage) (slot : UInt32) (clip : Clip) : Stage :=
  { st with slots := fun other => if other = slot then some clip else st.slots other }

/-- Carries out what a line says. -/
def exec (st : Stage) : Sentence → Option Stage
  | .load node function path => st.assign (Variable.source node).name (.source function path)
  | .call node position plugin function input arguments => do
    let clip ← st.clips input.name
    st.assign (Variable.filter node position).name
      (.filter plugin function (arguments.map fun a => (a.1, a.2.literal)) clip)
  | .bind input slot => do
    let clip ← st.clips input.name
    return st.bind slot clip

/-- The stage after a list of lines, if all of them run. -/
def run (st : Stage) : List Sentence → Option Stage
  | [] => some st
  | s :: rest => (st.exec s).bind fun next => next.run rest

/-- The stage after a text, if it is read as a script whose lines all run. -/
def ofText? (text : List Char) : Option Stage := (Reading.script? text).bind empty.run

@[simp] theorem set_clips_same (st : Stage) (name : List Char) (clip : Clip) :
    (st.set name clip).clips name = some clip := if_pos rfl

theorem set_clips_other (st : Stage) {name other : List Char} (clip : Clip) (h : other ≠ name) :
    (st.set name clip).clips other = st.clips other := if_neg h

@[simp] theorem bind_slots_same (st : Stage) (slot : UInt32) (clip : Clip) :
    (st.bind slot clip).slots slot = some clip := if_pos rfl

theorem bind_slots_other (st : Stage) {slot other : UInt32} (clip : Clip) (h : other ≠ slot) :
    (st.bind slot clip).slots other = st.slots other := if_neg h

theorem run_append (st : Stage) (first second : List Sentence) :
    st.run (first ++ second) = (st.run first).bind fun next => next.run second := by
  induction first generalizing st with
  | nil => rfl
  | cons s first ih =>
    simp only [List.cons_append, run, Option.bind_assoc]
    exact congrArg _ (funext ih)

end Stage

theorem literal_spellings (as : List Argument) :
    (as.map fun a => (a.name, a.value.spelling)).map (fun a => (a.1, a.2.literal)) =
      writtenArguments as := by
  rw [writtenArguments, List.map_map]
  exact List.map_congr_left fun a _ => Prod.ext rfl a.value.literal_spelling

namespace Graph

/-- The clip that a source or a filter makes. -/
inductive Makes (g : Graph) : NodeId → Clip → Prop where
  | source {id : NodeId} {s : SourceNode} {path : String} (hn : g.node? id = some (.source s))
      (hp : s.path = .ofText path) : Makes g id (.source (Adapter.select s.hint).function path)
  | filter {id p : NodeId} {f : FilterNode} {c : Clip} (hn : g.node? id = some (.filter f))
      (hp : g.producer? id = some p) (hc : Makes g p c) :
      Makes g id (.filter f.plugin f.function (writtenArguments f.arguments) c)

/-- The clip that arrives at the input of a node. -/
def Receives (g : Graph) (id : NodeId) (c : Clip) : Prop :=
  ∃ p, g.producer? id = some p ∧ g.Makes p c

variable {g : Graph}

/-- A node makes one clip only. -/
theorem Makes.unique {id : NodeId} {c d : Clip} (hc : g.Makes id c) (hd : g.Makes id d) :
    c = d := by
  induction hc generalizing d with
  | source hn hp =>
    cases hd with
    | source hn' hp' =>
      rw [hn] at hn'
      cases hn'
      rw [hp, ← FilePath.text?_eq_some_iff, FilePath.text?_ofText] at hp'
      cases hp'
      rfl
    | filter hn' =>
      rw [hn] at hn'
      cases hn'
  | filter hn hp hc ih =>
    cases hd with
    | source hn' =>
      rw [hn] at hn'
      cases hn'
    | filter hn' hp' hd =>
      rw [hn] at hn'
      cases hn'
      rw [hp] at hp'
      cases hp'
      rw [ih hd]

/-- A node receives one clip only. -/
theorem Receives.unique {id : NodeId} {c d : Clip} (hc : g.Receives id c) (hd : g.Receives id d) :
    c = d := by
  obtain ⟨p, hp, hc⟩ := hc
  obtain ⟨q, hq, hd⟩ := hd
  rw [hp] at hq
  cases hq
  exact hc.unique hd

/-- Different nodes have different variables. -/
theorem eq_of_var? {order : List NodeId} {a b : NodeId} {v : Variable}
    (ha : g.var? order a = some v) (hb : g.var? order b = some v) : a = b := by
  have hnode : ∀ {id}, g.var? order id = some v → v.node = id := by
    intro id h
    unfold var? at h
    split at h
    · cases h
      rfl
    · cases h
      rfl
    · cases h
  rw [← hnode ha, ← hnode hb]

/-- No two outputs share a slot. -/
theorem Built.eq_of_slot (h : g.Built) {a b : NodeId} {k : UInt32}
    (ha : g.node? a = some (.output ⟨k⟩)) (hb : g.node? b = some (.output ⟨k⟩)) : a = b := by
  obtain ⟨calls, rfl⟩ := h
  have hused := (Draft.run_sound calls).usedSlots k
  have heq := ((hused a).mpr ha).symm.trans ((hused b).mpr hb)
  exact Option.some.inj heq

end Graph

namespace Stage

/-- The stage once the nodes in `done`, the first of an order, have been assigned. -/
structure Holds (g : Graph) (order done : List NodeId) (st : Stage) : Prop where
  known : ∀ id ∈ done, ∀ v, g.var? order id = some v →
    ∃ c, g.Makes id c ∧ st.clips v.name = some c
  only : ∀ name c, st.clips name = some c → ∃ id ∈ done, ∃ v, g.var? order id = some v ∧
    v.name = name

variable {g : Graph} {order done rest : List NodeId} {id : NodeId} {st : Stage}

/-- A node without a variable leaves the clips as they are. -/
theorem Holds.skip (hst : Holds g order done st) (hv : g.var? order id = none) :
    Holds g order (done ++ [id]) st where
  known := by
    intro a ha v hav
    rcases List.mem_append.mp ha with ha | ha
    · exact hst.known a ha v hav
    · rw [List.mem_singleton.mp ha, hv] at hav
      cases hav
  only := by
    intro name c hc
    obtain ⟨a, ha, hav⟩ := hst.only name c hc
    exact ⟨a, List.mem_append_left _ ha, hav⟩

/-- A new node finds its name free and gets the clip that it makes. -/
theorem Holds.assign (hst : Holds g order done st) {v : Variable} {c : Clip} (hnew : id ∉ done)
    (hv : g.var? order id = some v) (hc : g.Makes id c) :
    ∃ next, st.assign v.name c = some next ∧ Holds g order (done ++ [id]) next ∧
      next.slots = st.slots := by
  have hother : ∀ a ∈ done, ∀ w, g.var? order a = some w → w.name ≠ v.name := by
    intro a ha w hw heq
    rw [Reading.name_injective heq] at hw
    exact hnew (Graph.eq_of_var? hw hv ▸ ha)
  have hfree : st.clips v.name = none := by
    cases hclip : st.clips v.name with
    | none => rfl
    | some d =>
      obtain ⟨a, ha, w, hw, heq⟩ := hst.only _ _ hclip
      exact absurd heq (hother a ha w hw)
  refine ⟨st.set v.name c, by simp [Stage.assign, hfree], ⟨?_, ?_⟩, rfl⟩
  · intro a ha w hw
    rcases List.mem_append.mp ha with ha | ha
    · obtain ⟨d, hd, hclip⟩ := hst.known a ha w hw
      exact ⟨d, hd, (st.set_clips_other c (hother a ha w hw)).trans hclip⟩
    · rw [List.mem_singleton.mp ha] at hw ⊢
      rw [hv] at hw
      cases hw
      exact ⟨c, hc, st.set_clips_same v.name c⟩
  · intro name d hd
    by_cases hname : name = v.name
    · exact ⟨id, by simp, v, hv, hname.symm⟩
    · rw [st.set_clips_other c hname] at hd
      obtain ⟨a, ha, hav⟩ := hst.only name d hd
      exact ⟨a, List.mem_append_left _ ha, hav⟩

/-- A node whose producers are done receives a clip, under the name that it reads. -/
theorem Holds.input (h : g.Valid) (hst : Holds g order done st)
    (hfed : ∀ a, g.Feeds a id → a ∈ done) {v : Variable} (hv : g.input? order id = some v) :
    ∃ c, g.Receives id c ∧ st.clips v.name = some c := by
  rw [Graph.input?, Option.bind_eq_some_iff] at hv
  obtain ⟨p, hp, hv⟩ := hv
  obtain ⟨c, hc, hclip⟩ := hst.known p (hfed p (h.producer?_eq_some_iff.mp hp)) v hv
  exact ⟨c, ⟨p, hp, hc⟩, hclip⟩

/-- The statement of a node that makes a clip. -/
theorem Holds.exec (h : g.Valid) (hst : Holds g order done st) (hready : g.Ready done id)
    (hmakes : g.makesClip id = true) {s : Statement} (hs : g.statement? order id = some s) :
    ∃ next, st.exec s.sentence = some next ∧ Holds g order (done ++ [id]) next ∧
      next.slots = st.slots := by
  cases hn : g.node? id with
  | none => simp [Graph.makesClip, hn] at hmakes
  | some n =>
    cases n with
    | source src =>
      simp only [Graph.statement?, hn, Option.map_eq_some_iff] at hs
      obtain ⟨path, hpath, rfl⟩ := hs
      exact hst.assign hready.fresh (by simp [Graph.var?, hn])
        (.source hn (FilePath.text?_eq_some_iff.mp hpath))
    | filter f =>
      simp only [Graph.statement?, hn, Option.map_eq_some_iff] at hs
      obtain ⟨v, hv, rfl⟩ := hs
      obtain ⟨c, ⟨p, hp, hc⟩, hclip⟩ := hst.input h hready.fed hv
      simp only [Statement.sentence, Stage.exec, hclip, Option.bind_eq_bind, Option.bind_some,
        literal_spellings]
      exact hst.assign hready.fresh (by simp [Graph.var?, hn]) (.filter hn hp hc)
    | output o => simp [Graph.makesClip, hn] at hmakes

/-- The statements of the nodes of one kind all run, if each of them keeps what holds between the
nodes of the order and no other node changes it. -/
theorem run_filter {p : NodeId → Bool} {P : List NodeId → Stage → Prop}
    (hskip : ∀ {done id rest st}, order = done ++ id :: rest → p id = false → P done st →
      P (done ++ [id]) st)
    (hexec : ∀ {done id rest st s}, order = done ++ id :: rest → p id = true →
      g.statement? order id = some s → P done st →
      ∃ next, st.exec s.sentence = some next ∧ P (done ++ [id]) next)
    (ho : order = done ++ rest) (hst : P done st) {ss : List Statement}
    (hss : ss.map some = (rest.filter p).map (g.statement? order)) :
    ∃ last, st.run (ss.map Statement.sentence) = some last ∧ P order last := by
  induction rest generalizing done st ss with
  | nil =>
    have hnil : ss = [] := by simpa using hss
    rw [List.append_nil] at ho
    exact ⟨st, by rw [hnil, List.map_nil, run], ho ▸ hst⟩
  | cons id rest ih =>
    have hnext : order = (done ++ [id]) ++ rest := by simp [ho]
    cases hp : p id with
    | false =>
      rw [List.filter_cons_of_neg (by simp [hp])] at hss
      exact ih hnext (hskip ho hp hst) hss
    | true =>
      rw [List.filter_cons_of_pos hp, List.map_cons] at hss
      cases ss with
      | nil => simp at hss
      | cons s ss =>
        rw [List.map_cons, List.cons.injEq] at hss
        obtain ⟨next, hs, hkeep⟩ := hexec ho hp hss.1.symm hst
        obtain ⟨last, hrun, hlast⟩ := ih hnext hkeep hss.2
        exact ⟨last, by rw [List.map_cons, run, hs, Option.bind_some, hrun], hlast⟩

/-- The lines that make clips all run. -/
theorem Holds.run_body (h : g.Valid) (hst : Holds g g.order [] st) {body : List Statement}
    (hbody : body.map some = (g.order.filter g.makesClip).map (g.statement? g.order)) :
    ∃ next, st.run (body.map Statement.sentence) = some next ∧ Holds g g.order g.order next ∧
      next.slots = st.slots := by
  refine run_filter (P := fun done next => Holds g g.order done next ∧ next.slots = st.slots)
    ?_ ?_ (List.nil_append _).symm ⟨hst, rfl⟩ hbody
  · rintro done id rest next - hmakes ⟨hholds, hslots⟩
    rw [← g.isSome_var? g.order, Option.isSome_eq_false_iff, Option.isNone_iff_eq_none] at hmakes
    exact ⟨hholds.skip hmakes, hslots⟩
  · rintro done id rest next s ho hmakes hs ⟨hholds, hslots⟩
    obtain ⟨last, hexec, hlast, hsame⟩ := hholds.exec h (h.order_at ho).1 hmakes hs
    exact ⟨last, hexec, hlast, hsame.trans hslots⟩

/-- The slots once the outputs among the nodes in `done` have been bound. -/
def Bound (g : Graph) (done : List NodeId) (st : Stage) : Prop :=
  ∀ k c, st.slots k = some c ↔ ∃ id ∈ done, g.node? id = some (.output ⟨k⟩) ∧ g.Receives id c

theorem Bound.skip (hst : Bound g done st) (hbinds : g.bindsSlot id = false) :
    Bound g (done ++ [id]) st := by
  intro k c
  rw [hst k c]
  constructor
  · rintro ⟨a, ha, hac⟩
    exact ⟨a, List.mem_append_left _ ha, hac⟩
  · rintro ⟨a, ha, hn, hc⟩
    rcases List.mem_append.mp ha with ha | ha
    · exact ⟨a, ha, hn, hc⟩
    · rw [List.mem_singleton.mp ha] at hn
      simp [Graph.bindsSlot, hn] at hbinds

/-- A new output fills its slot, which no other output has. -/
theorem Bound.bind (hb : g.Built) (hst : Bound g done st) {k : UInt32} {c : Clip}
    (hn : g.node? id = some (.output ⟨k⟩)) (hc : g.Receives id c) :
    Bound g (done ++ [id]) (st.bind k c) := by
  intro j d
  by_cases hj : j = k
  · subst hj
    rw [st.bind_slots_same, Option.some.injEq]
    constructor
    · rintro rfl
      exact ⟨id, by simp, hn, hc⟩
    · rintro ⟨a, -, ha, hd⟩
      exact hc.unique (hb.eq_of_slot ha hn ▸ hd)
  · rw [st.bind_slots_other c hj, hst j d]
    constructor
    · rintro ⟨a, ha, had⟩
      exact ⟨a, List.mem_append_left _ ha, had⟩
    · rintro ⟨a, ha, haj, hd⟩
      rcases List.mem_append.mp ha with ha | ha
      · exact ⟨a, ha, haj, hd⟩
      · rw [List.mem_singleton.mp ha, hn] at haj
        cases haj
        exact absurd rfl hj

/-- The statement of an output, once all clips are made. -/
theorem Holds.exec_output (h : g.Valid) (hst : Holds g order done st)
    (hfed : ∀ a, g.Feeds a id → a ∈ done) (hbinds : g.bindsSlot id = true) {s : Statement}
    (hs : g.statement? order id = some s) :
    ∃ k c, g.node? id = some (.output ⟨k⟩) ∧ g.Receives id c ∧
      st.exec s.sentence = some (st.bind k c) := by
  cases hn : g.node? id with
  | none => simp [Graph.bindsSlot, hn] at hbinds
  | some n =>
    cases n with
    | source src => simp [Graph.bindsSlot, hn] at hbinds
    | filter f => simp [Graph.bindsSlot, hn] at hbinds
    | output o =>
      simp only [Graph.statement?, hn, Option.map_eq_some_iff] at hs
      obtain ⟨v, hv, rfl⟩ := hs
      obtain ⟨c, hc, hclip⟩ := hst.input h hfed hv
      exact ⟨o.slot, c, rfl, hc, by simp [Statement.sentence, Stage.exec, hclip]⟩

/-- The lines that bind slots all run. -/
theorem Bound.run_bindings (hb : g.Built) (hst : Holds g g.order g.order st)
    (hbound : Bound g [] st) {bindings : List Statement}
    (hbind : bindings.map some = (g.order.filter g.bindsSlot).map (g.statement? g.order)) :
    ∃ next, st.run (bindings.map Statement.sentence) = some next ∧ Bound g g.order next := by
  have hrun : ∃ next, st.run (bindings.map Statement.sentence) = some next ∧ Holds g g.order g.order next ∧
      Bound g g.order next := by
    refine run_filter (P := fun done next => Holds g g.order g.order next ∧ Bound g done next)
      ?_ ?_ (List.nil_append _).symm ⟨hst, hbound⟩ hbind
    · rintro done id rest next - hbinds ⟨hholds, hdone⟩
      exact ⟨hholds, hdone.skip hbinds⟩
    · rintro done id rest next s ho hbinds hs ⟨hholds, hdone⟩
      have hfed : ∀ a, g.Feeds a id → a ∈ g.order := by
        intro a ha
        rw [ho]
        exact List.mem_append_left _ ((hb.valid.order_at ho).1.fed a ha)
      obtain ⟨k, c, hn, hc, hexec⟩ := hholds.exec_output hb.valid hfed hbinds hs
      exact ⟨next.bind k c, hexec, ⟨hholds.known, hholds.only⟩, hdone.bind hb hn hc⟩
  obtain ⟨next, hnext, -, hlast⟩ := hrun
  exact ⟨next, hnext, hlast⟩

end Stage

namespace Graph

variable {g : Graph}

/-- In a graph with a script every output receives a clip. -/
theorem Valid.receives_of_output (h : g.Valid) (hacyclic : g.Acyclic) (hfed : ∀ a, ¬ g.Unfed a)
    {st : Stage} (hst : Stage.Holds g g.order g.order st) {id : NodeId} {o : OutputNode}
    (hn : g.node? id = some (.output o)) : ∃ c, g.Receives id c := by
  have hedge : ∃ e ∈ g.connections, e.toNode = id := by
    by_contra hbare
    push Not at hbare
    exact hfed id ⟨.inl ⟨o, hn⟩, hbare⟩
  obtain ⟨e, he, hto⟩ := hedge
  have hfeeds : g.Feeds e.fromNode id := ⟨e, he, rfl, hto⟩
  obtain ⟨v, hv⟩ := h.var?_of_feeds hfeeds g.order
  have hmem : e.fromNode ∈ g.order := (h.mem_order_iff hacyclic).mpr (.inr ⟨e, he, .inl rfl⟩)
  obtain ⟨c, hc, -⟩ := hst.known e.fromNode hmem v hv
  exact ⟨c, e.fromNode, h.producer?_eq_some_iff.mpr hfeeds, hc⟩

/-- The text of a script is read and its lines all run. The run fills the slot of every output with the
one clip that the output receives, and no other slot. -/
theorem run_of_compile_eq_ok (h : g.Built) {s : Script} (hs : g.compile = .ok s) :
    ∃ last, Stage.ofText? s.text.toList = some last ∧
      (∀ k, (∃ c, last.slots k = some c) ↔ ∃ id, g.node? id = some (.output ⟨k⟩)) ∧
      ∀ k id, g.node? id = some (.output ⟨k⟩) → ∀ c, last.slots k = some c ↔ g.Receives id c := by
  obtain ⟨hacyclic, hfed, hspells⟩ := h.valid.of_compile_eq_ok hs
  have hstart : Stage.Holds g g.order [] .empty := ⟨by simp, by simp [Stage.empty]⟩
  obtain ⟨made, hmade, hholds, hslots⟩ := hstart.run_body h.valid hspells.body
  have hnone : Stage.Bound g [] made := by
    intro k c
    simp [hslots, Stage.empty]
  obtain ⟨last, hlast, hbound⟩ := hnone.run_bindings h hholds hspells.bindings
  have hplaced : ∀ {id o}, g.node? id = some (.output o) → id ∈ g.order := fun hn =>
    (h.valid.mem_order_iff hacyclic).mpr (.inl ⟨_, hn⟩)
  refine ⟨last, ?_, ?_, ?_⟩
  · rw [Stage.ofText?, Script.text, String.toList_ofList,
      Reading.script?_text (h.valid.proper_of_spells hspells), Option.bind_some, Program.statements,
      List.map_append, Stage.run_append, hmade, Option.bind_some, hlast]
  · intro k
    constructor
    · rintro ⟨c, hc⟩
      obtain ⟨id, -, hn, -⟩ := (hbound k c).mp hc
      exact ⟨id, hn⟩
    · rintro ⟨id, hn⟩
      obtain ⟨c, hc⟩ := h.valid.receives_of_output hacyclic hfed hholds hn
      exact ⟨c, (hbound k c).mpr ⟨id, hplaced hn, hn, hc⟩⟩
  · intro k id hn c
    rw [hbound k c]
    constructor
    · rintro ⟨a, -, ha, hc⟩
      exact h.eq_of_slot ha hn ▸ hc
    · exact fun hc => ⟨id, hplaced hn, hn, hc⟩

/-- Two filters in a row with an output behind each, added from the back to the front. -/
def layered : Graph where
  nodes := #[.output ⟨7⟩, .filter ⟨"Flip", "std", "FlipVertical", []⟩,
    .filter ⟨"Crop", "std", "Crop", [⟨"left", .int 4⟩]⟩,
    .source ⟨.ofText "in.mkv", none⟩, .output ⟨0⟩]
  connections := #[⟨⟨4097⟩, ⟨0⟩⟩, ⟨⟨8193⟩, ⟨4096⟩⟩, ⟨⟨8193⟩, ⟨16384⟩⟩, ⟨⟨12288⟩, ⟨8192⟩⟩]

/-- Two outputs behind two filters get the clips that their filters make. -/
theorem layered_run : layered.Built ∧ ∃ s, layered.compile = .ok s ∧
    ∃ last, Stage.ofText? s.text.toList = some last ∧
      last.slots 7 = some (.filter "std" "FlipVertical" []
        (.filter "std" "Crop" [("left", ['4'])] (.source "ffms2.Source" "in.mkv"))) := by
  have hbuilt : layered.Built := Valid.built (by decide +kernel)
  have hcompile : layered.compile = .ok ⟨⟨[.load ⟨3⟩ "ffms2.Source" "in.mkv",
      .call ⟨2⟩ 1 "std" "Crop" (.source ⟨3⟩) [⟨"left", .int 4⟩],
      .call ⟨1⟩ 2 "std" "FlipVertical" (.filter ⟨2⟩ 1) []],
      [.bind (.filter ⟨1⟩ 2) 7, .bind (.filter ⟨2⟩ 1) 0]⟩, ⟨5, 5, 0, 2, 2⟩⟩ := by cbv
  have hback : layered.producer? ⟨0⟩ = some ⟨1⟩ ∧ layered.producer? ⟨1⟩ = some ⟨2⟩ ∧
      layered.producer? ⟨2⟩ = some ⟨3⟩ := by decide
  obtain ⟨last, hrun, -, hslots⟩ := run_of_compile_eq_ok hbuilt hcompile
  refine ⟨hbuilt, _, hcompile, last, hrun, (hslots 7 ⟨0⟩ rfl _).mpr ⟨⟨1⟩, hback.1, ?_⟩⟩
  have hsource : layered.Makes ⟨3⟩ (.source "ffms2.Source" "in.mkv") :=
    .source (s := ⟨.ofText "in.mkv", none⟩) rfl rfl
  exact .filter rfl hback.2.1 (.filter rfl hback.2.2 hsource)

end Graph
end ClipGraph
