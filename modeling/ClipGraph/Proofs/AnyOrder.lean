import ClipGraph.Proofs.Grammar
import ClipGraph.Proofs.Places
import ClipGraph.Proofs.Results
import ClipGraph.Script.Listing

/-!
# Listings of any order

A list of nodes, a list of connections and an order that need not belong together. The order may name
nodes that do not exist, leave nodes out and repeat others, and a node that is named again makes its clip
again. Such an order has a program exactly if every place of it is in order when the places before it
are: the node exists, a source has a path that can be written, and any other node is fed by one that came
before. So nothing is ever read before it is defined. Otherwise the first thing that is wrong is the
answer.
-/

namespace ClipGraph

def Variable.node : Variable → NodeId
  | .source node => node
  | .filter node _ => node

namespace Graph

def makesClip (g : Graph) (id : NodeId) : Bool := (g.node? id).any (!·.isOutput)

def bindsSlot (g : Graph) (id : NodeId) : Bool := (g.node? id).any Node.isOutput

/-- A connection into the input of a node from one that came before and makes a clip. -/
structure FedBy (g : Graph) (done : List NodeId) (id : NodeId) (e : Connection) : Prop where
  mem : e ∈ g.connections
  toNode : e.toNode = id
  input : g.direction? e.target = some .input
  before : e.fromNode ∈ done
  makesClip : g.makesClip e.fromNode = true

/-- The variable of a node behind the nodes in `done`. A filter is named after its last place. -/
inductive Holds (g : Graph) (done : List NodeId) (id : NodeId) : Variable → Prop where
  | source {s : SourceNode} (hn : g.node? id = some (.source s)) (hm : id ∈ done) :
      Holds g done id (.source id)
  | filter {f : FilterNode} {before after : List NodeId} (hn : g.node? id = some (.filter f))
      (hd : done = before ++ id :: after) (hlast : id ∉ after) :
      Holds g done id (.filter id before.length)

/-- The statement of a node that stands behind the nodes in `done`. -/
inductive Line (g : Graph) (done : List NodeId) (id : NodeId) : Statement → Prop where
  | load {s : SourceNode} {path : String} (hn : g.node? id = some (.source s))
      (hp : s.path = .ofText path) : Line g done id (.load id (Adapter.select s.hint).function path)
  | call {f : FilterNode} {e : Connection} {v : Variable} (hn : g.node? id = some (.filter f))
      (he : g.FedBy done id e) (hv : g.Holds done e.fromNode v) :
      Line g done id (.call id done.length f.plugin f.function v f.arguments)
  | bind {o : OutputNode} {e : Connection} {v : Variable} (hn : g.node? id = some (.output o))
      (he : g.FedBy done id e) (hv : g.Holds done e.fromNode v) : Line g done id (.bind v o.slot)

/-- What is wrong with a node that stands behind the nodes in `done`. -/
inductive Offends (g : Graph) (done : List NodeId) (id : NodeId) : CompileFault → Prop where
  | unknown (hn : g.node? id = none) : Offends g done id (.danglingInput id)
  | badPath {s : SourceNode} (hn : g.node? id = some (.source s))
      (hp : ∀ path, s.path ≠ .ofText path) : Offends g done id (.invalidGraph (.badPath id))
  | unfed {n : Node} (hn : g.node? id = some n) (hs : n.isSource = false)
      (hf : ∀ e, ¬ g.FedBy done id e) : Offends g done id (.danglingInput id)

variable {g : Graph} {done before after : List NodeId} {id a : NodeId}

/-- Only nodes that make clips hold a variable. -/
theorem makesClip_of_holds {v : Variable} (h : g.Holds done id v) : g.makesClip id = true := by
  cases h with
  | source hn => simp [makesClip, hn]
  | filter hn => simp [makesClip, hn]

theorem mem_of_holds {v : Variable} (h : g.Holds done id v) : id ∈ done := by
  cases h with
  | source _ hm => exact hm
  | filter _ hd => simp [hd]

/-- Every node that came before and makes a clip has a variable. -/
theorem exists_holds (hm : id ∈ done) (hc : g.makesClip id = true) : ∃ v, g.Holds done id v := by
  cases hn : g.node? id with
  | none => simp [makesClip, hn] at hc
  | some n =>
    cases n with
    | source s => exact ⟨_, .source hn hm⟩
    | filter f =>
      obtain ⟨front, back, hd, hlast⟩ := exists_last_place hm
      exact ⟨_, .filter hn hd hlast⟩
    | output o => simp [makesClip, hn] at hc

/-- One more node changes the variable of no other. -/
theorem holds_concat_of_ne {v : Variable} (h : a ≠ id) :
    g.Holds (done ++ [id]) a v ↔ g.Holds done a v := by
  constructor
  · intro hv
    cases hv with
    | source hn hm => exact .source hn (by simpa [h] using hm)
    | @filter _ front back hn hd hlast =>
      rcases concat_eq_append_cons hd with ⟨-, ha, -⟩ | ⟨rest, rfl, hdone⟩
      · exact absurd ha h
      · exact .filter hn hdone fun hm => hlast (List.mem_append_left _ hm)
  · intro hv
    cases hv with
    | source hn hm => exact .source hn (List.mem_append_left _ hm)
    | @filter _ front back hn hd hlast =>
      have hconcat : done ++ [id] = front ++ a :: (back ++ [id]) := by simp [hd]
      exact .filter hn hconcat (by simp [hlast, h])

theorem holds_concat_source {s : SourceNode} (hn : g.node? id = some (.source s)) {v : Variable} :
    g.Holds (done ++ [id]) id v ↔ v = .source id := by
  constructor
  · intro hv
    cases hv with
    | source => rfl
    | filter hf => simp [hn] at hf
  · rintro rfl
    exact .source hn (by simp)

theorem holds_concat_filter {f : FilterNode} (hn : g.node? id = some (.filter f)) {v : Variable} :
    g.Holds (done ++ [id]) id v ↔ v = .filter id done.length := by
  constructor
  · intro hv
    cases hv with
    | source hs => simp [hn] at hs
    | @filter _ front back hn hd hlast =>
      rcases concat_eq_append_cons hd with ⟨-, -, hdone⟩ | ⟨rest, rfl, -⟩
      · rw [hdone]
      · exact absurd (List.mem_append_right rest (List.mem_singleton_self id)) hlast
  · rintro rfl
    exact .filter hn rfl (by simp)

theorem not_holds_output {o : OutputNode} (hn : g.node? id = some (.output o)) {v : Variable} :
    ¬ g.Holds done id v := by
  intro hv
  have hc := makesClip_of_holds hv
  simp [makesClip, hn] at hc

end Graph

namespace Listing

open ClipGraph.Graph

/-- The listing of an order whose places are all in order. -/
structure Lists (g : Graph) (done : List NodeId) (l : Listing) : Prop where
  clips : ∀ id v, l.clips[id]? = some v ↔ g.Holds done id v
  body : List.Forall₂ (fun cut st => g.Line cut.1 cut.2 st)
    ((cuts done).filter fun cut => g.makesClip cut.2) l.body.toList
  bindings : List.Forall₂ (fun cut st => g.Line cut.1 cut.2 st)
    ((cuts done).filter fun cut => g.bindsSlot cut.2) l.bindings.toList

variable {g : Graph} {feeds : Feeds} {done before after : List NodeId} {id : NodeId} {l : Listing}

theorem Lists.define (hl : Lists g done l) {st : Statement} {v : Variable}
    (hmakes : g.makesClip id = true) (hbinds : g.bindsSlot id = false) (hst : g.Line done id st)
    (hv : ∀ w, g.Holds (done ++ [id]) id w ↔ w = v) : Lists g (done ++ [id]) (l.define id st v) where
  clips := by
    intro a w
    rw [Listing.define, Std.HashMap.getElem?_insert]
    by_cases ha : id = a
    · subst ha
      simp [hv, eq_comm]
    · simp [ha, hl.clips, holds_concat_of_ne (Ne.symm ha)]
  body := by
    simpa [Listing.define, cuts_concat, hmakes] using forall₂_concat hl.body hst
  bindings := by simpa [Listing.define, cuts_concat, hbinds] using hl.bindings

theorem Lists.bind (hl : Lists g done l) {st : Statement} {o : OutputNode}
    (hn : g.node? id = some (.output o)) (hst : g.Line done id st) :
    Lists g (done ++ [id]) { l with bindings := l.bindings.push st } where
  clips := by
    intro a w
    by_cases ha : a = id
    · subst ha
      simp [hl.clips, not_holds_output hn]
    · rw [holds_concat_of_ne ha]
      exact hl.clips a w
  body := by simpa [cuts_concat, makesClip, hn] using hl.body
  bindings := by
    simpa [cuts_concat, bindsSlot, hn] using forall₂_concat hl.bindings hst

section Feeds

variable (ht : (g.connections.toList.map Connection.target).Nodup)
  (hfeeds : ∀ t, feeds[t]? = (g.incoming? t).map Connection.source) (hl : Lists g done l)

include ht hfeeds hl

/-- The variable found at the input of a node is that of the node that feeds it. -/
theorem inputOf?_eq_some_iff {n : Node} (hn : g.node? id = some n) {v : Variable} :
    l.inputOf? feeds id n = some v ↔ ∃ e, g.FedBy done id e ∧ g.Holds done e.fromNode v := by
  simp only [inputOf?, Option.bind_eq_bind, Option.bind_eq_some_iff, hfeeds, Option.map_eq_some_iff,
    incoming?_eq_some_iff ht, hl.clips]
  constructor
  · rintro ⟨_, hin, _, ⟨e, ⟨he, rfl⟩, rfl⟩, hv⟩
    have hto := (Node.input?_eq_some_iff.mp hin).1
    have hinput : g.direction? e.target = some .input :=
      direction?_eq_some_iff.mpr ⟨n, hto ▸ hn, hto ▸ hin⟩
    exact ⟨e, ⟨he, hto, hinput, mem_of_holds hv, makesClip_of_holds hv⟩, hv⟩
  · rintro ⟨e, he, hv⟩
    obtain ⟨m, hm, hin⟩ := direction?_eq_some_iff.mp he.input
    have hto : e.target.node = id := he.toNode
    rw [hto, hn, Option.some.injEq] at hm
    subst hm
    rw [hto] at hin
    exact ⟨e.target, hin, e.source, ⟨e, ⟨he.mem, rfl⟩, rfl⟩, hv⟩

/-- Nothing is found if nothing feeds the node. -/
theorem inputOf?_eq_none_iff {n : Node} (hn : g.node? id = some n) :
    l.inputOf? feeds id n = none ↔ ∀ e, ¬ g.FedBy done id e := by
  rw [Option.eq_none_iff_forall_ne_some]
  constructor
  · intro hnone e he
    obtain ⟨v, hv⟩ := exists_holds he.before he.makesClip
    exact hnone v ((inputOf?_eq_some_iff ht hfeeds hl hn).mpr ⟨e, he, hv⟩)
  · intro hnone v hv
    obtain ⟨e, he, -⟩ := (inputOf?_eq_some_iff ht hfeeds hl hn).mp hv
    exact hnone e he

/-- A node that something is wrong with is not taken. -/
theorem take_eq_error {fault : CompileFault} (h : g.Offends done id fault) :
    l.take feeds g.nodes done.length id = .error fault := by
  cases h with
  | unknown hn =>
    have hget : g.nodes[id.index]? = none := hn
    simp only [take, hget]
  | @badPath s hn hp =>
    have hget : g.nodes[id.index]? = some (.source s) := hn
    have hnone := FilePath.text?_eq_none_iff.mpr hp
    simp only [take, hget, hnone]
  | @unfed n hn hs hf =>
    have hget : g.nodes[id.index]? = some n := hn
    have hnone := (inputOf?_eq_none_iff ht hfeeds hl hn).mpr hf
    cases n with
    | source s => cases hs
    | filter f => simp only [take, hget, hnone]
    | output o => simp only [take, hget, hnone]

/-- A node that nothing is wrong with is taken, and the listing goes on. -/
theorem take_eq_ok (h : ∀ fault, ¬ g.Offends done id fault) :
    ∃ next, l.take feeds g.nodes done.length id = .ok next ∧ Lists g (done ++ [id]) next := by
  cases hn : g.node? id with
  | none => exact absurd (.unknown hn) (h _)
  | some n =>
    have hget : g.nodes[id.index]? = some n := hn
    cases n with
    | source s =>
      cases htext : s.path.text? with
      | none => exact absurd (.badPath hn (FilePath.text?_eq_none_iff.mp htext)) (h _)
      | some path =>
        exact ⟨_, by simp only [take, hget, htext], hl.define (by simp [makesClip, hn])
          (by simp [bindsSlot, hn]) (.load hn (FilePath.text?_eq_some_iff.mp htext))
          fun _ => holds_concat_source hn⟩
    | filter f =>
      cases hin : l.inputOf? feeds id (.filter f) with
      | none =>
        exact absurd (.unfed hn rfl ((inputOf?_eq_none_iff ht hfeeds hl hn).mp hin)) (h _)
      | some v =>
        obtain ⟨e, he, hv⟩ := (inputOf?_eq_some_iff ht hfeeds hl hn).mp hin
        exact ⟨_, by simp only [take, hget, hin], hl.define (by simp [makesClip, hn])
          (by simp [bindsSlot, hn]) (.call hn he hv) fun _ => holds_concat_filter hn⟩
    | output o =>
      cases hin : l.inputOf? feeds id (.output o) with
      | none =>
        exact absurd (.unfed hn rfl ((inputOf?_eq_none_iff ht hfeeds hl hn).mp hin)) (h _)
      | some v =>
        obtain ⟨e, he, hv⟩ := (inputOf?_eq_some_iff ht hfeeds hl hn).mp hin
        exact ⟨_, by simp only [take, hget, hin], hl.bind hn (.bind hn he hv)⟩

/-- An order that nothing is wrong with is taken to its end. -/
theorem takeAll_eq_ok (h : ∀ cut ∈ cutsFrom done after, ∀ fault, ¬ g.Offends cut.1 cut.2 fault) :
    ∃ last, takeAll feeds g.nodes done.length l after = .ok last ∧ Lists g (done ++ after) last := by
  induction after generalizing done l with
  | nil => exact ⟨l, rfl, by rwa [List.append_nil]⟩
  | cons id after ih =>
    obtain ⟨hid, hafter⟩ := List.forall_mem_cons.mp h
    obtain ⟨next, hnext, hlists⟩ := take_eq_ok ht hfeeds hl hid
    obtain ⟨last, hlast, hall⟩ := ih hlists hafter
    refine ⟨last, ?_, by simpa using hall⟩
    rw [List.length_append, List.length_singleton] at hlast
    simp only [takeAll, hnext, hlast]

/-- An order is taken up to the first node that something is wrong with. -/
theorem takeAll_eq_error {fault : CompileFault} (after : List NodeId)
    (h : ∀ cut ∈ cutsFrom done before, ∀ fault, ¬ g.Offends cut.1 cut.2 fault)
    (hid : g.Offends (done ++ before) id fault) :
    takeAll feeds g.nodes done.length l (before ++ id :: after) = .error fault := by
  induction before generalizing done l with
  | nil =>
    rw [List.append_nil] at hid
    simp only [List.nil_append, takeAll, take_eq_error ht hfeeds hl hid]
  | cons a before ih =>
    obtain ⟨ha, hbefore⟩ := List.forall_mem_cons.mp h
    obtain ⟨next, hnext, hlists⟩ := take_eq_ok ht hfeeds hl ha
    have hrest := ih hlists hbefore (by simpa using hid)
    rw [List.length_append, List.length_singleton] at hrest
    simp only [List.cons_append, takeAll, hnext, hrest]

end Feeds

end Listing

/-- Different targets stay new to the table of feeds when one of them is entered. -/
theorem Feeds.fresh_insert {c : Connection} {rest : List Connection} {feeds : Feeds}
    (hc : c.target ∉ rest.map Connection.target) (hfresh : ∀ d ∈ c :: rest, d.target ∉ feeds) :
    ∀ d ∈ rest, d.target ∉ feeds.insert c.target c.source := by
  intro d hd hm
  rcases Std.HashMap.mem_insert.mp hm with heq | hm
  · exact hc (List.mem_map.mpr ⟨d, hd, (beq_iff_eq.mp heq).symm⟩)
  · exact hfresh d (List.mem_cons_of_mem _ hd) hm

/-- The table of feeds finds the connection that a search finds. -/
theorem Feeds.ofConnections_eq_ok (cs : List Connection) (feeds : Feeds)
    (ht : (cs.map Connection.target).Nodup) (hfresh : ∀ c ∈ cs, c.target ∉ feeds) :
    ∃ out, ofConnections cs feeds = .ok out ∧
      ∀ t, out[t]? = ((cs.find? (·.target == t)).map Connection.source).or feeds[t]? := by
  induction cs generalizing feeds with
  | nil => exact ⟨feeds, rfl, by simp⟩
  | cons c rest ih =>
    obtain ⟨hc, hrest⟩ := List.nodup_cons.mp ht
    obtain ⟨out, hok, hout⟩ := ih (feeds.insert c.target c.source) hrest (fresh_insert hc hfresh)
    have hhead : feeds.contains c.target = false := by
      simpa using hfresh c List.mem_cons_self
    refine ⟨out, by simp [ofConnections, hhead, hok], ?_⟩
    intro t
    rw [hout t, Std.HashMap.getElem?_insert, List.find?_cons]
    by_cases h : c.target = t
    · have hnone : rest.find? (·.target == t) = none := by
        rw [List.find?_eq_none]
        intro d hd heq
        exact hc (List.mem_map.mpr ⟨d, hd, by rw [h]; simpa using heq⟩)
      simp [h, hnone]
    · have hb : (c.target == t) = false := by simpa using h
      simp [hb]

/-- The table of feeds is not made if a target is one of those before it. -/
theorem Feeds.ofConnections_eq_error {before : List Connection} {e : Connection} {feeds : Feeds}
    (after : List Connection) (ht : (before.map Connection.target).Nodup)
    (hfresh : ∀ c ∈ before, c.target ∉ feeds)
    (he : e.target ∈ before.map Connection.target ∨ e.target ∈ feeds) :
    ofConnections (before ++ e :: after) feeds = .error (.inputTaken e.target) := by
  induction before generalizing feeds with
  | nil =>
    have hmem : feeds.contains e.target = true := by simpa using he
    simp only [List.nil_append, ofConnections, if_pos hmem]
  | cons c before ih =>
    obtain ⟨hc, hbefore⟩ := List.nodup_cons.mp ht
    have hhead : ¬ feeds.contains c.target = true := by
      simpa using hfresh c List.mem_cons_self
    rw [List.cons_append, ofConnections, if_neg hhead]
    refine ih hbefore (fresh_insert hc hfresh) ?_
    rw [Std.HashMap.mem_insert, beq_iff_eq]
    rcases he with he | he
    · rcases List.mem_cons.mp he with heq | hm
      · exact .inr (.inl heq.symm)
      · exact .inl hm
    · exact .inr (.inr he)

namespace Graph

/-- Connections with different targets, and places that nothing is wrong with. -/
structure Listable (g : Graph) (order : List NodeId) : Prop where
  targets : (g.connections.toList.map Connection.target).Nodup
  known : ∀ id ∈ order, ∃ n, g.node? id = some n
  readable : ∀ id ∈ order, ∀ s, g.node? id = some (.source s) → ∃ path, s.path = .ofText path
  fed : ∀ before id after n, order = before ++ id :: after → g.node? id = some n →
    n.isSource = false → ∃ e, g.FedBy before id e

/-- The first thing that is wrong with an order: a connection whose target is one of those before it, or
else a node of the order. -/
inductive FirstFault (g : Graph) (order : List NodeId) : CompileFault → Prop where
  | inputTaken {before after : List Connection} {e : Connection}
      (hc : g.connections.toList = before ++ e :: after)
      (hb : (before.map Connection.target).Nodup) (he : e.target ∈ before.map Connection.target) :
      FirstFault g order (.invalidGraph (.inputTaken e.target))
  | node {before after : List NodeId} {id : NodeId} {fault : CompileFault}
      (ht : (g.connections.toList.map Connection.target).Nodup)
      (ho : order = before ++ id :: after)
      (hb : ∀ cut ∈ cuts before, ∀ fault, ¬ g.Offends cut.1 cut.2 fault)
      (hid : g.Offends before id fault) : FirstFault g order fault

variable {g : Graph} {order : List NodeId}

/-- Whether an order has a script can be told by looking at each of its places. -/
theorem listable_iff : g.Listable order ↔ (g.connections.toList.map Connection.target).Nodup ∧
    ∀ cut ∈ cuts order, ∀ fault, ¬ g.Offends cut.1 cut.2 fault := by
  constructor
  · intro h
    refine ⟨h.targets, ?_⟩
    rintro ⟨before, id⟩ hcut fault hid
    obtain ⟨after, ho⟩ := mem_cuts.mp hcut
    have hmem : id ∈ order := by simp [ho]
    cases hid with
    | unknown hn =>
      obtain ⟨n, hn'⟩ := h.known id hmem
      rw [hn] at hn'
      cases hn'
    | badPath hn hp =>
      obtain ⟨path, hpath⟩ := h.readable id hmem _ hn
      exact hp path hpath
    | unfed hn hs hf =>
      obtain ⟨e, he⟩ := h.fed before id after _ ho hn hs
      exact hf e he
  · rintro ⟨ht, h⟩
    have hplace : ∀ id ∈ order, ∃ before, ∀ fault, ¬ g.Offends before id fault := by
      intro id hmem
      obtain ⟨before, after, ho⟩ := List.append_of_mem hmem
      exact ⟨before, h (before, id) (mem_cuts.mpr ⟨after, ho⟩)⟩
    refine ⟨ht, fun id hmem => ?_, fun id hmem s hn => ?_, fun before id after n ho hn hs => ?_⟩
    · obtain ⟨before, hid⟩ := hplace id hmem
      exact Option.ne_none_iff_exists'.mp fun hn => hid _ (.unknown hn)
    · obtain ⟨before, hid⟩ := hplace id hmem
      by_contra hp
      exact hid _ (.badPath hn (not_exists.mp hp))
    · by_contra hf
      exact h (before, id) (mem_cuts.mpr ⟨after, ho⟩) _ (.unfed hn hs (not_exists.mp hf))

/-- What is not listable has a first fault. -/
theorem listable_or_exists_firstFault (g : Graph) (order : List NodeId) :
    g.Listable order ∨ ∃ fault, g.FirstFault order fault := by
  rcases nodup_map_or_exists_first Connection.target g.connections.toList with
    ht | ⟨before, e, after, hc, hb, he⟩
  · rcases forall_cuts_or_exists_first (fun cut => ∀ fault, ¬ g.Offends cut.1 cut.2 fault) order with
      h | ⟨before, id, after, ho, hb, hid⟩
    · exact .inl (listable_iff.mpr ⟨ht, h⟩)
    · obtain ⟨fault, hfault⟩ := not_forall_not.mp hid
      exact .inr ⟨fault, .node ht ho hb hfault⟩
  · exact .inr ⟨_, .inputTaken hc hb he⟩

/-- The table of feeds of different targets, which finds what a search finds. -/
theorem exists_feeds (ht : (g.connections.toList.map Connection.target).Nodup) :
    ∃ feeds, ClipGraph.Feeds.ofConnections g.connections.toList ∅ = .ok feeds ∧
      ∀ t, feeds[t]? = (g.incoming? t).map Connection.source := by
  obtain ⟨feeds, hok, hfeeds⟩ :=
    ClipGraph.Feeds.ofConnections_eq_ok g.connections.toList ∅ ht (by simp)
  exact ⟨feeds, hok, fun t => by simp [hfeeds t, incoming?]⟩

theorem lists_empty : Listing.Lists g [] .empty where
  clips := by
    intro id v
    have hnone : ¬ g.Holds [] id v := fun hv => absurd (mem_of_holds hv) List.not_mem_nil
    simp [Listing.empty, hnone]
  body := .nil
  bindings := .nil

/-- A program with a statement for every place of the order, those that make clips in front. -/
structure LinesOf (g : Graph) (order : List NodeId) (p : Program) : Prop where
  body : List.Forall₂ (fun cut st => g.Line cut.1 cut.2 st)
    ((cuts order).filter fun cut => g.makesClip cut.2) p.body
  bindings : List.Forall₂ (fun cut st => g.Line cut.1 cut.2 st)
    ((cuts order).filter fun cut => g.bindsSlot cut.2) p.bindings

/-- A listable order has a program. -/
theorem Listable.programFor (h : g.Listable order) :
    ∃ p, g.programFor order = .ok p ∧ g.LinesOf order p := by
  obtain ⟨feeds, hok, hfeeds⟩ := exists_feeds h.targets
  obtain ⟨last, hlast, hl⟩ := Listing.takeAll_eq_ok h.targets hfeeds lists_empty (listable_iff.mp h).2
  rw [List.length_nil] at hlast
  exact ⟨last.program, by simp [Graph.programFor, hok, hlast], hl.body, hl.bindings⟩

/-- The first fault of an order is the answer. -/
theorem FirstFault.programFor {fault : CompileFault} (h : g.FirstFault order fault) :
    g.programFor order = .error fault := by
  cases h with
  | @inputTaken before after e hc hb he =>
    have herr : ClipGraph.Feeds.ofConnections (before ++ e :: after) ∅ = .error (.inputTaken e.target) :=
      ClipGraph.Feeds.ofConnections_eq_error after hb (by simp) (.inl he)
    rw [Graph.programFor, hc, herr]
  | @node before after id fault ht ho hb hid =>
    obtain ⟨feeds, hok, hfeeds⟩ := exists_feeds ht
    have herr := Listing.takeAll_eq_error ht hfeeds lists_empty after hb hid
    rw [List.length_nil] at herr
    simp [Graph.programFor, hok, ho, herr]

/-- What a statement reads is the variable of the node that feeds it. -/
theorem Line.exists_holds {done : List NodeId} {id : NodeId} {st : Statement} {v : Variable}
    (h : g.Line done id st) (hv : st.reads? = some v) :
    ∃ e, g.FedBy done id e ∧ g.Holds done e.fromNode v := by
  cases h with
  | load => cases hv
  | call _ he hw =>
    obtain rfl := Option.some.inj hv
    exact ⟨_, he, hw⟩
  | bind _ he hw =>
    obtain rfl := Option.some.inj hv
    exact ⟨_, he, hw⟩

example : ((boosted "in.mp4" ⟨0⟩).programFor [⟨0⟩, ⟨1⟩, ⟨1⟩, ⟨2⟩]).map Program.bindings =
    .ok [.bind (.filter ⟨1⟩ 2) 0] := by
  cbv

example : (boosted "in.mp4" ⟨0⟩).programFor [⟨0⟩, ⟨2⟩, ⟨1⟩] = .error (.danglingInput ⟨2⟩) := by
  cbv

end Graph
end ClipGraph
