import ClipGraph.Proofs.Valid

/-!
# Runs of a draft

A draft is driven by calls that add a node, connect two nodes or join two connectors, in any order
and with any arguments. A refused call leaves it as it was. After every run the graph under
construction is valid, the two indexes say exactly what the lists say, and an answered number is the
place of what was added. Every valid graph comes out of some run.
-/

namespace ClipGraph
namespace Draft

inductive Call where
  | add (node : Node)
  | connect (producer consumer : NodeId)
  | join (source target : Connector)
  deriving DecidableEq, Repr

inductive Answer where
  | node (id : NodeId)
  | connection (id : ConnectionId)
  | refused (fault : GraphFault)
  deriving DecidableEq, Repr

/-- The draft after a call that may be refused, and the answer. -/
def settle (d : Draft) (answer : α → Answer) : Except GraphFault (Draft × α) → Draft × Answer
  | .error fault => (d, .refused fault)
  | .ok (next, id) => (next, answer id)

def perform (d : Draft) : Call → Draft × Answer
  | .add n => d.settle .node (d.add n)
  | .connect producer consumer => d.settle .connection (d.connect producer consumer)
  | .join source target => d.settle .connection (d.join source target)

/-- The draft after a sequence of calls, whatever each of them answers. -/
def runFrom (d : Draft) : List Call → Draft
  | [] => d
  | call :: rest => (d.perform call).1.runFrom rest

def run (calls : List Call) : Draft := empty.runFrom calls

/-- What holds between any two calls. -/
structure Sound (d : Draft) : Prop where
  valid : d.finish.Valid
  usedInputs : ∀ c, c ∈ d.usedInputs ↔ ∃ e ∈ d.connections, e.target = c
  usedSlots : ∀ k id, d.usedSlots[k]? = some id ↔ d.finish.node? id = some (.output ⟨k⟩)

theorem empty_sound : empty.Sound where
  valid := ⟨by simp [empty, finish], by simp [empty, finish], by simp [empty, finish],
    by simp [empty, finish], by simp [empty, finish]⟩
  usedInputs := by simp [empty]
  usedSlots := by simp [empty, finish, Graph.node?]

/-- Reading the argument list stops at no name exactly if all are proper and new. -/
theorem checkArguments_eq_ok_iff (id : NodeId) (seen : List String) (as : List Argument) :
    checkArguments id seen as = .ok () ↔ (∀ a ∈ as, IsName a.name) ∧
      (∀ a ∈ as, a.name ∉ seen) ∧ (as.map Argument.name).Nodup := by
  induction as generalizing seen with
  | nil => simp [checkArguments]
  | cons a rest ih =>
    by_cases hname : isIdentifier a.name = true
    · by_cases hseen : a.name ∈ seen
      · simp [checkArguments, hname, hseen]
      · have hstep : checkArguments id seen (a :: rest) =
            checkArguments id (a.name :: seen) rest := by
          simp [checkArguments, hname, hseen]
        have ha : IsName a.name := (isIdentifier_iff _).mp hname
        simp only [hstep, ih, List.forall_mem_cons, List.map_cons, List.nodup_cons]
        constructor
        · rintro ⟨hn, hs, hd⟩
          refine ⟨⟨ha, hn⟩, ⟨hseen, fun b hb => ?_⟩, ?_, hd⟩
          · exact fun hm => hs b hb (List.mem_cons_of_mem _ hm)
          · intro hm
            obtain ⟨b, hb, hba⟩ := List.mem_map.mp hm
            exact hs b hb (hba ▸ List.mem_cons_self)
        · rintro ⟨⟨-, hn⟩, ⟨-, hs⟩, hnew, hd⟩
          refine ⟨hn, fun b hb hm => ?_, hd⟩
          rcases List.mem_cons.mp hm with hba | hm
          · exact hnew (List.mem_map.mpr ⟨b, hb, hba⟩)
          · exact hs b hb hm
    · have hbad : ¬ IsName a.name := fun h => hname ((isIdentifier_iff _).mpr h)
      simp [checkArguments, hname, hbad]

/-- A filter passes the check just if it is properly named. -/
theorem checkFilter_eq_ok_iff (id : NodeId) (f : FilterNode) :
    checkFilter id f = .ok () ↔ f.Named := by
  have hargs := checkArguments_eq_ok_iff id [] f.arguments
  by_cases hp : isIdentifier f.plugin = true
  · by_cases hf : isIdentifier f.function = true
    · simp only [checkFilter, hp, hf, Bool.not_true, Bool.false_eq_true, if_false, hargs]
      constructor
      · rintro ⟨hn, -, hd⟩
        exact ⟨(isIdentifier_iff _).mp hp, (isIdentifier_iff _).mp hf, hn, hd⟩
      · rintro ⟨-, -, hn, hd⟩
        exact ⟨hn, by simp, hd⟩
    · simp only [checkFilter, hp, hf]
      exact ⟨by simp, fun h => absurd ((isIdentifier_iff _).mpr h.function) hf⟩
  · simp only [checkFilter, hp]
    exact ⟨by simp, fun h => absurd ((isIdentifier_iff _).mpr h.plugin) hp⟩

/-- A node passes the check just if there is room, it is admissible and its slot is free. -/
theorem check_eq_ok_iff (d : Draft) (n : Node) :
    d.check n = .ok () ↔
      d.nodes.size < 1048576 ∧ n.Admissible ∧ ∀ k ∈ n.slot?, d.usedSlots[k]? = none := by
  by_cases hroom : d.nodes.size < 1048576
  · have hlimit : ¬ nodeLimit ≤ d.nodes.size := by
      rw [show nodeLimit = 1048576 from rfl]
      omega
    simp only [check, hlimit, if_false, hroom, true_and]
    cases n with
    | source s =>
      cases ht : s.path.text? with
      | none =>
        have hbad : ∀ t, s.path ≠ .ofText t := by
          intro t h
          rw [FilePath.text?_eq_some_iff.mpr h] at ht
          simp at ht
        simp [Node.Admissible, ht, hbad]
      | some t =>
        simp [Node.Admissible, Node.slot?, ht]
        exact ⟨t, FilePath.text?_eq_some_iff.mp ht⟩
    | filter f => simp [Node.Admissible, Node.slot?, checkFilter_eq_ok_iff]
    | output o =>
      simp only [Node.Admissible, Node.slot?, Option.mem_some_iff, forall_eq', true_and]
      cases d.usedSlots[o.slot]? <;> simp
  · have hlimit : nodeLimit ≤ d.nodes.size := by
      rw [show nodeLimit = 1048576 from rfl]
      omega
    simp [check, hlimit, hroom]

theorem push_finish (d : Draft) (n : Node) :
    (d.push n).finish = ⟨d.nodes.push n, d.connections⟩ := by
  cases n <;> rfl

@[simp] theorem push_nodes (d : Draft) (n : Node) : (d.push n).nodes = d.nodes.push n := by
  cases n <;> rfl

@[simp] theorem push_connections (d : Draft) (n : Node) :
    (d.push n).connections = d.connections := by
  cases n <;> rfl

theorem push_usedInputs (d : Draft) (n : Node) : (d.push n).usedInputs = d.usedInputs := by
  cases n <;> rfl

theorem push_usedSlots (d : Draft) (n : Node) (k : UInt32) :
    (d.push n).usedSlots[k]? =
      if n.slot? = some k then some (NodeId.ofIndex d.nodes.size) else d.usedSlots[k]? := by
  cases n with
  | source s => simp [push, Node.slot?]
  | filter f => simp [push, Node.slot?]
  | output o =>
    simp only [push, Node.slot?, Std.HashMap.getElem?_insert, Option.some.injEq, beq_iff_eq]

end Draft

theorem Node.slot?_eq_some_iff {n : Node} {k : UInt32} :
    n.slot? = some k ↔ n = .output ⟨k⟩ := by
  cases n <;> simp [slot?]
  next o => cases o; simp

namespace Graph

/-- A new node hides none of the old ones. -/
theorem node?_push {g : Graph} {n m : Node} {id : NodeId} (h : g.node? id = some m) :
    Graph.node? ⟨g.nodes.push n, g.connections⟩ id = some m := by
  have hlt := lt_size_of_node? h
  simp only [node?] at h ⊢
  rw [Array.getElem?_push_lt hlt, ← h, Array.getElem?_eq_getElem hlt]

theorem direction?_push {g : Graph} {n : Node} {c : Connector} {d : Direction}
    (h : g.direction? c = some d) :
    direction? ⟨g.nodes.push n, g.connections⟩ c = some d := by
  obtain ⟨m, hm, hd⟩ := direction?_eq_some_iff.mp h
  exact direction?_eq_some_iff.mpr ⟨m, node?_push hm, hd⟩

end Graph

/-- A node with properties of its own and with a slot that no other has keeps a graph valid. -/
theorem Graph.Valid.push {g : Graph} {n : Node} (hg : g.Valid) (hroom : g.nodes.size < 1048576)
    (hn : n.Admissible) (hfree : ∀ k ∈ n.slot?, k ∉ g.nodes.toList.filterMap Node.slot?) :
    Graph.Valid ⟨g.nodes.push n, g.connections⟩ where
  room := by
    simp only [Array.size_push]
    omega
  nodes := by
    intro m hm
    rcases Array.mem_push.mp hm with hm | rfl
    · exact hg.nodes m hm
    · exact hn
  slots := by
    simp only [Array.toList_push, List.filterMap_append, List.filterMap_cons, List.filterMap_nil]
    cases hk : n.slot? with
    | none => simpa using hg.slots
    | some k =>
      refine List.nodup_append.mpr ⟨hg.slots, List.nodup_singleton k, ?_⟩
      intro a ha b hb hab
      rw [List.mem_singleton] at hb
      subst hb
      exact hfree b hk (hab ▸ ha)
  ends := by
    intro e he
    obtain ⟨hs, ht⟩ := hg.ends e he
    exact ⟨Graph.direction?_push hs, Graph.direction?_push ht⟩
  targets := hg.targets

/-- A connection from an output to a free input keeps a graph valid. -/
theorem Graph.Valid.join {g : Graph} {source target : Connector} (hg : g.Valid)
    (hs : g.direction? source = some .output) (ht : g.direction? target = some .input)
    (hfree : ∀ e ∈ g.connections, e.target ≠ target) :
    Graph.Valid ⟨g.nodes, g.connections.push ⟨source, target⟩⟩ where
  room := hg.room
  nodes := hg.nodes
  slots := hg.slots
  ends := by
    intro e he
    rcases Array.mem_push.mp he with he | rfl
    · exact hg.ends e he
    · exact ⟨hs, ht⟩
  targets := by
    simp only [Array.toList_push, List.map_append, List.map_cons, List.map_nil]
    refine List.nodup_append.mpr ⟨hg.targets, List.nodup_singleton target, ?_⟩
    intro a ha b hb hab
    obtain ⟨e, he, rfl⟩ := List.mem_map.mp ha
    exact hfree e (by simpa using he) (hab.trans (List.mem_singleton.mp hb))

namespace Draft

/-- A slot that is not entered as used is on no node. -/
theorem Sound.slot_free {d : Draft} (hd : d.Sound) {k : UInt32} (hk : d.usedSlots[k]? = none) :
    k ∉ d.nodes.toList.filterMap Node.slot? := by
  intro hm
  obtain ⟨m, hm, hmk⟩ := List.mem_filterMap.mp hm
  obtain ⟨i, hi, hget⟩ := List.mem_iff_getElem.mp hm
  have hlt : i < d.nodes.size := by simpa using hi
  have hroom : d.nodes.size ≤ 1048576 := hd.valid.room
  have hid : (NodeId.ofIndex i).index = i := NodeId.index_ofIndex (by omega)
  have hnode : d.finish.node? (.ofIndex i) = some (.output ⟨k⟩) := by
    simp only [Graph.node?, finish, hid]
    rw [Array.getElem?_eq_getElem hlt, ← Node.slot?_eq_some_iff.mp hmk, ← hget]
    simp
  rw [(hd.usedSlots k _).mpr hnode] at hk
  simp at hk

/-- An accepted node keeps the promises. -/
theorem push_sound {d : Draft} {n : Node} (hd : d.Sound) (hc : d.check n = .ok ()) :
    (d.push n).Sound := by
  obtain ⟨hroom, hn, hslot⟩ := (check_eq_ok_iff d n).mp hc
  have hsize : (NodeId.ofIndex d.nodes.size).index = d.nodes.size :=
    NodeId.index_ofIndex (by omega)
  constructor
  · rw [push_finish]
    exact hd.valid.push hroom hn fun k hk => hd.slot_free (hslot k hk)
  · intro c
    rw [push_usedInputs, push_connections]
    exact hd.usedInputs c
  · intro k id
    rw [push_usedSlots, push_finish]
    by_cases hk : n.slot? = some k
    · have hout := Node.slot?_eq_some_iff.mp hk
      simp only [hk, if_true, Option.some.injEq, Graph.node?, Array.getElem?_push]
      constructor
      · rintro rfl
        rw [if_pos hsize, hout]
      · intro h
        split at h
        · next hid => exact NodeId.ext_index (by rw [hsize, hid])
        · have hused := (hd.usedSlots k id).mpr h
          rw [hslot k hk] at hused
          simp at hused
    · rw [if_neg hk, hd.usedSlots]
      simp only [Graph.node?, finish, Array.getElem?_push]
      split
      · next hid =>
        rw [hid]
        simp only [Option.some.injEq]
        constructor
        · simp
        · intro h
          exact absurd (Node.slot?_eq_some_iff.mpr h) hk
      · exact Iff.rfl

theorem directionOf_eq_ok_iff (d : Draft) (c : Connector) (dir : Direction) :
    d.directionOf c = .ok dir ↔ d.finish.direction? c = some dir := by
  have h : d.finish.direction? c = d.nodes[c.node.index]?.bind (·.direction? c.port) := rfl
  rw [h, directionOf]
  cases d.nodes[c.node.index]?.bind (·.direction? c.port) <;> simp

/-- A connection passes the check just if it runs from an output to an input that is free. -/
theorem checkJoin_eq_ok_iff (d : Draft) (source target : Connector) :
    d.checkJoin source target = .ok () ↔ d.finish.direction? source = some .output ∧
      d.finish.direction? target = some .input ∧ target ∉ d.usedInputs := by
  simp only [checkJoin, ← directionOf_eq_ok_iff]
  cases hs : d.directionOf source with
  | error f => simp [bind, Except.bind]
  | ok ds =>
    cases ht : d.directionOf target with
    | error f => simp [bind, Except.bind]
    | ok dt =>
      by_cases hdir : ds = .output ∧ dt = .input
      · obtain ⟨rfl, rfl⟩ := hdir
        by_cases hu : target ∈ d.usedInputs <;> simp [bind, Except.bind, hu]
      · have hbad : ds ≠ .output ∨ dt ≠ .input := by
          by_cases h : ds = .output
          · exact .inr fun h' => hdir ⟨h, h'⟩
          · exact .inl h
        simp only [bind, Except.bind, if_pos hbad, Except.ok.injEq]
        simp only [reduceCtorEq, false_iff]
        rintro ⟨h, h', -⟩
        exact hdir ⟨h, h'⟩

/-- An accepted connection keeps the promises. -/
theorem pushConnection_sound {d : Draft} {source target : Connector} (hd : d.Sound)
    (hc : d.checkJoin source target = .ok ()) : (d.pushConnection source target).Sound := by
  obtain ⟨hs, ht, hfree⟩ := (checkJoin_eq_ok_iff d source target).mp hc
  constructor
  · refine hd.valid.join hs ht fun e he htarget => hfree ?_
    exact (hd.usedInputs target).mpr ⟨e, he, htarget⟩
  · intro c
    simp only [pushConnection, Std.HashSet.mem_insert, beq_iff_eq, Array.mem_push, hd.usedInputs c]
    constructor
    · rintro (rfl | ⟨e, he, rfl⟩)
      · exact ⟨⟨source, target⟩, .inr rfl, rfl⟩
      · exact ⟨e, .inl he, rfl⟩
    · rintro ⟨e, he | rfl, rfl⟩
      · exact .inr ⟨e, he, rfl⟩
      · exact .inl rfl
  · exact hd.usedSlots

/-- What an accepted call did: a node or a connection was checked and put at the end. -/
theorem add_eq_ok_iff {d e : Draft} {n : Node} {id : NodeId} :
    d.add n = .ok (e, id) ↔
      d.check n = .ok () ∧ e = d.push n ∧ id = .ofIndex d.nodes.size := by
  unfold add
  cases d.check n <;> simp [eq_comm]

/-- Joining succeeds just if the check passes, and then the connection is the last one. -/
theorem join_eq_ok_iff {d e : Draft} {source target : Connector} {id : ConnectionId} :
    d.join source target = .ok (e, id) ↔ d.checkJoin source target = .ok () ∧
      e = d.pushConnection source target ∧ id = .ofIndex d.connections.size := by
  unfold join
  cases d.checkJoin source target <;> simp [eq_comm]

/-- Connecting two nodes is joining the first output of one to the first input of the other. -/
theorem connect_eq_ok_iff {d e : Draft} {producer consumer : NodeId} {id : ConnectionId} :
    d.connect producer consumer = .ok (e, id) ↔
      ∃ source target, d.connectorOf producer .output = .ok source ∧
        d.connectorOf consumer .input = .ok target ∧ d.join source target = .ok (e, id) := by
  unfold connect
  cases d.connectorOf producer .output with
  | error f => simp [bind, Except.bind]
  | ok source => cases d.connectorOf consumer .input <;> simp [bind, Except.bind]

theorem connectorOf_eq_ok {d : Draft} {id : NodeId} {dir : Direction} {c : Connector}
    (h : d.connectorOf id dir = .ok c) : c.node = id := by
  unfold connectorOf at h
  split at h
  · simp at h
  · next n _ =>
    split at h
    · simp at h
    · next hc =>
      simp only [Except.ok.injEq] at h
      subst h
      exact (Node.connector?_eq_some_iff.mp hc).1

/-- The connections that a call may make. -/
def Call.Asks : Call → Connection → Prop
  | .add _, _ => False
  | .connect producer consumer, c => c.fromNode = producer ∧ c.toNode = consumer
  | .join source target, c => c = ⟨source, target⟩

/-- Everything a call can come to: nothing, a node at the end, or a connection at the end. -/
theorem perform_cases (d : Draft) (call : Call) :
    (∃ fault, d.perform call = (d, .refused fault)) ∨
    (∃ n, call = .add n ∧ d.check n = .ok () ∧
      d.perform call = (d.push n, .node (.ofIndex d.nodes.size))) ∨
    (∃ source target, call.Asks ⟨source, target⟩ ∧ d.checkJoin source target = .ok () ∧
      d.perform call =
        (d.pushConnection source target, .connection (.ofIndex d.connections.size))) := by
  cases call with
  | add n =>
    cases h : d.add n with
    | error fault => exact .inl ⟨fault, by simp [perform, settle, h]⟩
    | ok r =>
      obtain ⟨hc, he, hid⟩ := add_eq_ok_iff.mp h
      exact .inr (.inl ⟨n, rfl, hc, by simp [perform, settle, h, ← he, ← hid]⟩)
  | join source target =>
    cases h : d.join source target with
    | error fault => exact .inl ⟨fault, by simp [perform, settle, h]⟩
    | ok r =>
      obtain ⟨hc, he, hid⟩ := join_eq_ok_iff.mp h
      exact .inr (.inr ⟨source, target, rfl, hc, by simp [perform, settle, h, ← he, ← hid]⟩)
  | connect producer consumer =>
    cases h : d.connect producer consumer with
    | error fault => exact .inl ⟨fault, by simp [perform, settle, h]⟩
    | ok r =>
      obtain ⟨source, target, hs, ht, hj⟩ := connect_eq_ok_iff.mp h
      obtain ⟨hc, he, hid⟩ := join_eq_ok_iff.mp hj
      exact .inr (.inr ⟨source, target, ⟨connectorOf_eq_ok hs, connectorOf_eq_ok ht⟩, hc,
        by simp [perform, settle, h, ← he, ← hid]⟩)

/-- One call keeps the promises, whether it is accepted or refused. -/
theorem perform_sound {d : Draft} (hd : d.Sound) (call : Call) : (d.perform call).1.Sound := by
  rcases perform_cases d call with ⟨fault, h⟩ | ⟨n, -, hc, h⟩ | ⟨source, target, -, hc, h⟩
  · rw [h]
    exact hd
  · rw [h]
    exact push_sound hd hc
  · rw [h]
    exact pushConnection_sound hd hc

/-- A run of calls keeps a draft sound. -/
theorem runFrom_sound {d : Draft} (hd : d.Sound) (calls : List Call) :
    (d.runFrom calls).Sound := by
  induction calls generalizing d with
  | nil => exact hd
  | cons call rest ih => exact ih (perform_sound hd call)

theorem run_sound (calls : List Call) : (run calls).Sound := runFrom_sound empty_sound calls

/-- Connections have distinct targets, and there are no more connectors than words. -/
theorem connections_size_le {d : Draft} (hd : d.Sound) : d.connections.size ≤ 2 ^ 32 := by
  let words := d.connections.toList.map fun e => e.target.word.toNat
  have hnodup : words.Nodup := by
    have h := hd.valid.targets.map (f := fun c : Connector => c.word.toNat) (by
      intro a b hab
      cases a
      cases b
      simpa using UInt32.toNat.inj hab)
    simpa only [words, finish, List.map_map, Function.comp_def] using h
  have hsub : words ⊆ List.range (2 ^ 32) := by
    intro w hw
    obtain ⟨e, -, rfl⟩ := List.mem_map.mp hw
    exact List.mem_range.mpr e.target.word.toNat_lt
  simpa [words] using hnodup.length_le_of_subset hsub

/-- What the answer to a call says about the draft after it. -/
def Placed (d : Draft) (call : Call) : Prop :=
  match d.perform call with
  | (e, .node id) => id.index = d.nodes.size ∧ e.connections = d.connections ∧
      ∃ n, call = .add n ∧ e.nodes = d.nodes.push n
  | (e, .connection id) => id.index = d.connections.size ∧ e.nodes = d.nodes ∧
      ∃ c, call.Asks c ∧ e.connections = d.connections.push c
  | (e, .refused _) => e = d

/-- The answer to a call says where the node or connection has been put. -/
theorem placed_of_sound {d : Draft} (hd : d.Sound) (call : Call) : d.Placed call := by
  have hnext := perform_sound hd call
  rcases perform_cases d call with ⟨fault, h⟩ | ⟨n, hn, hc, h⟩ | ⟨source, target, hask, hc, h⟩
  · simp only [Placed, h]
  · have hroom := ((check_eq_ok_iff d n).mp hc).1
    simp only [Placed, h]
    exact ⟨NodeId.index_ofIndex (by omega), push_connections d n, n, hn, push_nodes d n⟩
  · have hroom : d.connections.size < 2 ^ 32 := by
      rw [h] at hnext
      have hle := connections_size_le hnext
      simp only [pushConnection, Array.size_push] at hle
      omega
    simp only [Placed, h]
    refine ⟨?_, rfl, ⟨source, target⟩, hask, rfl⟩
    rw [ConnectionId.index, ConnectionId.ofIndex, UInt32.toNat_ofNat', Nat.mod_eq_of_lt hroom]

/-- After every run of calls the draft is sound, and the next call answers with the place of what it
adds or changes nothing. -/
theorem run_sound_and_placed (calls : List Call) :
    (run calls).Sound ∧ ∀ call, (run calls).Placed call :=
  ⟨run_sound calls, placed_of_sound (run_sound calls)⟩

end Draft

/-- Graphs that come out of a draft after some run of calls. -/
def Graph.Built (g : Graph) : Prop := ∃ calls, g = (Draft.run calls).finish

/-- Every graph that comes out of a draft is valid. -/
theorem Graph.Built.valid {g : Graph} (h : g.Built) : g.Valid := by
  obtain ⟨calls, rfl⟩ := h
  exact (Draft.run_sound calls).valid

namespace Draft

theorem runFrom_concat (d : Draft) (calls : List Call) (call : Call) :
    d.runFrom (calls ++ [call]) = ((d.runFrom calls).perform call).1 := by
  induction calls generalizing d with
  | nil => rfl
  | cons first rest ih => exact ih (d.perform first).1

theorem run_concat (calls : List Call) (call : Call) :
    run (calls ++ [call]) = ((run calls).perform call).1 := runFrom_concat empty calls call

/-- A draft refuses no node that leaves its graph valid. -/
theorem check_of_valid {d : Draft} {n : Node} (hd : d.Sound)
    (h : Graph.Valid ⟨d.nodes.push n, d.connections⟩) : d.check n = .ok () := by
  rw [check_eq_ok_iff]
  refine ⟨?_, h.nodes n (by simp), ?_⟩
  · have hroom := h.room
    simp only [Array.size_push] at hroom
    omega
  · intro k hk
    cases hused : d.usedSlots[k]? with
    | none => rfl
    | some id =>
      have hold := Graph.mem_of_node? ((hd.usedSlots k id).mp hused)
      have hnodup := h.slots
      simp only [Array.toList_push, List.filterMap_append, List.filterMap_cons,
        List.filterMap_nil, Option.mem_def.mp hk] at hnodup
      have hmem : k ∈ d.nodes.toList.filterMap Node.slot? :=
        List.mem_filterMap.mpr ⟨_, by simpa [finish] using hold, rfl⟩
      exact absurd rfl ((List.nodup_append.mp hnodup).2.2 k hmem k (by simp))

/-- A draft refuses no connection that leaves its graph valid. -/
theorem checkJoin_of_valid {d : Draft} {source target : Connector} (hd : d.Sound)
    (h : Graph.Valid ⟨d.nodes, d.connections.push ⟨source, target⟩⟩) :
    d.checkJoin source target = .ok () := by
  rw [checkJoin_eq_ok_iff]
  obtain ⟨hs, ht⟩ := h.ends ⟨source, target⟩ (by simp)
  refine ⟨hs, ht, ?_⟩
  intro hused
  obtain ⟨e, he, heq⟩ := (hd.usedInputs target).mp hused
  have hnodup := h.targets
  simp only [Array.toList_push, List.map_append, List.map_cons, List.map_nil] at hnodup
  have hmem : target ∈ d.connections.toList.map Connection.target :=
    List.mem_map.mpr ⟨e, by simpa using he, heq⟩
  exact absurd rfl ((List.nodup_append.mp hnodup).2.2 target hmem target (by simp))

end Draft

namespace Graph

theorem Built.push {nodes : Array Node} {connections : Array Connection} {n : Node}
    (h : Built ⟨nodes, connections⟩) (hv : Valid ⟨nodes.push n, connections⟩) :
    Built ⟨nodes.push n, connections⟩ := by
  obtain ⟨calls, heq⟩ := h
  have hn : nodes = (Draft.run calls).nodes := congrArg Graph.nodes heq
  have hc : connections = (Draft.run calls).connections := congrArg Graph.connections heq
  subst hn hc
  have hcheck := Draft.check_of_valid (Draft.run_sound calls) hv
  have hstep : ((Draft.run calls).perform (.add n)).1 = (Draft.run calls).push n := by
    simp [Draft.perform, Draft.settle, Draft.add, hcheck]
  refine ⟨calls ++ [.add n], ?_⟩
  rw [Draft.run_concat, hstep, Draft.push_finish]

/-- A graph with one more connection that keeps it valid comes out of a draft as well. -/
theorem Built.join {nodes : Array Node} {connections : Array Connection} {e : Connection}
    (h : Built ⟨nodes, connections⟩) (hv : Valid ⟨nodes, connections.push e⟩) :
    Built ⟨nodes, connections.push e⟩ := by
  obtain ⟨calls, heq⟩ := h
  have hn : nodes = (Draft.run calls).nodes := congrArg Graph.nodes heq
  have hc : connections = (Draft.run calls).connections := congrArg Graph.connections heq
  subst hn hc
  have hcheck := Draft.checkJoin_of_valid (Draft.run_sound calls) hv
  have hstep : ((Draft.run calls).perform (.join e.source e.target)).1 =
      (Draft.run calls).pushConnection e.source e.target := by
    simp [Draft.perform, Draft.settle, Draft.join, hcheck]
  refine ⟨calls ++ [.join e.source e.target], ?_⟩
  rw [Draft.run_concat, hstep]
  rfl

/-- The first nodes of a graph without connections make a graph as well. -/
theorem Valid.of_append {nodes more : Array Node} (h : Valid ⟨nodes ++ more, #[]⟩) :
    Valid ⟨nodes, #[]⟩ where
  room := by
    have hroom := h.room
    simp only [Array.size_append] at hroom
    exact Nat.le_of_add_right_le hroom
  nodes := fun m hm => h.nodes m (by simp [hm])
  slots := by
    have hslots := h.slots
    simp only [Array.toList_append, List.filterMap_append] at hslots
    exact (List.nodup_append.mp hslots).1
  ends := by simp
  targets := by simp

/-- A graph may lose its last connections. -/
theorem Valid.of_append_connections {nodes : Array Node} {connections more : Array Connection}
    (h : Valid ⟨nodes, connections ++ more⟩) : Valid ⟨nodes, connections⟩ where
  room := h.room
  nodes := h.nodes
  slots := h.slots
  ends := fun f hf => h.ends f (by simp [hf])
  targets := by
    have htargets := h.targets
    simp only [Array.toList_append, List.map_append] at htargets
    exact (List.nodup_append.mp htargets).1

/-- Every valid graph comes out of a draft: first its nodes are added, then its connections. -/
theorem Valid.built {g : Graph} (h : g.Valid) : g.Built := by
  have hnodes : ∀ l : List Node, Valid ⟨l.toArray, #[]⟩ → Built ⟨l.toArray, #[]⟩ := by
    intro l
    induction l using List.reverseRecOn with
    | nil => exact fun _ => ⟨[], rfl⟩
    | append_singleton l n ih =>
      intro hl
      rw [← List.push_toArray] at hl ⊢
      rw [Array.push_eq_append] at hl
      exact (ih hl.of_append).push (by rwa [Array.push_eq_append])
  have hjoins : ∀ l : List Connection, Valid ⟨g.nodes, l.toArray⟩ → Built ⟨g.nodes, l.toArray⟩ := by
    intro l
    induction l using List.reverseRecOn with
    | nil => exact hnodes g.nodes.toList
    | append_singleton l e ih =>
      intro hl
      rw [← List.push_toArray] at hl ⊢
      rw [Array.push_eq_append] at hl
      exact (ih hl.of_append_connections).join (by rwa [Array.push_eq_append])
  exact hjoins g.connections.toList h

/-- What comes out of a draft is what is valid. -/
theorem built_iff_valid {g : Graph} : g.Built ↔ g.Valid := ⟨Built.valid, Valid.built⟩

end Graph
end ClipGraph
