import ClipGraph.Proofs.InPlace

/-!
# Verdicts on calls

Whether a call on a draft is refused, and with which fault, can be told from the nodes and the
connections of its graph alone, by looking through the two lists. After every run of calls a draft
decides just that, whatever its two indexes went through: it refuses a call with the one fault the lists
give and is then the same draft as before, or it puts one node or one connection at the end.
-/

namespace ClipGraph

/-- A name that keeps a filter out of a graph, and what it was to be used for: the first one, in the
order of the call, that is no name or repeats the name of an argument before it. -/
inductive FilterNode.Misnamed (f : FilterNode) : NameRole → String → Prop where
  | plugin (hp : ¬ IsName f.plugin) : Misnamed f .plugin f.plugin
  | function (hp : IsName f.plugin) (hf : ¬ IsName f.function) : Misnamed f .function f.function
  | parameter {before after : List Argument} {a : Argument}
      (ha : f.arguments = before ++ a :: after) (hb : Named { f with arguments := before })
      (hn : ¬ IsName a.name) : Misnamed f .parameter a.name
  | repeatedParameter {before after : List Argument} {a : Argument}
      (ha : f.arguments = before ++ a :: after) (hb : Named { f with arguments := before })
      (hn : IsName a.name) (hr : a.name ∈ before.map Argument.name) :
      Misnamed f .repeatedParameter a.name

namespace Graph

/-- What speaks against a further node. A full graph comes before everything else. -/
inductive RefusesNode (g : Graph) : Node → GraphFault → Prop where
  | full {n : Node} (h : 1048576 ≤ g.nodes.size) : RefusesNode g n (.tooManyNodes 1048576)
  | badPath {s : SourceNode} (h : g.nodes.size < 1048576) (hp : ∀ t, s.path ≠ .ofText t) :
      RefusesNode g (.source s) (.badPath (.ofIndex g.nodes.size))
  | badName {f : FilterNode} {role : NameRole} {name : String} (h : g.nodes.size < 1048576)
      (hn : f.Misnamed role name) :
      RefusesNode g (.filter f) (.badName (.ofIndex g.nodes.size) role name)
  | slotTaken {k : UInt32} {holder : NodeId} (h : g.nodes.size < 1048576)
      (hk : g.node? holder = some (.output ⟨k⟩)) :
      RefusesNode g (.output ⟨k⟩) (.slotTaken k holder)

/-- What speaks against a further connection. -/
inductive RefusesJoin (g : Graph) (source target : Connector) : GraphFault → Prop where
  | unknownSource (hs : g.direction? source = none) :
      RefusesJoin g source target (.unknownConnector source)
  | unknownTarget {a : Direction} (hs : g.direction? source = some a)
      (ht : g.direction? target = none) : RefusesJoin g source target (.unknownConnector target)
  | directionMismatch {a b : Direction} (hs : g.direction? source = some a)
      (ht : g.direction? target = some b) (hd : a ≠ .output ∨ b ≠ .input) :
      RefusesJoin g source target (.directionMismatch source target)
  | inputTaken (hs : g.direction? source = some .output) (ht : g.direction? target = some .input)
      (hused : ∃ e ∈ g.connections, e.target = target) :
      RefusesJoin g source target (.inputTaken target)

/-- What speaks against connecting two nodes. Only outputs produce nothing and only sources consume
nothing, and the ports that the others offer can always be joined unless the input is in use. -/
inductive RefusesConnect (g : Graph) (producer consumer : NodeId) : GraphFault → Prop where
  | unknownProducer (hp : g.node? producer = none) :
      RefusesConnect g producer consumer (.unknownNode producer)
  | noOutput {n : Node} (hp : g.node? producer = some n) (hn : n.isOutput = true) :
      RefusesConnect g producer consumer (.missingConnector producer .output)
  | unknownConsumer {n : Node} (hp : g.node? producer = some n) (hn : n.isOutput = false)
      (hc : g.node? consumer = none) : RefusesConnect g producer consumer (.unknownNode consumer)
  | noInput {n m : Node} (hp : g.node? producer = some n) (hn : n.isOutput = false)
      (hc : g.node? consumer = some m) (hm : m.isSource = true) :
      RefusesConnect g producer consumer (.missingConnector consumer .input)
  | inputTaken {n m : Node} {e : Connection} (hp : g.node? producer = some n)
      (hn : n.isOutput = false) (hc : g.node? consumer = some m) (he : e ∈ g.connections)
      (hm : m.input? consumer = some e.target) :
      RefusesConnect g producer consumer (.inputTaken e.target)

end Graph

namespace Draft

/-- What the lists of a graph say to a call: the graph after it and the answer. -/
inductive Verdict (g : Graph) : Call → Graph → Answer → Prop where
  | added {n : Node} (h : ∀ fault, ¬ g.RefusesNode n fault) :
      Verdict g (.add n) ⟨g.nodes.push n, g.connections⟩ (.node (.ofIndex g.nodes.size))
  | notAdded {n : Node} {fault : GraphFault} (h : g.RefusesNode n fault) :
      Verdict g (.add n) g (.refused fault)
  | joined {source target : Connector} (h : ∀ fault, ¬ g.RefusesJoin source target fault) :
      Verdict g (.join source target) ⟨g.nodes, g.connections.push ⟨source, target⟩⟩
        (.connection (.ofIndex g.connections.size))
  | notJoined {source target : Connector} {fault : GraphFault}
      (h : g.RefusesJoin source target fault) : Verdict g (.join source target) g (.refused fault)
  | connected {producer consumer : NodeId} {n m : Node} {source target : Connector}
      (hp : g.node? producer = some n) (hs : n.output? producer = some source)
      (hc : g.node? consumer = some m) (ht : m.input? consumer = some target)
      (hfree : ∀ e ∈ g.connections, e.target ≠ target) :
      Verdict g (.connect producer consumer) ⟨g.nodes, g.connections.push ⟨source, target⟩⟩
        (.connection (.ofIndex g.connections.size))
  | notConnected {producer consumer : NodeId} {fault : GraphFault}
      (h : g.RefusesConnect producer consumer fault) :
      Verdict g (.connect producer consumer) g (.refused fault)

theorem checkArguments_append {id : NodeId} {seen : List String} {done rest : List Argument}
    (h : checkArguments id seen done = .ok ()) : checkArguments id seen (done ++ rest) =
      checkArguments id ((done.map Argument.name).reverse ++ seen) rest := by
  induction done generalizing seen with
  | nil => rfl
  | cons a done ih =>
    rw [checkArguments] at h
    split at h
    · cases h
    · next hname =>
      split at h
      · cases h
      · next hseen =>
        rw [List.cons_append, checkArguments, if_neg hname, if_neg hseen, ih h]
        simp

/-- What is wrong with an argument that comes after others. -/
inductive Spoils (id : NodeId) (seen : List String) (a : Argument) : GraphFault → Prop where
  | parameter (hn : ¬ IsName a.name) : Spoils id seen a (.badName id .parameter a.name)
  | repeated (hn : IsName a.name) (hr : a.name ∈ seen) :
      Spoils id seen a (.badName id .repeatedParameter a.name)

/-- Reading an argument list stops at the first name that is none or was there before. -/
theorem checkArguments_eq_error_iff {id : NodeId} {seen : List String} {as : List Argument}
    {fault : GraphFault} : checkArguments id seen as = .error fault ↔
      ∃ before a after, as = before ++ a :: after ∧ checkArguments id seen before = .ok () ∧
        Spoils id ((before.map Argument.name).reverse ++ seen) a fault := by
  constructor
  · intro h
    induction as generalizing seen with
    | nil => cases h
    | cons a rest ih =>
      rw [checkArguments] at h
      split at h
      · next hname =>
        cases h
        exact ⟨[], a, rest, rfl, rfl, .parameter (by simpa [← isIdentifier_iff] using hname)⟩
      · next hname =>
        split at h
        · next hseen =>
          cases h
          exact ⟨[], a, rest, rfl, rfl,
            .repeated (by simpa [isIdentifier_iff] using hname) (by simpa using hseen)⟩
        · next hseen =>
          obtain ⟨before, b, after, rfl, hok, hb⟩ := ih h
          refine ⟨a :: before, b, after, rfl, ?_, by simpa using hb⟩
          rw [checkArguments, if_neg hname, if_neg hseen, hok]
  · rintro ⟨before, a, after, rfl, hok, ha⟩
    rw [checkArguments_append hok, checkArguments]
    cases ha with
    | parameter hn => simp [show isIdentifier a.name = false by simpa [← isIdentifier_iff] using hn]
    | repeated hn hr =>
      rw [if_neg (by simp [(isIdentifier_iff _).mpr hn]), if_pos (by simpa using hr)]

/-- The first names of a filter are proper if reading them does not stop. -/
theorem named_iff_checkArguments {id : NodeId} {f : FilterNode} {before : List Argument} :
    FilterNode.Named { f with arguments := before } ↔
      IsName f.plugin ∧ IsName f.function ∧ checkArguments id [] before = .ok () := by
  rw [checkArguments_eq_ok_iff]
  constructor
  · rintro ⟨hp, hf, hn, hd⟩
    exact ⟨hp, hf, hn, by simp, hd⟩
  · rintro ⟨hp, hf, hn, -, hd⟩
    exact ⟨hp, hf, hn, hd⟩

/-- A filter is refused for the first of its names that is no name or repeats one. -/
theorem checkFilter_eq_error_iff {id : NodeId} {f : FilterNode} {fault : GraphFault} :
    checkFilter id f = .error fault ↔
      ∃ role name, fault = .badName id role name ∧ f.Misnamed role name := by
  by_cases hp : IsName f.plugin
  · by_cases hf : IsName f.function
    · have hread : checkFilter id f = checkArguments id [] f.arguments := by
        simp [checkFilter, (isIdentifier_iff _).mpr hp, (isIdentifier_iff _).mpr hf]
      rw [hread, checkArguments_eq_error_iff]
      constructor
      · rintro ⟨before, a, after, hargs, hok, ha⟩
        have hb := named_iff_checkArguments.mpr ⟨hp, hf, hok⟩
        cases ha with
        | parameter hn => exact ⟨_, _, rfl, .parameter hargs hb hn⟩
        | repeated hn hr => exact ⟨_, _, rfl, .repeatedParameter hargs hb hn (by simpa using hr)⟩
      · rintro ⟨role, name, rfl, hm⟩
        cases hm with
        | plugin hp' => exact absurd hp hp'
        | function _ hf' => exact absurd hf hf'
        | parameter hargs hb hn =>
          exact ⟨_, _, _, hargs, (named_iff_checkArguments.mp hb).2.2, .parameter hn⟩
        | repeatedParameter hargs hb hn hr =>
          exact ⟨_, _, _, hargs, (named_iff_checkArguments.mp hb).2.2,
            .repeated hn (by simpa using hr)⟩
    · have hread : checkFilter id f = .error (.badName id .function f.function) := by
        simp [checkFilter, (isIdentifier_iff _).mpr hp,
          show isIdentifier f.function = false by simpa [← isIdentifier_iff] using hf]
      rw [hread, Except.error.injEq]
      constructor
      · rintro rfl
        exact ⟨_, _, rfl, .function hp hf⟩
      · rintro ⟨role, name, rfl, hm⟩
        cases hm with
        | plugin hp' => exact absurd hp hp'
        | function => rfl
        | parameter _ hb => exact absurd hb.function hf
        | repeatedParameter _ hb => exact absurd hb.function hf
  · have hread : checkFilter id f = .error (.badName id .plugin f.plugin) := by
      simp [checkFilter, show isIdentifier f.plugin = false by simpa [← isIdentifier_iff] using hp]
    rw [hread, Except.error.injEq]
    constructor
    · rintro rfl
      exact ⟨_, _, rfl, .plugin hp⟩
    · rintro ⟨role, name, rfl, hm⟩
      cases hm with
      | plugin => rfl
      | function hp' => exact absurd hp' hp
      | parameter _ hb => exact absurd hb.plugin hp
      | repeatedParameter _ hb => exact absurd hb.plugin hp

variable {d : Draft}

/-- A draft refuses a node for what its list of nodes holds against it. -/
theorem check_eq_error_iff (hd : d.Sound) {n : Node} {fault : GraphFault} :
    d.check n = .error fault ↔ d.finish.RefusesNode n fault := by
  by_cases hfull : nodeLimit ≤ d.nodes.size
  · have hsize : 1048576 ≤ d.finish.nodes.size := hfull
    rw [check, if_pos hfull, Except.error.injEq]
    constructor
    · rintro rfl
      exact .full hsize
    · rintro (_ | ⟨h⟩ | ⟨h⟩ | ⟨h⟩)
      · rfl
      all_goals exact absurd h (Nat.not_lt.mpr hsize)
  · have hroom : d.finish.nodes.size < 1048576 := Nat.not_le.mp hfull
    rw [check, if_neg hfull]
    cases n with
    | source s =>
      have htext : s.path.text?.isNone = true ↔ ∀ t, s.path ≠ .ofText t :=
        Option.isNone_iff_eq_none.trans FilePath.text?_eq_none_iff
      constructor
      · intro h
        dsimp only at h
        split at h
        · next hnone =>
          cases h
          exact .badPath hroom (htext.mp hnone)
        · cases h
      · rintro (h | ⟨-, hp⟩)
        · exact absurd hroom (Nat.not_lt.mpr h)
        · exact if_pos (htext.mpr hp)
    | filter f =>
      rw [checkFilter_eq_error_iff]
      constructor
      · rintro ⟨role, name, rfl, hm⟩
        exact .badName hroom hm
      · rintro (h | - | ⟨-, hm⟩)
        · exact absurd hroom (Nat.not_lt.mpr h)
        · exact ⟨_, _, rfl, hm⟩
    | output o =>
      constructor
      · intro h
        dsimp only at h
        split at h
        · next holder hused =>
          cases h
          exact .slotTaken hroom ((hd.usedSlots _ _).mp hused)
        · cases h
      · rintro (h | - | - | ⟨-, hk⟩)
        · exact absurd hroom (Nat.not_lt.mpr h)
        · simp only [(hd.usedSlots _ _).mpr hk]

theorem directionOf_eq_error_iff {c : Connector} {fault : GraphFault} :
    d.directionOf c = .error fault ↔
      d.finish.direction? c = none ∧ fault = .unknownConnector c := by
  have h : d.finish.direction? c = d.nodes[c.node.index]?.bind (·.direction? c.port) := rfl
  rw [h, directionOf]
  cases d.nodes[c.node.index]?.bind (·.direction? c.port) <;> simp [eq_comm]

section Join

variable {source target : Connector} {a b : Direction}

theorem checkJoin_of_unknown_source (hs : d.finish.direction? source = none) :
    d.checkJoin source target = .error (.unknownConnector source) := by
  rw [checkJoin, directionOf_eq_error_iff.mpr ⟨hs, rfl⟩, error_bind]

theorem checkJoin_of_unknown_target (hs : d.finish.direction? source = some a)
    (ht : d.finish.direction? target = none) :
    d.checkJoin source target = .error (.unknownConnector target) := by
  rw [checkJoin, (directionOf_eq_ok_iff d _ _).mpr hs, ok_bind,
    directionOf_eq_error_iff.mpr ⟨ht, rfl⟩, error_bind]

theorem checkJoin_of_mismatch (hs : d.finish.direction? source = some a)
    (ht : d.finish.direction? target = some b) (hd : a ≠ .output ∨ b ≠ .input) :
    d.checkJoin source target = .error (.directionMismatch source target) := by
  rw [checkJoin, (directionOf_eq_ok_iff d _ _).mpr hs, ok_bind,
    (directionOf_eq_ok_iff d _ _).mpr ht, ok_bind, if_pos hd]

/-- Between an output and an input only the input can be in the way. -/
theorem checkJoin_of_ends (hs : d.finish.direction? source = some .output)
    (ht : d.finish.direction? target = some .input) : d.checkJoin source target =
      if d.usedInputs.contains target then .error (.inputTaken target) else .ok () := by
  simp [checkJoin, (directionOf_eq_ok_iff d _ _).mpr hs, (directionOf_eq_ok_iff d _ _).mpr ht]

theorem Sound.contains_usedInputs (hd : d.Sound) :
    d.usedInputs.contains target = true ↔ ∃ e ∈ d.finish.connections, e.target = target :=
  Std.HashSet.contains_iff_mem.trans (hd.usedInputs target)

/-- A draft refuses a connection for what its lists hold against it. -/
theorem checkJoin_eq_error_iff (hd : d.Sound) {fault : GraphFault} :
    d.checkJoin source target = .error fault ↔ d.finish.RefusesJoin source target fault := by
  constructor
  · intro h
    cases hs : d.finish.direction? source with
    | none =>
      rw [checkJoin_of_unknown_source hs, Except.error.injEq] at h
      exact h ▸ .unknownSource hs
    | some a =>
      cases ht : d.finish.direction? target with
      | none =>
        rw [checkJoin_of_unknown_target hs ht, Except.error.injEq] at h
        exact h ▸ .unknownTarget hs ht
      | some b =>
        by_cases hdir : a ≠ .output ∨ b ≠ .input
        · rw [checkJoin_of_mismatch hs ht hdir, Except.error.injEq] at h
          exact h ▸ .directionMismatch hs ht hdir
        · obtain ⟨rfl, rfl⟩ : a = .output ∧ b = .input := by simpa using hdir
          rw [checkJoin_of_ends hs ht] at h
          split at h
          · next hused =>
            cases h
            exact .inputTaken hs ht (hd.contains_usedInputs.mp hused)
          · cases h
  · intro h
    cases h with
    | unknownSource hs => exact checkJoin_of_unknown_source hs
    | unknownTarget hs ht => exact checkJoin_of_unknown_target hs ht
    | directionMismatch hs ht hdir => exact checkJoin_of_mismatch hs ht hdir
    | inputTaken hs ht hused =>
      rw [checkJoin_of_ends hs ht, if_pos (hd.contains_usedInputs.mpr hused)]

end Join

end Draft

namespace Node

/-- In a graph nothing but the ports keeps a node from offering a connector. -/
theorem exists_connector? {n : Node} {id : NodeId} {d : Direction} (hid : id.index < 1048576) :
    (∃ c, n.connector? id d = some c) ↔ ∃ port ∈ n.ports, port.direction = d := by
  have hlast : id.val ≤ Connector.lastNode := by
    rw [UInt32.le_iff_toNat_le]
    exact Nat.lt_succ_iff.mp hid
  have hsecond : (1 : UInt16) ≤ Connector.lastPort := by decide
  cases n <;> cases d <;>
    simp [connector?, ports, kind, NodeKind.ports, List.findIdx?_cons, Connector.ofPort?, hlast,
      hsecond]

/-- Only outputs produce nothing. -/
theorem exists_output?_iff {n : Node} {id : NodeId} (hid : id.index < 1048576) :
    (∃ c, n.output? id = some c) ↔ n.isOutput = false := by
  rw [output?, exists_connector? hid]
  cases n <;> simp [ports, kind, NodeKind.ports]

/-- Only sources consume nothing. -/
theorem exists_input?_iff {n : Node} {id : NodeId} (hid : id.index < 1048576) :
    (∃ c, n.input? id = some c) ↔ n.isSource = false := by
  rw [input?, exists_connector? hid]
  cases n <;> simp [ports, kind, NodeKind.ports]

theorem output?_eq_none_iff {n : Node} {id : NodeId} (hid : id.index < 1048576) :
    n.output? id = none ↔ n.isOutput = true := by
  rw [← not_iff_not, ← ne_eq, Option.ne_none_iff_exists', exists_output?_iff hid, Bool.not_eq_true]

theorem input?_eq_none_iff {n : Node} {id : NodeId} (hid : id.index < 1048576) :
    n.input? id = none ↔ n.isSource = true := by
  rw [← not_iff_not, ← ne_eq, Option.ne_none_iff_exists', exists_input?_iff hid, Bool.not_eq_true]

end Node

/-- What a node offers in a direction is a connector of the graph with this direction. -/
theorem Graph.direction?_of_connector? {g : Graph} {id : NodeId} {n : Node} {direction : Direction}
    {c : Connector} (hn : g.node? id = some n) (hc : n.connector? id direction = some c) :
    g.direction? c = some direction := by
  have hnode := (Node.connector?_eq_some_iff.mp hc).1
  exact direction?_eq_some_iff.mpr ⟨n, hnode ▸ hn, hnode ▸ hc⟩

namespace Draft

variable {d : Draft}

theorem node?_finish (id : NodeId) : d.finish.node? id = d.nodes[id.index]? := rfl

theorem connectorOf_eq_ok_iff {id : NodeId} {direction : Direction} {c : Connector} :
    d.connectorOf id direction = .ok c ↔
      ∃ n, d.finish.node? id = some n ∧ n.connector? id direction = some c := by
  rw [connectorOf, node?_finish]
  cases d.nodes[id.index]? with
  | none => simp
  | some n => cases h : n.connector? id direction <;> simp [h]

theorem connectorOf_eq_error_iff {id : NodeId} {direction : Direction} {fault : GraphFault} :
    d.connectorOf id direction = .error fault ↔
      (d.finish.node? id = none ∧ fault = .unknownNode id) ∨
      ∃ n, d.finish.node? id = some n ∧ n.connector? id direction = none ∧
        fault = .missingConnector id direction := by
  rw [connectorOf, node?_finish]
  cases d.nodes[id.index]? with
  | none => simp [eq_comm]
  | some n => cases h : n.connector? id direction <;> simp [h, eq_comm]

theorem Sound.index_lt (hd : d.Sound) {id : NodeId} {n : Node} (hn : d.finish.node? id = some n) :
    id.index < 1048576 := (Graph.lt_size_of_node? hn).trans_le hd.valid.room

theorem join_eq_error_iff {source target : Connector} {fault : GraphFault} :
    d.join source target = .error fault ↔ d.checkJoin source target = .error fault := by
  unfold join
  cases d.checkJoin source target <;> simp

section Connect

variable {producer consumer : NodeId} {n m : Node} {source target : Connector}

theorem connect_of_unknown_producer (hp : d.finish.node? producer = none) :
    d.connect producer consumer = .error (.unknownNode producer) := by
  rw [connect, connectorOf_eq_error_iff.mpr (.inl ⟨hp, rfl⟩), error_bind]

theorem connect_of_no_output (hp : d.finish.node? producer = some n)
    (hs : n.output? producer = none) :
    d.connect producer consumer = .error (.missingConnector producer .output) := by
  rw [connect, connectorOf_eq_error_iff.mpr (.inr ⟨n, hp, hs, rfl⟩), error_bind]

theorem connect_of_unknown_consumer (hp : d.finish.node? producer = some n)
    (hs : n.output? producer = some source) (hc : d.finish.node? consumer = none) :
    d.connect producer consumer = .error (.unknownNode consumer) := by
  rw [connect, connectorOf_eq_ok_iff.mpr ⟨n, hp, hs⟩, ok_bind,
    connectorOf_eq_error_iff.mpr (.inl ⟨hc, rfl⟩), error_bind]

theorem connect_of_no_input (hp : d.finish.node? producer = some n)
    (hs : n.output? producer = some source) (hc : d.finish.node? consumer = some m)
    (ht : m.input? consumer = none) :
    d.connect producer consumer = .error (.missingConnector consumer .input) := by
  rw [connect, connectorOf_eq_ok_iff.mpr ⟨n, hp, hs⟩, ok_bind,
    connectorOf_eq_error_iff.mpr (.inr ⟨m, hc, ht, rfl⟩), error_bind]

/-- Connecting two nodes that offer the connectors is joining these. -/
theorem connect_of_offers (hp : d.finish.node? producer = some n)
    (hs : n.output? producer = some source) (hc : d.finish.node? consumer = some m)
    (ht : m.input? consumer = some target) :
    d.connect producer consumer = d.join source target := by
  rw [connect, connectorOf_eq_ok_iff.mpr ⟨n, hp, hs⟩, ok_bind,
    connectorOf_eq_ok_iff.mpr ⟨m, hc, ht⟩, ok_bind]

/-- A join of what two nodes offer fails only if the input is in use. -/
theorem join_eq_error_iff_of_offers (hd : d.Sound) (hp : d.finish.node? producer = some n)
    (hs : n.output? producer = some source) (hc : d.finish.node? consumer = some m)
    (ht : m.input? consumer = some target) {fault : GraphFault} :
    d.join source target = .error fault ↔
      (∃ e ∈ d.finish.connections, e.target = target) ∧ fault = .inputTaken target := by
  rw [join_eq_error_iff, checkJoin_of_ends (Graph.direction?_of_connector? hp hs)
    (Graph.direction?_of_connector? hc ht), ← hd.contains_usedInputs]
  split
  · next hused => simp [hused, eq_comm]
  · next hused => simp [hused]

/-- Connecting two nodes fails for what the lists hold against it. -/
theorem connect_eq_error_iff (hd : d.Sound) {fault : GraphFault} :
    d.connect producer consumer = .error fault ↔
      d.finish.RefusesConnect producer consumer fault := by
  constructor
  · intro h
    cases hp : d.finish.node? producer with
    | none =>
      rw [connect_of_unknown_producer hp, Except.error.injEq] at h
      exact h ▸ .unknownProducer hp
    | some n =>
      cases hs : n.output? producer with
      | none =>
        rw [connect_of_no_output hp hs, Except.error.injEq] at h
        exact h ▸ .noOutput hp ((Node.output?_eq_none_iff (hd.index_lt hp)).mp hs)
      | some source =>
        have hn := (Node.exists_output?_iff (hd.index_lt hp)).mp ⟨source, hs⟩
        cases hc : d.finish.node? consumer with
        | none =>
          rw [connect_of_unknown_consumer hp hs hc, Except.error.injEq] at h
          exact h ▸ .unknownConsumer hp hn hc
        | some m =>
          cases ht : m.input? consumer with
          | none =>
            rw [connect_of_no_input hp hs hc ht, Except.error.injEq] at h
            exact h ▸ .noInput hp hn hc ((Node.input?_eq_none_iff (hd.index_lt hc)).mp ht)
          | some target =>
            rw [connect_of_offers hp hs hc ht, join_eq_error_iff_of_offers hd hp hs hc ht] at h
            obtain ⟨⟨e, he, rfl⟩, rfl⟩ := h
            exact .inputTaken hp hn hc he ht
  · intro h
    cases h with
    | unknownProducer hp => exact connect_of_unknown_producer hp
    | noOutput hp hn =>
      exact connect_of_no_output hp ((Node.output?_eq_none_iff (hd.index_lt hp)).mpr hn)
    | unknownConsumer hp hn hc =>
      obtain ⟨source, hs⟩ := (Node.exists_output?_iff (hd.index_lt hp)).mpr hn
      exact connect_of_unknown_consumer hp hs hc
    | noInput hp hn hc hm =>
      obtain ⟨source, hs⟩ := (Node.exists_output?_iff (hd.index_lt hp)).mpr hn
      exact connect_of_no_input hp hs hc ((Node.input?_eq_none_iff (hd.index_lt hc)).mpr hm)
    | inputTaken hp hn hc he ht =>
      obtain ⟨source, hs⟩ := (Node.exists_output?_iff (hd.index_lt hp)).mpr hn
      rw [connect_of_offers hp hs hc ht, join_eq_error_iff_of_offers hd hp hs hc ht]
      exact ⟨⟨_, he, rfl⟩, rfl⟩

end Connect

/-- A node passes the check just if nothing speaks against it. -/
theorem check_eq_ok_iff_forall_not_refuses (hd : d.Sound) {n : Node} :
    d.check n = .ok () ↔ ∀ fault, ¬ d.finish.RefusesNode n fault := by
  simp only [eq_ok_iff_forall_ne_error, check_eq_error_iff hd]

/-- A connection passes the check just if nothing speaks against it. -/
theorem checkJoin_eq_ok_iff_forall_not_refuses (hd : d.Sound) {source target : Connector} :
    d.checkJoin source target = .ok () ↔ ∀ fault, ¬ d.finish.RefusesJoin source target fault := by
  simp only [eq_ok_iff_forall_ne_error, checkJoin_eq_error_iff hd]

/-- A call that is refused leaves the draft, both lists and both indexes, as it was. -/
theorem perform_of_refused {call : Call} {fault : GraphFault}
    (h : (d.perform call).2 = .refused fault) : (d.perform call).1 = d := by
  rcases perform_cases d call with ⟨_, hc⟩ | ⟨_, -, -, hc⟩ | ⟨_, _, -, -, hc⟩
  · rw [hc]
  · rw [hc] at h
    cases h
  · rw [hc] at h
    cases h

theorem verdict_of_perform_add (hd : d.Sound) (n : Node) :
    Verdict d.finish (.add n) (d.perform (.add n)).1.finish (d.perform (.add n)).2 := by
  cases h : d.check n with
  | error fault =>
    simp only [perform, add, h, settle]
    exact .notAdded ((check_eq_error_iff hd).mp h)
  | ok _ =>
    simp only [perform, add, h, settle, push_finish]
    exact .added ((check_eq_ok_iff_forall_not_refuses hd).mp h)

theorem verdict_of_perform_join (hd : d.Sound) (source target : Connector) :
    Verdict d.finish (.join source target) (d.perform (.join source target)).1.finish
      (d.perform (.join source target)).2 := by
  cases h : d.checkJoin source target with
  | error fault =>
    simp only [perform, join, h, settle]
    exact .notJoined ((checkJoin_eq_error_iff hd).mp h)
  | ok _ =>
    simp only [perform, join, h, settle]
    exact .joined ((checkJoin_eq_ok_iff_forall_not_refuses hd).mp h)

theorem verdict_of_perform_connect (hd : d.Sound) (producer consumer : NodeId) :
    Verdict d.finish (.connect producer consumer) (d.perform (.connect producer consumer)).1.finish
      (d.perform (.connect producer consumer)).2 := by
  cases h : d.connect producer consumer with
  | error fault =>
    simp only [perform, h, settle]
    exact .notConnected ((connect_eq_error_iff hd).mp h)
  | ok r =>
    obtain ⟨source, target, hs, ht, hj⟩ := connect_eq_ok_iff.mp h
    obtain ⟨hcheck, he, hid⟩ := join_eq_ok_iff.mp hj
    obtain ⟨n, hp, hs⟩ := connectorOf_eq_ok_iff.mp hs
    obtain ⟨m, hc, ht⟩ := connectorOf_eq_ok_iff.mp ht
    obtain ⟨-, -, hfree⟩ := (checkJoin_eq_ok_iff d source target).mp hcheck
    simp only [perform, h, settle, he, hid]
    exact .connected hp hs hc ht fun e hmem htarget =>
      hfree ((hd.usedInputs target).mpr ⟨e, hmem, htarget⟩)

/-- The answer to a call on a sound draft is what the lists of its graph say. -/
theorem verdict_of_perform (hd : d.Sound) (call : Call) :
    Verdict d.finish call (d.perform call).1.finish (d.perform call).2 := by
  cases call with
  | add n => exact verdict_of_perform_add hd n
  | connect producer consumer => exact verdict_of_perform_connect hd producer consumer
  | join source target => exact verdict_of_perform_join hd source target

/-- The lists of a sound draft speak with one voice. -/
theorem eq_perform_of_verdict (hd : d.Sound) {call : Call} {g : Graph} {answer : Answer}
    (h : Verdict d.finish call g answer) :
    g = (d.perform call).1.finish ∧ answer = (d.perform call).2 := by
  cases h with
  | added h =>
    rw [← check_eq_ok_iff_forall_not_refuses hd] at h
    simp [perform, add, h, settle, finish]
  | notAdded h =>
    rw [← check_eq_error_iff hd] at h
    simp [perform, add, h, settle]
  | joined h =>
    rw [← checkJoin_eq_ok_iff_forall_not_refuses hd] at h
    simp [perform, join, h, settle, pushConnection, finish]
  | notJoined h =>
    rw [← checkJoin_eq_error_iff hd] at h
    simp [perform, join, h, settle]
  | @connected producer consumer n m source target hp hs hc ht hfree =>
    have hcheck : d.checkJoin source target = .ok () := by
      rw [checkJoin_of_ends (Graph.direction?_of_connector? hp hs)
        (Graph.direction?_of_connector? hc ht), if_neg]
      rw [hd.contains_usedInputs]
      rintro ⟨e, he, htarget⟩
      exact hfree e he htarget
    simp [perform, connect_of_offers hp hs hc ht, join, hcheck, settle, pushConnection, finish]
  | notConnected h =>
    rw [← connect_eq_error_iff hd] at h
    simp [perform, h, settle]

/-- After every run of calls in place, the answer to the next call and the graph that it leaves are told
by the two lists alone, and a refusal changes neither a list nor an index. Connecting two nodes comes to
joining the connectors that they offer. -/
theorem runInPlace_verdict (calls : List Call) :
    (∀ call g answer, Verdict (runInPlace calls).finish call g answer ↔
      g = ((runInPlace calls).performInPlace call).1.finish ∧
        answer = ((runInPlace calls).performInPlace call).2) ∧
    (∀ call fault, ((runInPlace calls).performInPlace call).2 = .refused fault →
      ((runInPlace calls).performInPlace call).1 = runInPlace calls) ∧
    (∀ producer consumer n m source target,
      (runInPlace calls).finish.node? producer = some n → n.output? producer = some source →
      (runInPlace calls).finish.node? consumer = some m → m.input? consumer = some target →
      (runInPlace calls).performInPlace (.connect producer consumer) =
        (runInPlace calls).performInPlace (.join source target)) := by
  simp only [performInPlace_eq, runInPlace_eq]
  have hd := run_sound calls
  refine ⟨fun call g answer => ⟨eq_perform_of_verdict hd, ?_⟩, fun call fault => perform_of_refused,
    fun producer consumer n m source target hp hs hc ht => ?_⟩
  · rintro ⟨rfl, rfl⟩
    exact verdict_of_perform hd call
  · rw [perform, connect_of_offers hp hs hc ht, perform]

end Draft
end ClipGraph
