import ClipGraph.Proofs.Outcome
import ClipGraph.Proofs.Results

/-!
# Graphs from their parts

A list of nodes and a list of connections can be handed over as they are. A draft goes through them
one by one with its indexes and stops at the first it refuses; what it lets through in the end is
told by the two lists alone. They have to make a valid graph, and then that graph is what comes out.
-/

namespace ClipGraph
namespace Draft

/-- A sound draft takes a node exactly if its graph stays valid. -/
theorem check_eq_ok_iff_valid {d : Draft} {n : Node} (hd : d.Sound) :
    d.check n = .ok () ↔ Graph.Valid ⟨d.nodes.push n, d.connections⟩ := by
  constructor
  · intro hc
    have hv := (push_sound hd hc).valid
    rwa [push_finish] at hv
  · exact check_of_valid hd

/-- In a sound draft a connection passes the check just if the graph with it is valid. -/
theorem checkJoin_eq_ok_iff_valid {d : Draft} {source target : Connector} (hd : d.Sound) :
    d.checkJoin source target = .ok () ↔
      Graph.Valid ⟨d.nodes, d.connections.push ⟨source, target⟩⟩ := by
  constructor
  · intro hc
    exact (pushConnection_sound hd hc).valid
  · exact checkJoin_of_valid hd

theorem addAll_cons_eq_ok_iff {d e : Draft} {n : Node} {rest : List Node} :
    d.addAll (n :: rest) = .ok e ↔ d.check n = .ok () ∧ (d.push n).addAll rest = .ok e := by
  simp only [addAll, bind_eq_ok_iff, Prod.exists, add_eq_ok_iff]
  constructor
  · rintro ⟨next, id, ⟨hc, rfl, -⟩, hrest⟩
    exact ⟨hc, hrest⟩
  · rintro ⟨hc, hrest⟩
    exact ⟨_, _, ⟨hc, rfl, rfl⟩, hrest⟩

theorem joinAll_cons_eq_ok_iff {d e : Draft} {c : Connection} {rest : List Connection} :
    d.joinAll (c :: rest) = .ok e ↔ d.checkJoin c.source c.target = .ok () ∧
      (d.pushConnection c.source c.target).joinAll rest = .ok e := by
  simp only [joinAll, bind_eq_ok_iff, Prod.exists, join_eq_ok_iff]
  constructor
  · rintro ⟨next, id, ⟨hc, rfl, -⟩, hrest⟩
    exact ⟨hc, hrest⟩
  · rintro ⟨hc, hrest⟩
    exact ⟨_, _, ⟨hc, rfl, rfl⟩, hrest⟩

/-- A draft that took all of a list holds all of it, in order. -/
theorem addAll_sound {d e : Draft} {ns : List Node} (hd : d.Sound) (h : d.addAll ns = .ok e) :
    e.Sound ∧ e.nodes = d.nodes ++ ns.toArray ∧ e.connections = d.connections := by
  induction ns generalizing d with
  | nil =>
    simp only [addAll, Except.ok.injEq] at h
    subst h
    exact ⟨hd, by simp, rfl⟩
  | cons n rest ih =>
    obtain ⟨hc, hrest⟩ := addAll_cons_eq_ok_iff.mp h
    obtain ⟨he, hnodes, hconns⟩ := ih (push_sound hd hc) hrest
    exact ⟨he, by simp [hnodes], by simp [hconns]⟩

theorem joinAll_sound {d e : Draft} {cs : List Connection} (hd : d.Sound)
    (h : d.joinAll cs = .ok e) :
    e.Sound ∧ e.nodes = d.nodes ∧ e.connections = d.connections ++ cs.toArray := by
  induction cs generalizing d with
  | nil =>
    simp only [joinAll, Except.ok.injEq] at h
    subst h
    exact ⟨hd, rfl, by simp⟩
  | cons c rest ih =>
    obtain ⟨hc, hrest⟩ := joinAll_cons_eq_ok_iff.mp h
    obtain ⟨he, hnodes, hconns⟩ := ih (pushConnection_sound hd hc) hrest
    exact ⟨he, hnodes, by simp [hconns, pushConnection]⟩

/-- A draft without connections takes every list of nodes that leaves its graph valid. -/
theorem addAll_of_valid {d : Draft} (ns : List Node) (hd : d.Sound) (hnone : d.connections = #[])
    (h : Graph.Valid ⟨d.nodes ++ ns.toArray, #[]⟩) : ∃ e, d.addAll ns = .ok e := by
  induction ns generalizing d with
  | nil => exact ⟨d, rfl⟩
  | cons n rest ih =>
    have hsplit : d.nodes ++ (n :: rest).toArray = d.nodes.push n ++ rest.toArray := by simp
    rw [hsplit] at h
    have hc : d.check n = .ok () := by
      rw [check_eq_ok_iff_valid hd, hnone]
      exact h.of_append
    obtain ⟨e, he⟩ := ih (push_sound hd hc) (by simpa using hnone) (by simpa using h)
    exact ⟨e, addAll_cons_eq_ok_iff.mpr ⟨hc, he⟩⟩

/-- A list of connections that makes a valid graph is accepted as a whole. -/
theorem joinAll_of_valid {d : Draft} (cs : List Connection) (hd : d.Sound)
    (h : Graph.Valid ⟨d.nodes, d.connections ++ cs.toArray⟩) : ∃ e, d.joinAll cs = .ok e := by
  induction cs generalizing d with
  | nil => exact ⟨d, rfl⟩
  | cons c rest ih =>
    have hsplit : d.connections ++ (c :: rest).toArray = d.connections.push c ++ rest.toArray := by
      simp
    rw [hsplit] at h
    have hc := (checkJoin_eq_ok_iff_valid hd).mpr h.of_append_connections
    obtain ⟨e, he⟩ := ih (pushConnection_sound hd hc) h
    exact ⟨e, joinAll_cons_eq_ok_iff.mpr ⟨hc, he⟩⟩

end Draft

namespace Graph

/-- Parts are accepted exactly if they make a valid graph, which then is the one that they make. -/
theorem ofParts_eq_ok_iff {nodes : Array Node} {connections : Array Connection} {g : Graph} :
    ofParts nodes connections = .ok g ↔
      Valid ⟨nodes, connections⟩ ∧ g = ⟨nodes, connections⟩ := by
  simp only [ofParts, bind_eq_ok_iff, pure_eq_ok_iff]
  constructor
  · rintro ⟨d, hadd, e, hjoin, rfl⟩
    obtain ⟨hd, hdnodes, hdconns⟩ := Draft.addAll_sound Draft.empty_sound hadd
    obtain ⟨he, henodes, heconns⟩ := Draft.joinAll_sound hd hjoin
    have hfinish : e.finish = ⟨nodes, connections⟩ := by
      simp [Draft.finish, henodes, heconns, hdnodes, hdconns, Draft.empty]
    exact ⟨hfinish ▸ he.valid, hfinish⟩
  · rintro ⟨hv, rfl⟩
    have hall : Valid ⟨nodes, #[] ++ connections⟩ := by simpa using hv
    obtain ⟨d, hadd⟩ := Draft.addAll_of_valid nodes.toList Draft.empty_sound rfl
      (by simpa [Draft.empty] using hall.of_append_connections)
    obtain ⟨hd, hdnodes, hdconns⟩ := Draft.addAll_sound Draft.empty_sound hadd
    obtain ⟨e, hjoin⟩ := Draft.joinAll_of_valid connections.toList hd
      (by simpa [hdnodes, hdconns, Draft.empty] using hv)
    obtain ⟨-, henodes, heconns⟩ := Draft.joinAll_sound hd hjoin
    refine ⟨d, hadd, e, hjoin, ?_⟩
    simp [Draft.finish, henodes, heconns, hdnodes, hdconns, Draft.empty]

theorem compileParts_of_validate_error {g : Graph} {fault : CompileFault}
    (h : g.validate = .error fault) : g.compileParts = .error fault := by
  simp only [compileParts, h]
  rfl

theorem compileParts_of_validate_ok {g : Graph} (h : g.validate = .ok ()) :
    g.compileParts = match ofParts g.nodes g.connections with
      | .error fault => .error (.invalidGraph fault)
      | .ok built => built.compile := by
  simp only [compileParts, h]
  rfl

/-- Parts are accepted exactly if they make a valid graph, and that graph holds them unchanged. To
compile accepted parts is to compile their graph. Refused parts fail with the fault of validation if
there is one, and otherwise with what they are refused for. -/
theorem ofParts_iff_valid_and_compileParts (nodes : Array Node) (connections : Array Connection) :
    ((∃ g, ofParts nodes connections = .ok g) ↔ Valid ⟨nodes, connections⟩) ∧
    (∀ g, ofParts nodes connections = .ok g → g.nodes = nodes ∧ g.connections = connections ∧
      compileParts ⟨nodes, connections⟩ = g.compile) ∧
    ∀ fault, ofParts nodes connections = .error fault →
      (∀ first, validate ⟨nodes, connections⟩ = .error first →
        compileParts ⟨nodes, connections⟩ = .error first) ∧
      (validate ⟨nodes, connections⟩ = .ok () →
        compileParts ⟨nodes, connections⟩ = .error (.invalidGraph fault)) := by
  refine ⟨?_, ?_, ?_⟩
  · constructor
    · rintro ⟨g, hg⟩
      exact (ofParts_eq_ok_iff.mp hg).1
    · intro hv
      exact ⟨_, ofParts_eq_ok_iff.mpr ⟨hv, rfl⟩⟩
  · intro g hg
    obtain ⟨-, rfl⟩ := ofParts_eq_ok_iff.mp hg
    refine ⟨rfl, rfl, ?_⟩
    cases hval : validate ⟨nodes, connections⟩ with
    | error first => rw [compileParts_of_validate_error hval, compile_of_validate_error hval]
    | ok u => rw [compileParts_of_validate_ok hval, hg]
  · intro fault hfault
    constructor
    · intro first hval
      exact compileParts_of_validate_error hval
    · intro hval
      rw [compileParts_of_validate_ok hval, hfault]

/-- Two sources beside an output. -/
def sideBySide : Array Node :=
  #[.source ⟨.ofText "a.mkv", none⟩, .source ⟨.ofText "b.mkv", none⟩, .output ⟨0⟩]

/-- One connection into the output is fine, and a second one is refused after validation. Two outputs
on one slot are refused too, but validation comes first. -/
theorem sideBySide_parts :
    (∃ g, ofParts sideBySide #[⟨⟨4096⟩, ⟨8192⟩⟩] = .ok g ∧
      compileParts ⟨sideBySide, #[⟨⟨4096⟩, ⟨8192⟩⟩]⟩ = g.compile) ∧
    compileParts ⟨sideBySide, #[⟨⟨4096⟩, ⟨8192⟩⟩, ⟨⟨0⟩, ⟨8192⟩⟩]⟩ =
      .error (.invalidGraph (.inputTaken ⟨8192⟩)) ∧
    ofParts #[.output ⟨0⟩, .output ⟨0⟩] #[] = .error (.slotTaken 0 ⟨0⟩) ∧
      compileParts ⟨#[.output ⟨0⟩, .output ⟨0⟩], #[]⟩ = .error .noSource := by
  have hone : ofParts sideBySide #[⟨⟨4096⟩, ⟨8192⟩⟩] =
      .ok ⟨sideBySide, #[⟨⟨4096⟩, ⟨8192⟩⟩]⟩ := by cbv
  have htwo : ofParts sideBySide #[⟨⟨4096⟩, ⟨8192⟩⟩, ⟨⟨0⟩, ⟨8192⟩⟩] =
      .error (.inputTaken ⟨8192⟩) := by cbv
  have hval : validate ⟨sideBySide, #[⟨⟨4096⟩, ⟨8192⟩⟩, ⟨⟨0⟩, ⟨8192⟩⟩]⟩ = .ok () := by cbv
  have hslot : ofParts #[.output ⟨0⟩, .output ⟨0⟩] #[] = .error (.slotTaken 0 ⟨0⟩) := by cbv
  have hsource : validate ⟨#[.output ⟨0⟩, .output ⟨0⟩], #[]⟩ = .error .noSource := by cbv
  have hjoined := ((ofParts_iff_valid_and_compileParts _ _).2.1 _ hone).2.2
  have hrefused := ((ofParts_iff_valid_and_compileParts _ _).2.2 _ htwo).2 hval
  have hfirst := ((ofParts_iff_valid_and_compileParts _ _).2.2 _ hslot).1 _ hsource
  exact ⟨⟨_, hone, hjoined⟩, hrefused, hslot, hfirst⟩

end Graph
end ClipGraph
