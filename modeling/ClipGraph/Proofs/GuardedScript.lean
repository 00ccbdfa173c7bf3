import Mathlib
import ClipGraph.Guarded.Script
import ClipGraph.Proofs.GuardedOrder
import ClipGraph.Proofs.Parts

/-!
# Compiling breaks no guard

Whatever the nodes and connections and whatever the order, every phase of a compilation answers, and
answers what it does without guards. All that it takes is that connections can be counted in a word.
-/

namespace ClipGraph.Guarded

/-- Validation breaches nothing. -/
theorem validate_eq (g : Graph) : validate g = .ok g.validate := by
  rw [validate, Graph.validate, cycle?_eq, Graph.cycle?, Graph.wiring]
  cases g.nodes.any Node.isSource with
  | false => rfl
  | true =>
    cases g.nodes.any Node.isOutput with
    | false => rfl
    | true =>
      simp only [ok_bind]
      cases (Wiring.ofConnections g.size g.connections.toList).cycle? <;> rfl

theorem emissionSet_eq (g : Graph) : emissionSet g =
    .ok (Wiring.emitted (g.nodes.map Node.isOutput) (Wiring.edges g.size g.connections.toList)) := by
  rw [emissionSet, emitted_eq, Array.size_map, Graph.size]

theorem sort_eq {g : Graph} (h : g.connections.size < 4294967296) : sort g = .ok g.order := by
  rw [sort, order_eq _ (by simpa using h), Array.size_map, Graph.order, Graph.size]
  rfl

theorem input?_eq (n : Node) (id : NodeId) : input? n id = .ok (n.input? id) := by
  rw [input?, Node.input?, Node.connector?]
  cases n.ports.findIdx? (·.direction == .input) with
  | none => rfl
  | some port => exact connector?_eq id (UInt16.ofNat port)

theorem inputOf?_eq (l : Listing) (feeds : Feeds) (id : NodeId) (n : Node) :
    inputOf? l feeds id n = .ok (l.inputOf? feeds id n) := by
  rw [inputOf?, input?_eq, ok_bind, Listing.inputOf?]
  cases n.input? id <;> rfl

theorem take_eq (l : Listing) (feeds : Feeds) (nodes : Array Node) (position : Nat) (id : NodeId) :
    take l feeds nodes position id = .ok (l.take feeds nodes position id) := by
  rw [take, Listing.take]
  cases nodes[id.index]? with
  | none => rfl
  | some n =>
    cases n with
    | source s => cases hpath : s.path.text? <;> simp only [hpath] <;> rfl
    | filter f =>
      simp only [inputOf?_eq, ok_bind]
      cases l.inputOf? feeds id (.filter f) <;> rfl
    | output o =>
      simp only [inputOf?_eq, ok_bind]
      cases l.inputOf? feeds id (.output o) <;> rfl

theorem takeAll_eq (feeds : Feeds) (nodes : Array Node) (order : List NodeId) (position : Nat)
    (l : Listing) : takeAll feeds nodes position l order =
      .ok (Listing.takeAll feeds nodes position l order) := by
  induction order generalizing position l with
  | nil => rfl
  | cons id order ih =>
    rw [takeAll, Listing.takeAll, take_eq, ok_bind]
    cases l.take feeds nodes position id with
    | error fault => rfl
    | ok l => exact ih (position + 1) l

/-- Emitting a graph breaches nothing, whatever the order. -/
theorem emit_eq (g : Graph) (order : List NodeId) : emit g order = .ok (g.programFor order) := by
  rw [emit, Graph.programFor]
  cases Feeds.ofConnections g.connections.toList ∅ with
  | error fault => rfl
  | ok feeds =>
    simp only [takeAll_eq, ok_bind]
    rfl

/-- Reading the flag of every node breaks no guard if every node has one. -/
theorem omitted_eq {flags : Array Bool} {nodes : List Nat} (h : ∀ a ∈ nodes, a < flags.size) :
    omitted flags nodes = .ok (nodes.filter fun a => flags[a]? == some false) := by
  induction nodes with
  | nil => rfl
  | cons node nodes ih =>
    obtain ⟨hnode, hrest⟩ := List.forall_mem_cons.mp h
    have hget := Array.getElem?_eq_getElem hnode
    rw [omitted, read_eq_ok_iff.mpr hget, ih hrest, List.filter_cons, hget]
    cases flags[node] <;> rfl

/-- Compiling a graph with fewer connections than a word counts breaches nothing. -/
theorem compile_eq {g : Graph} (h : g.connections.size < 4294967296) : compile g = .ok g.compile := by
  have hflags : ∀ a ∈ List.range g.size, a < (Wiring.emitted (g.nodes.map Node.isOutput)
      (Wiring.edges g.size g.connections.toList)).size := by
    simp [Wiring.size_emitted, Graph.size]
  rw [compile, Graph.compile, validate_eq, ok_bind, sort_eq h, emissionSet_eq]
  cases g.validate with
  | error fault => rfl
  | ok u =>
    simp only [ok_bind, omitted_eq hflags, emit_eq]
    cases g.programFor g.order <;> rfl

/-- No phase breaks a guard. -/
theorem phases_eq_ok (g : Graph) (h : g.connections.size < 4294967296) :
    validate g = .ok g.validate ∧ sort g = .ok g.order ∧
    emissionSet g = .ok
      (Wiring.emitted (g.nodes.map Node.isOutput) (Wiring.edges g.size g.connections.toList)) ∧
    (∀ order, emit g order = .ok (g.programFor order)) ∧
    compileParts g = .ok g.compileParts := by
  refine ⟨validate_eq g, sort_eq h, emissionSet_eq g, emit_eq g, ?_⟩
  rw [compileParts, validate_eq, ok_bind, Graph.compileParts]
  cases g.validate with
  | error fault => rfl
  | ok u =>
    rw [ok_bind]
    cases hbuilt : Graph.ofParts g.nodes g.connections with
    | error fault => rfl
    | ok built =>
      obtain ⟨-, rfl⟩ := Graph.ofParts_eq_ok_iff.mp hbuilt
      exact compile_eq h

/-- A source, a filter and an output, with two connections between the last two nodes, one of them into a
port that is not there, and a connection of nodes that are not there either. -/
def frayed : Graph where
  nodes := #[.source ⟨.ofText "in.mkv", none⟩, .filter ⟨"Crop", "std", "Crop", []⟩, .output ⟨0⟩]
  connections := #[⟨⟨0⟩, ⟨4096⟩⟩, ⟨⟨4097⟩, ⟨8192⟩⟩, ⟨⟨4097⟩, ⟨12287⟩⟩, ⟨⟨4294967295⟩, ⟨4294963200⟩⟩]

theorem frayed_phases : frayed.connections.size < 4294967296 ∧ validate frayed = .ok (.ok ()) ∧
    sort frayed = .ok [⟨0⟩, ⟨1⟩, ⟨2⟩] ∧ emissionSet frayed = .ok #[true, true, true] ∧
    emit frayed [⟨2⟩, ⟨1048576⟩] = .ok (.error (.danglingInput ⟨2⟩)) ∧
    compileParts frayed = .ok (.error (.invalidGraph (.unknownConnector ⟨12287⟩))) := by
  have hsize : frayed.connections.size < 4294967296 := by decide
  obtain ⟨hvalidate, hsort, hflags, hemit, hparts⟩ := phases_eq_ok frayed hsize
  have hvalid : frayed.validate = .ok () := by cbv
  have horder : frayed.order = [⟨0⟩, ⟨1⟩, ⟨2⟩] := by cbv
  have hall : Wiring.emitted (frayed.nodes.map Node.isOutput)
      (Wiring.edges frayed.size frayed.connections.toList) = #[true, true, true] := by cbv
  have hprogram : frayed.programFor [⟨2⟩, ⟨1048576⟩] = .error (.danglingInput ⟨2⟩) := by cbv
  have hcompile : frayed.compileParts =
      .error (.invalidGraph (.unknownConnector ⟨12287⟩)) := by cbv
  rw [hvalidate, hsort, hflags, hemit, hparts, hvalid, horder, hall, hprogram, hcompile]
  exact ⟨hsize, rfl, rfl, rfl, rfl, rfl⟩

end ClipGraph.Guarded
