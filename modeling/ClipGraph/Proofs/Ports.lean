import Mathlib
import ClipGraph.Graph

/-!
# Ports and connectors

A connector word and the pair of its node and its port determine each other. So the connector that a
node offers in a direction is the only one of that direction, and a connector names no port of a
second node.
-/

namespace ClipGraph

theorem NodeId.ofIndex_index (id : NodeId) : ofIndex id.index = id :=
  ext_index (index_ofIndex id.val.toNat_lt)

namespace Connector

theorem node_index (c : Connector) : c.node.index = c.word.toNat / 4096 := by
  simp [node, NodeId.index, portCount]

theorem port_toNat (c : Connector) : c.port.toNat = c.word.toNat % 4096 := by
  have hlt : c.word.toNat % 4096 < 2 ^ 16 := by omega
  rw [port, UInt32.toNat_toUInt16, UInt32.toNat_mod]
  exact Nat.mod_eq_of_lt hlt

theorem ext_ports {c d : Connector} (hn : c.node = d.node) (hp : c.port = d.port) : c = d := by
  have hn' := congrArg NodeId.index hn
  have hp' := congrArg UInt16.toNat hp
  rw [node_index, node_index] at hn'
  rw [port_toNat, port_toNat] at hp'
  cases c
  cases d
  congr 1
  apply UInt32.toNat.inj
  simp only at hn' hp'
  omega

theorem node_le_last (c : Connector) : c.node.val ≤ lastNode := by
  have h := node_index c
  have hw := c.word.toNat_lt
  rw [NodeId.index] at h
  rw [UInt32.le_iff_toNat_le, h, show lastNode.toNat = 1048575 from rfl]
  omega

theorem port_le_last (c : Connector) : c.port ≤ lastPort := by
  have h := port_toNat c
  rw [UInt16.le_iff_toNat_le, h, show lastPort.toNat = 4095 from rfl]
  omega

/-- The word of a pair that fits holds exactly that pair. -/
theorem of_ofPort? {id : NodeId} {p : UInt16} {c : Connector} (h : ofPort? id p = some c) :
    c.node = id ∧ c.port = p := by
  unfold ofPort? at h
  split at h
  · next hfit =>
    obtain ⟨hn, hp⟩ := hfit
    rw [UInt32.le_iff_toNat_le, show lastNode.toNat = 1048575 from rfl] at hn
    rw [UInt16.le_iff_toNat_le, show lastPort.toNat = 4095 from rfl] at hp
    have hw : c.word.toNat = id.val.toNat * 4096 + p.toNat := by
      simp only [Option.some.injEq] at h
      subst h
      simp only [portCount, UInt32.toNat_add, UInt32.toNat_mul, UInt16.toNat_toUInt32]
      rw [show UInt32.toNat 4096 = 4096 from rfl]
      omega
    constructor
    · apply NodeId.ext_index
      rw [node_index, hw, NodeId.index]
      omega
    · apply UInt16.toNat.inj
      rw [port_toNat, hw]
      omega
  · simp at h

/-- A connector is that of a port just if it names the node and the port. -/
theorem ofPort?_eq_some_iff {id : NodeId} {p : UInt16} {c : Connector} :
    ofPort? id p = some c ↔ c.node = id ∧ c.port = p := by
  constructor
  · exact of_ofPort?
  · rintro ⟨rfl, rfl⟩
    have hfit : ofPort? c.node c.port = some ⟨c.node.val * portCount + c.port.toUInt32⟩ :=
      if_pos ⟨node_le_last c, port_le_last c⟩
    obtain ⟨hn, hp⟩ := of_ofPort? hfit
    rw [hfit, ext_ports hn hp]

end Connector

/-- No kind of node has two ports of one direction. -/
theorem NodeKind.findIdx?_ports (kind : NodeKind) (d : Direction) (k : Nat) :
    kind.ports.findIdx? (·.direction == d) = some k ↔
      kind.ports[k]?.map (·.direction) = some d := by
  cases kind <;> cases d <;> rcases k with _ | _ | k <;>
    simp [ports, List.findIdx?_cons]

namespace Node

/-- A node offers a connector in a direction exactly if it owns it and its port has that
direction. -/
theorem connector?_eq_some_iff {n : Node} {id : NodeId} {d : Direction} {c : Connector} :
    n.connector? id d = some c ↔ c.node = id ∧ n.direction? c.port = some d := by
  have hport : ∀ k, n.ports.findIdx? (·.direction == d) = some k → k < 2 ^ 16 := by
    intro k hk
    have hlt := List.findIdx?_eq_some_iff_findIdx_eq.mp hk
    have : n.ports.length ≤ 2 := by cases n <;> simp [ports, kind, NodeKind.ports]
    omega
  simp only [connector?, direction?, Option.bind_eq_some_iff, Connector.ofPort?_eq_some_iff]
  constructor
  · rintro ⟨k, hk, hn, hp⟩
    have hkp : c.port.toNat = k := by
      rw [hp, UInt16.toNat_ofNat', Nat.mod_eq_of_lt (hport k hk)]
    exact ⟨hn, hkp ▸ (NodeKind.findIdx?_ports _ _ _).mp hk⟩
  · rintro ⟨hn, hd⟩
    exact ⟨_, (NodeKind.findIdx?_ports _ _ _).mpr hd, hn, by simp⟩

theorem input?_eq_some_iff {n : Node} {id : NodeId} {c : Connector} :
    n.input? id = some c ↔ c.node = id ∧ n.direction? c.port = some .input :=
  connector?_eq_some_iff

@[simp] theorem input?_source (s : SourceNode) (id : NodeId) : (source s).input? id = none := by
  simp [input?, connector?, ports, kind, NodeKind.ports, List.findIdx?_cons]

@[simp] theorem output?_output (o : OutputNode) (id : NodeId) : (output o).output? id = none := by
  simp [output?, connector?, ports, kind, NodeKind.ports, List.findIdx?_cons]

@[simp] theorem isSource_source (s : SourceNode) : (source s).isSource = true := rfl
@[simp] theorem isSource_filter (f : FilterNode) : (filter f).isSource = false := rfl
@[simp] theorem isSource_output (o : OutputNode) : (output o).isSource = false := rfl
@[simp] theorem isOutput_source (s : SourceNode) : (source s).isOutput = false := rfl
@[simp] theorem isOutput_filter (f : FilterNode) : (filter f).isOutput = false := rfl
@[simp] theorem isOutput_output (o : OutputNode) : (output o).isOutput = true := rfl

end Node
end ClipGraph
