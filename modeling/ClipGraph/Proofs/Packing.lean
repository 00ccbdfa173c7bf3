import Mathlib
import ClipGraph.Proofs.Ports

/-!
# Packing keeps the order

A node and a port that fit their fields are packed into one word, the bits of the node above those of the
port. Every word is the packing of the pair it is read as, no two pairs share a word, and words are
ordered as their pairs are: by node, and within a node by port.
-/

namespace ClipGraph.Connector

/-- The bits of a node above those of a port, without those that do not fit. -/
def ofBits (node : NodeId) (port : UInt16) : Connector :=
  ⟨node.val <<< 12 ||| (port.toUInt32 &&& 4095)⟩

theorem word_toNat (c : Connector) : c.word.toNat = c.node.index * 4096 + c.port.toNat := by
  rw [node_index, port_toNat]
  omega

/-- Bits of a port that fits are below those of any node, so putting them together is adding them. -/
theorem ofBits_eq {node : NodeId} {port : UInt16} (hnode : node.val ≤ lastNode)
    (hport : port ≤ lastPort) : ofBits node port = ⟨node.val * portCount + port.toUInt32⟩ := by
  rw [UInt32.le_iff_toNat_le, show lastNode.toNat = 1048575 from rfl] at hnode
  rw [UInt16.le_iff_toNat_le, show lastPort.toNat = 4095 from rfl] at hport
  have hmask : port.toNat &&& 4095 = port.toNat := by
    rw [show 4095 = 2 ^ 12 - 1 from rfl, Nat.and_two_pow_sub_one_eq_mod]
    exact Nat.mod_eq_of_lt (by omega)
  have hshift : node.val.toNat <<< 12 % 2 ^ 32 = node.val.toNat <<< 12 := by
    apply Nat.mod_eq_of_lt
    rw [Nat.shiftLeft_eq]
    omega
  have hor : node.val.toNat <<< 12 ||| port.toNat = node.val.toNat <<< 12 + port.toNat :=
    (Nat.shiftLeft_add_eq_or_of_lt (by omega) _).symm
  rw [ofBits]
  congr 1
  apply UInt32.toNat.inj
  simp only [UInt32.toNat_or, UInt32.toNat_shiftLeft, UInt32.toNat_and, UInt16.toNat_toUInt32,
    UInt32.toNat_add, UInt32.toNat_mul, portCount]
  rw [show UInt32.toNat 12 % 32 = 12 from rfl, show UInt32.toNat 4095 = 4095 from rfl,
    show UInt32.toNat 4096 = 4096 from rfl, hmask, hshift, hor, Nat.shiftLeft_eq]
  omega

/-- The node of a connector is the word without its last twelve bits. -/
theorem node_val_eq_shiftRight (c : Connector) : c.node.val = c.word >>> 12 := by
  apply UInt32.toNat.inj
  rw [UInt32.toNat_shiftRight, show UInt32.toNat 12 % 32 = 12 from rfl, Nat.shiftRight_eq_div_pow]
  exact node_index c

/-- The port of a connector is in the last twelve bits of the word. -/
theorem port_eq_and (c : Connector) : c.port = (c.word &&& 4095).toUInt16 := by
  apply UInt16.toNat.inj
  rw [port_toNat, UInt32.toNat_toUInt16, UInt32.toNat_and, show UInt32.toNat 4095 = 2 ^ 12 - 1 from rfl,
    Nat.and_two_pow_sub_one_eq_mod]
  omega

/-- Packing with shifts and masks is packing by arithmetic. -/
theorem ofPort?_eq_ofBits (node : NodeId) (port : UInt16) : ofPort? node port =
    if node.val ≤ lastNode ∧ port ≤ lastPort then some (ofBits node port) else none := by
  rw [ofPort?]
  split
  · next hfit => rw [ofBits_eq hfit.1 hfit.2]
  · rfl

theorem eq_ofBits_of_ofPort? {node : NodeId} {port : UInt16} {c : Connector}
    (h : ofPort? node port = some c) : c = ofBits node port := by
  rw [ofPort?_eq_ofBits] at h
  exact (Option.some.inj (Option.ite_none_right_eq_some.mp h).2).symm

theorem exists_ofPort?_iff (node : NodeId) (port : UInt16) :
    (∃ c, ofPort? node port = some c) ↔ node.val ≤ lastNode ∧ port ≤ lastPort := by
  rw [ofPort?_eq_ofBits]
  exact Option.isSome_iff_exists.symm.trans Option.isSome_ite

/-- Connectors are ordered by node and then by port. -/
theorem lt_iff (c d : Connector) :
    c < d ↔ Prod.Lex (· < ·) (· < ·) (c.node.val, c.port) (d.node.val, d.port) := by
  have hword : c < d ↔ c.word.toNat < d.word.toNat := UInt32.lt_iff_toNat_lt
  have hport := port_toNat c
  have hport' := port_toNat d
  rw [Prod.lex_def, hword, word_toNat, word_toNat, ← UInt32.toNat_inj, UInt32.lt_iff_toNat_lt,
    UInt16.lt_iff_toNat_lt]
  simp only [NodeId.index]
  omega

/-- A pair is packed exactly if it fits, a word is the packing of the pair it is read as and of no other,
and words are ordered as their pairs are. -/
theorem packs_pairs_in_order :
    (∀ node port, (∃ c, ofPort? node port = some c) ↔ node.val ≤ 1048575 ∧ port ≤ 4095) ∧
    (∀ node port c, ofPort? node port = some c →
      c = ofBits node port ∧ c.node = node ∧ c.port = port) ∧
    (∀ c : Connector, c.node.val = c.word >>> 12 ∧ c.port = (c.word &&& 4095).toUInt16 ∧
      ofPort? c.node c.port = some c) ∧
    (∀ c d : Connector,
      c < d ↔ Prod.Lex (· < ·) (· < ·) (c.node.val, c.port) (d.node.val, d.port)) ∧
    ∀ (p q : NodeId × UInt16) (c : Connector),
      ofPort? p.1 p.2 = some c → ofPort? q.1 q.2 = some c → p = q := by
  refine ⟨exists_ofPort?_iff, ?_, ?_, lt_iff, ?_⟩
  · intro node port c h
    exact ⟨eq_ofBits_of_ofPort? h, of_ofPort? h⟩
  · intro c
    exact ⟨node_val_eq_shiftRight c, port_eq_and c, ofPort?_eq_some_iff.mpr ⟨rfl, rfl⟩⟩
  · intro p q c hp hq
    obtain ⟨hnode, hport⟩ := of_ofPort? hp
    obtain ⟨hnode', hport'⟩ := of_ofPort? hq
    exact Prod.ext (hnode.symm.trans hnode') (hport.symm.trans hport')

/-- The last pair has the last word, which is read as no other pair, and the last port of a node stands
right before the first port of the next node. -/
theorem last_packed :
    ofPort? ⟨1048575⟩ 4095 = some ⟨4294967295⟩ ∧
      (⟨4294967295⟩ : Connector) = ofBits ⟨1048575⟩ 4095 ∧
      ((⟨1048575⟩, 4095) : NodeId × UInt16) =
        ((⟨4294967295⟩ : Connector).node, (⟨4294967295⟩ : Connector).port) ∧
    (⟨4294963199⟩ : Connector) < ⟨4294963200⟩ := by
  obtain ⟨-, hpair, hread, hlt, hunique⟩ := packs_pairs_in_order
  have hlast : ofPort? ⟨1048575⟩ 4095 = some ⟨4294967295⟩ := by decide
  refine ⟨hlast, (hpair _ _ _ hlast).1, hunique _ _ _ hlast (hread _).2.2, (hlt _ _).mpr ?_⟩
  exact .left _ _ (by decide)

end ClipGraph.Connector
