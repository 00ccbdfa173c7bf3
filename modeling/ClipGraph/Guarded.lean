import ClipGraph.Connector

/-!
# Guarded operations

Operations that rely on what they are given: a place of a list that has to be there, a count that must
not leave its word, a connector packed from a node and a port that have to fit. A computation made of
them stops where one is given anything else, so that it answers at all says that none was.
-/

namespace ClipGraph

/-- What an operation was given that it cannot work on. -/
inductive Breach where
  /-- A place in a list of this size. -/
  | outOfRange (place size : Nat)
  /-- A count that is full. -/
  | overflow
  /-- A count that is zero already. -/
  | belowZero
  /-- A node or a port that does not fit its field. -/
  | badConnector (node : NodeId) (port : UInt16)
  deriving DecidableEq, Repr

/-- A computation that stops at a breach. -/
abbrev Guarded (α : Type) := Except Breach α

namespace Guarded

variable {α : Type}

def read (a : Array α) (i : Nat) : Guarded α :=
  match a[i]? with
  | some x => .ok x
  | none => .error (.outOfRange i a.size)

def write (a : Array α) (i : Nat) (x : α) : Guarded (Array α) :=
  if i < a.size then .ok (a.setIfInBounds i x) else .error (.outOfRange i a.size)

def update (f : α → Guarded α) (a : Array α) (i : Nat) : Guarded (Array α) := do
  write a i (← f (← read a i))

/-- The items from a place on, which may be the end. -/
def sliceFrom (a : Array α) (start : Nat) : Guarded (List α) :=
  if start ≤ a.size then .ok (a.toList.drop start) else .error (.outOfRange start a.size)

def countUp (n : UInt32) : Guarded UInt32 :=
  if n = 4294967295 then .error .overflow else .ok (n + 1)

def countDown (n : UInt32) : Guarded UInt32 :=
  if n = 0 then .error .belowZero else .ok (n - 1)

def connector (node : NodeId) (port : UInt16) : Guarded Connector :=
  if node.val ≤ Connector.lastNode ∧ port ≤ Connector.lastPort then
    .ok ⟨node.val * Connector.portCount + port.toUInt32⟩
  else .error (.badConnector node port)

/-- The connector of a port, or `none` when the node or the port does not fit its field. -/
def connector? (node : NodeId) (port : UInt16) : Guarded (Option Connector) := do
  if Connector.lastNode < node.val ∨ Connector.lastPort < port then return none
  return some (← connector node port)

/-- Reading does not fail just if the place is in range. -/
theorem read_eq_ok_iff {a : Array α} {i : Nat} {x : α} : read a i = .ok x ↔ a[i]? = some x := by
  unfold read
  cases a[i]? <;> simp

theorem write_eq_ok_iff {a b : Array α} {i : Nat} {x : α} :
    write a i x = .ok b ↔ i < a.size ∧ a.setIfInBounds i x = b := by
  unfold write
  split
  · next h => simp [h]
  · next h => simp [h]

theorem update_of_getElem? {f : α → Guarded α} {a : Array α} {i : Nat} {x y : α}
    (hx : a[i]? = some x) (hf : f x = .ok y) : update f a i = .ok (a.setIfInBounds i y) := by
  have hi : i < a.size := (Array.getElem?_eq_some_iff.mp hx).1
  simp only [update, read_eq_ok_iff.mpr hx, bind, Except.bind, hf]
  exact write_eq_ok_iff.mpr ⟨hi, rfl⟩

theorem sliceFrom_of_le {a : Array α} {start : Nat} (h : start ≤ a.size) :
    sliceFrom a start = .ok (a.toList.drop start) := if_pos h

/-- Counting up does not fail below the greatest word. -/
theorem countUp_of_lt {n : UInt32} (h : n.toNat + 1 < 4294967296) :
    countUp n = .ok (n + 1) ∧ (n + 1).toNat = n.toNat + 1 := by
  have hn : n ≠ 4294967295 := by
    rintro rfl
    exact absurd h (by decide)
  exact ⟨if_neg hn, by rw [UInt32.toNat_add]; exact Nat.mod_eq_of_lt h⟩

theorem countDown_eq_ok_iff {n m : UInt32} : countDown n = .ok m ↔ n.toNat = m.toNat + 1 := by
  unfold countDown
  split
  · next h => simp [h]
  · next h =>
    have hpos : n.toNat ≠ 0 := fun hzero => h (UInt32.toNat.inj hzero)
    have hsub : (n - 1).toNat = n.toNat - 1 := UInt32.toNat_sub_of_le _ _ (by
      rw [UInt32.le_iff_toNat_le]
      exact Nat.pos_of_ne_zero hpos)
    rw [Except.ok.injEq, ← UInt32.toNat_inj, hsub]
    omega

/-- A port that is looked at first never fails to be packed. -/
theorem connector?_eq (node : NodeId) (port : UInt16) :
    connector? node port = .ok (Connector.ofPort? node port) := by
  unfold connector? connector Connector.ofPort?
  by_cases hnode : node.val ≤ Connector.lastNode
  · by_cases hport : port ≤ Connector.lastPort
    · have hn := UInt32.not_lt.mpr hnode
      have hp := UInt16.not_lt.mpr hport
      simp only [hnode, hport, hn, hp, or_self, and_self, if_true, if_false]
      rfl
    · simp only [hport, UInt16.not_le.mp hport, or_true, and_false, if_true, if_false]
      rfl
  · simp only [hnode, UInt32.not_le.mp hnode, true_or, false_and, if_true, if_false]
    rfl

end Guarded
end ClipGraph
