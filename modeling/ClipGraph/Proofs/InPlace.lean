import ClipGraph.Graph.InPlace
import ClipGraph.Proofs.Drafting
import ClipGraph.Proofs.Results

/-!
# Refused calls in place

Worked out step by step, every call on a draft comes to the same as the call that checks first and
changes afterwards. The entries that a call makes before its last check are the point: a slot is entered
only when nothing can be refused any more, and an input that was in use is in use afterwards too.
-/

namespace ClipGraph

/-- Putting in what is in a set already gives the same set, cell by cell. -/
theorem hashSet_insert_eq_self {α : Type} [BEq α] [Hashable α] {m : Std.HashSet α} {a : α}
    (h : m.contains a = true) : m.insert a = m := by
  obtain ⟨⟨⟨raw, wf⟩⟩⟩ := m
  have hraw : (Std.DHashMap.Internal.Raw₀.insertIfNew ⟨raw, wf.size_buckets_pos⟩ a ()).1 = raw :=
    congrArg Subtype.val (if_pos h)
  simp only [Std.HashSet.insert, Std.HashMap.insertIfNew, Std.DHashMap.insertIfNew, hraw]

namespace Draft
namespace InPlace

/-- What a computation after another answers, and the draft that is left. -/
theorem result_bind (x : InPlace α) (f : α → InPlace β) (d : Draft) :
    (x >>= f).result d = match x.result d with
      | (.ok a, e) => (f a).result e
      | (.error fault, e) => (.error fault, e) := by
  have h : (x >>= f).result d = (ExceptT.bindCont f (x.result d).1).run (x.result d).2 := rfl
  rw [h]
  rcases x.result d with ⟨_ | _, _⟩ <;> rfl

@[simp] theorem result_pure (a : α) (d : Draft) : (pure a : InPlace α).result d = (.ok a, d) := rfl

@[simp] theorem result_throw (fault : GraphFault) (d : Draft) :
    (throw fault : InPlace α).result d = (.error fault, d) := rfl

@[simp] theorem result_get (d : Draft) : (get : InPlace Draft).result d = (.ok d, d) := rfl

@[simp] theorem result_modify (f : Draft → Draft) (d : Draft) :
    (modify f : InPlace PUnit).result d = (.ok ⟨⟩, f d) := rfl

@[simp] theorem result_map (f : α → β) (x : InPlace α) (d : Draft) :
    (f <$> x).result d = ((x.result d).1.map f, (x.result d).2) := by
  rw [map_eq_pure_bind, result_bind]
  rcases x.result d with ⟨_ | _, _⟩ <;> rfl

@[simp] theorem result_ask (f : Draft → Except GraphFault α) (d : Draft) :
    (ask f).result d = (f d, d) := by
  rw [ask, result_bind, result_get]
  cases h : f d <;> simp only [h, result_pure, result_throw]

/-- An entered slot is the only change, and there is none if the slot was taken. -/
theorem result_enterSlot (slot : UInt32) (id : NodeId) (d : Draft) :
    (enterSlot slot id).result d = match d.usedSlots[slot]? with
      | some holder => (.error (.slotTaken slot holder), d)
      | none => (.ok ⟨⟩, { d with usedSlots := d.usedSlots.insert slot id }) := by
  rw [enterSlot, result_bind, result_get]
  cases h : d.usedSlots[slot]? <;> simp only [h, result_modify, result_throw]

theorem result_enterInput (target : Connector) (d : Draft) :
    (enterInput target).result d = (.ok (!d.usedInputs.contains target),
      { d with usedInputs := d.usedInputs.insert target }) := by
  rw [← Std.HashSet.containsThenInsert_fst, ← Std.HashSet.containsThenInsert_snd]
  rfl

/-- The result of a call that gives no draft back when it is refused. -/
def settled (d : Draft) : Except GraphFault (Draft × α) → Except GraphFault α × Draft
  | .error fault => (.error fault, d)
  | .ok (next, a) => (.ok a, next)

/-- Adding in place answers as adding does, and a refusal changes nothing. -/
theorem result_add (n : Node) (d : Draft) : (add n).result d = settled d (d.add n) := by
  rw [add, result_bind, result_get]
  by_cases hfull : nodeLimit ≤ d.nodes.size
  · simp [hfull, Draft.add, Draft.check, settled]
  · cases n with
    | source s =>
      cases ht : s.path.text? <;> simp [hfull, Draft.add, Draft.check, settled, Draft.push, ht]
    | filter f =>
      cases hf : checkFilter (.ofIndex d.nodes.size) f <;>
        simp [hfull, Draft.add, Draft.check, settled, Draft.push, result_bind, hf]
    | output o =>
      cases ho : d.usedSlots[o.slot]? <;>
        simp [hfull, Draft.add, Draft.check, settled, Draft.push, result_bind, result_enterSlot, ho]

/-- Joining in place answers as joining does, and a refusal changes nothing. -/
theorem result_join (source target : Connector) (d : Draft) :
    (join source target).result d = settled d (d.join source target) := by
  rw [join, result_bind, result_ask]
  cases hs : d.directionOf source with
  | error fault => simp [Draft.join, checkJoin, settled, hs]
  | ok ds =>
    simp only [result_bind, result_ask]
    cases ht : d.directionOf target with
    | error fault => simp [Draft.join, checkJoin, settled, hs, ht]
    | ok dt =>
      by_cases hdir : ¬ ds = .output ∨ ¬ dt = .input
      · simp [Draft.join, checkJoin, settled, hs, ht, hdir]
      · cases hused : d.usedInputs.contains target with
        | true =>
          -- the entry is made before the refusal, but changes nothing
          have hsame := hashSet_insert_eq_self hused
          simp [Draft.join, checkJoin, settled, hs, ht, hdir, hused, hsame, result_bind,
            result_enterInput]
        | false =>
          simp [Draft.join, checkJoin, settled, hs, ht, hdir, hused, pushConnection, result_bind,
            result_enterInput]

/-- Connecting in place answers as connecting does, and a refusal changes nothing. -/
theorem result_connect (producer consumer : NodeId) (d : Draft) :
    (connect producer consumer).result d = settled d (d.connect producer consumer) := by
  rw [connect, result_bind, result_ask]
  cases hs : d.connectorOf producer .output with
  | error fault => simp [Draft.connect, settled, hs]
  | ok source =>
    simp only [result_bind, result_ask]
    cases ht : d.connectorOf consumer .input with
    | error fault => simp [Draft.connect, settled, hs, ht]
    | ok target => simp [Draft.connect, hs, ht, result_join]

end InPlace

/-- The draft after a computation in place, and the answer. -/
def answered (answer : α → Answer) : Except GraphFault α × Draft → Draft × Answer
  | (.error fault, d) => (d, .refused fault)
  | (.ok a, d) => (d, answer a)

def performInPlace (d : Draft) : Call → Draft × Answer
  | .add n => answered .node ((InPlace.add n).result d)
  | .connect producer consumer => answered .connection ((InPlace.connect producer consumer).result d)
  | .join source target => answered .connection ((InPlace.join source target).result d)

/-- The draft after a sequence of calls in place, whatever each of them answers. -/
def runInPlaceFrom (d : Draft) : List Call → Draft
  | [] => d
  | call :: rest => (d.performInPlace call).1.runInPlaceFrom rest

def runInPlace (calls : List Call) : Draft := empty.runInPlaceFrom calls

theorem answered_settled (d : Draft) (answer : α → Answer) (r : Except GraphFault (Draft × α)) :
    answered answer (InPlace.settled d r) = d.settle answer r := by
  rcases r with _ | ⟨_, _⟩ <;> rfl

/-- In place every call comes to the same as with all checks in front of all changes. -/
theorem performInPlace_eq (d : Draft) (call : Call) : d.performInPlace call = d.perform call := by
  cases call with
  | add n => rw [performInPlace, InPlace.result_add, answered_settled, perform]
  | connect producer consumer =>
    rw [performInPlace, InPlace.result_connect, answered_settled, perform]
  | join source target => rw [performInPlace, InPlace.result_join, answered_settled, perform]

theorem runInPlaceFrom_eq (d : Draft) (calls : List Call) :
    d.runInPlaceFrom calls = d.runFrom calls := by
  induction calls generalizing d with
  | nil => rfl
  | cons call rest ih => rw [runInPlaceFrom, runFrom, performInPlace_eq, ih]

/-- A run of calls in place comes to the draft of a run. -/
theorem runInPlace_eq (calls : List Call) : runInPlace calls = run calls :=
  runInPlaceFrom_eq empty calls

end Draft
end ClipGraph
