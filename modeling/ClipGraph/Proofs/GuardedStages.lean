import Mathlib
import ClipGraph.Proofs.GuardedCycle

/-!
# The search, stage by stage

The search for a cycle stands before one of its roots or on the way from one. At each of these stages the
nodes in progress are those on the stack, the stack follows the edges, what an entry has offered is done or
stands right above it, and no edge leads out of the done nodes. So a consumer in progress is found on the
stack, the stack is empty before each root, and every stage leads to the answer.
-/

namespace ClipGraph.Guarded

open Relation (ReflTransGen)
open Wiring (Mark Walk InRange)

namespace Search

/-- The nodes on the stack. The node that the search stands on is the last. -/
def nodes (s : Search) : List Nat := s.stack.toList.map Entry.node

/-- What holds between any two steps of a search. -/
structure Sound (w : Wiring) (s : Search) : Prop where
  onStack : ∀ a : Nat, s.marks[a]? = some .inProgress ↔ a ∈ s.nodes
  nodup : s.nodes.Nodup
  chain : s.nodes.IsChain w.Edge
  /-- A consumer that an entry has offered is done or the node of the entry above. -/
  offered : ∀ (i k : Nat) (e : Entry) (child : Nat), s.stack[i]? = some e → k < e.offered →
    (w.next e.node)[k]? = some child →
    s.marks[child]? = some .done ∨ (s.stack[i + 1]?).map Entry.node = some child
  closed : ∀ a b : Nat, s.marks[a]? = some .done → w.Edge a b → s.marks[b]? = some .done

/-- Where the consumer to offer next is in progress, it is found on the stack, and the search closes with
the stack from there on. -/
def ClosesOnStack (w : Wiring) (s : Search) : Prop :=
  ∀ (below : Array Entry) (node offered child : Nat), s.stack = below.push ⟨node, offered⟩ →
    (w.next node)[offered]? = some child → s.marks[child]? = some .inProgress →
    ∃ start, (below.push ⟨node, offered + 1⟩).findIdx? (·.node == child) = some start ∧
      step w s = .ok (.closed (((below.push ⟨node, offered + 1⟩).toList.drop start).map Entry.node))

/-- A step that moves leaves fewer nodes unvisited, or as many and less to do on the stack. -/
def Descends (w : Wiring) (s : Search) : Prop :=
  ∀ t, step w s = .ok (.moved t) →
    Prod.Lex (· < ·) (· < ·) (t.unvisited, t.remaining w) (s.unvisited, s.remaining w)

end Search

/-- Where a search stands: before the next of the roots that are left, or on the way from one, with the
roots after it left. -/
inductive Stage where
  | between (roots : List Nat) (search : Search)
  | within (roots : List Nat) (search : Search)
  deriving DecidableEq, Repr

namespace Stage

def search : Stage → Search
  | between _ s => s
  | within _ s => s

/-- What a step on the way from a root leads to. -/
def after (roots : List Nat) (s : Search) : Search.Step → Except (Option (List Nat)) Stage
  | .idle => .ok (between roots s)
  | .closed cycle => .error (some cycle)
  | .moved t => .ok (within roots t)

def next (w : Wiring) : Stage → Guarded (Except (Option (List Nat)) Stage)
  | between [] _ => return .error none
  | between (root :: roots) s => do
    match ← read s.marks root with
    | .unvisited =>
      return .ok (within roots ⟨← write s.marks root .inProgress, s.stack.push ⟨root, 0⟩⟩)
    | _ => return .ok (between roots s)
  | within roots s => (Search.step w s).map (after roots s)

def start (n : Nat) : Stage := between (List.range n) ⟨Array.replicate n .unvisited, #[]⟩

def Goes (w : Wiring) (a b : Stage) : Prop := next w a = .ok (.ok b)

/-- The stages that the search among `n` nodes goes through. -/
def Reached (n : Nat) (w : Wiring) : Stage → Prop := ReflTransGen (Goes w) (start n)

/-- From this stage the search comes to an answer. -/
def Answers (w : Wiring) (a : Stage) (answer : Option (List Nat)) : Prop :=
  ∃ last, ReflTransGen (Goes w) a last ∧ next w last = .ok (.error answer)

end Stage

section Walk

variable {w : Wiring} {s : Search}

def Entry.stop (w : Wiring) (e : Entry) : Wiring.Stop := ⟨e.node, (w.next e.node).drop e.offered⟩

/-- The stack read as a path, cut at one of its entries. -/
theorem walk_path_of_getElem? {i : Nat} {e : Entry} (h : s.stack[i]? = some e) :
    ∃ higher lower, (s.walk w).path = higher ++ e.stop w :: lower ∧
      higher.getLast?.map Wiring.Stop.node = (s.stack[i + 1]?).map Entry.node := by
  obtain ⟨marks, ⟨entries⟩⟩ := s
  rw [List.getElem?_toArray] at h ⊢
  obtain ⟨hi, rfl⟩ := List.getElem?_eq_some_iff.mp h
  have hsplit : entries = entries.take i ++ entries[i] :: entries.drop (i + 1) := by simp
  have hpath : (Search.walk w ⟨marks, ⟨entries⟩⟩).path =
      ((entries.drop (i + 1)).map (Entry.stop w)).reverse ++
        entries[i].stop w :: ((entries.take i).map (Entry.stop w)).reverse := by
    calc (Search.walk w ⟨marks, ⟨entries⟩⟩).path
        = (entries.map (Entry.stop w)).reverse := rfl
      _ = _ := by
        conv_lhs =>
          rw [hsplit, List.map_append, List.map_cons, List.reverse_append, List.reverse_cons]
        rw [List.append_assoc, List.singleton_append]
  refine ⟨_, _, hpath, ?_⟩
  rw [List.getLast?_reverse, List.head?_map, List.head?_drop, Option.map_map]
  rfl

/-- A stop anywhere on a path has let go of consumers that are done and of the node right above it. -/
theorem passed_of_offered {marks : Array Mark} {above : Option Nat} {higher lower : List Wiring.Stop}
    {stop : Wiring.Stop} (h : Walk.Offered w marks above (higher ++ stop :: lower)) :
    ∃ passed, w.next stop.node = passed ++ stop.rest ∧ ∀ c ∈ passed, marks[c]? = some .done ∨
      (higher.getLast?.map Wiring.Stop.node).or above = some c := by
  induction higher generalizing above with
  | nil => exact h.1
  | cons first higher ih =>
    obtain ⟨passed, hnext, hpassed⟩ := ih h.2
    refine ⟨passed, hnext, fun c hc => ?_⟩
    have habove := hpassed c hc
    cases higher with
    | nil => exact habove
    | cons second higher =>
      rw [List.getLast?_cons_cons]
      rw [List.getLast?_cons] at habove ⊢
      exact habove

/-- A search is sound if its walk is. -/
theorem sound_of_walk (h : Walk.Sound w (s.walk w)) : s.Sound w := by
  have hnodes : (s.walk w).path.map Wiring.Stop.node = s.nodes.reverse := Search.map_node_walk w s
  have honPath := h.onPath
  have hnodup := h.nodup
  have hchain := h.chain
  rw [hnodes] at honPath hnodup hchain
  constructor
  · intro a
    exact (honPath a).trans List.mem_reverse
  · exact List.nodup_reverse.mp hnodup
  · exact List.isChain_reverse.mp hchain
  · intro i k e child he hk hchild
    obtain ⟨higher, lower, hpath, habove⟩ := walk_path_of_getElem? (w := w) he
    obtain ⟨passed, hnext, hpassed⟩ := passed_of_offered (hpath ▸ h.offered)
    have hsplit : passed ++ (w.next e.node).drop e.offered =
        (w.next e.node).take e.offered ++ (w.next e.node).drop e.offered := by
      rw [List.take_append_drop]
      exact hnext.symm
    have htake : passed = (w.next e.node).take e.offered := List.append_cancel_right hsplit
    have hmem : child ∈ passed := by
      rw [htake, List.mem_iff_getElem?]
      exact ⟨k, by rw [List.getElem?_take_of_lt hk, hchild]⟩
    have hdone := hpassed child hmem
    rw [Option.or_none, habove] at hdone
    exact hdone
  · exact h.closed

/-- A node of the stack is found there. -/
theorem exists_findIdx? {stack : Array Entry} {child : Nat}
    (h : child ∈ stack.toList.map Entry.node) :
    ∃ start, stack.findIdx? (·.node == child) = some start ∧ start ≤ stack.size := by
  obtain ⟨e, he, rfl⟩ := List.mem_map.mp h
  have hsome : (stack.findIdx? (·.node == e.node)).isSome := by
    rw [Array.findIdx?_isSome, Array.any_eq_true']
    exact ⟨e, Array.mem_toList_iff.mp he, beq_self_eq_true _⟩
  obtain ⟨start, hstart⟩ := Option.isSome_iff_exists.mp hsome
  have hlt := Array.findIdx?_eq_some_iff_findIdx_eq.mp hstart
  exact ⟨start, hstart, by omega⟩

/-- On a sound walk a consumer in progress is found on the stack. -/
theorem closesOnStack_of_walk (h : Walk.Sound w (s.walk w)) : s.ClosesOnStack w := by
  intro below node offered child hstack hchild hmark
  obtain ⟨marks, stack⟩ := s
  obtain rfl : stack = below.push ⟨node, offered⟩ := hstack
  have hsound := sound_of_walk h
  have hon : marks[node]? = some .inProgress := (hsound.onStack node).mpr (by simp [Search.nodes])
  have hlt : node < w.size := h.size ▸ (Array.getElem?_eq_some_iff.mp hon).1
  -- The cursor has moved past the consumer by the time it is looked for; the nodes are the same.
  have hmem : child ∈ (below.push ⟨node, offered + 1⟩).toList.map Entry.node := by
    have hstands := (hsound.onStack child).mp hmark
    simpa [Search.nodes] using hstands
  obtain ⟨start, hstart, hle⟩ := exists_findIdx? hmem
  refine ⟨start, hstart, ?_⟩
  simp only [Search.step, Array.back?_push, Array.pop_push, read_consumers hlt, ok_bind, hchild,
    read_eq_ok_iff.mpr hmark, hstart, Option.getD_some, sliceFrom_of_le hle]
  rfl

end Walk

namespace Stage

variable {w : Wiring} {a b : Stage} {answer : Option (List Nat)}

/-- What every stage keeps: the roots that are left are nodes and the walk is sound. Before a root the
stack is empty. -/
inductive Kept (w : Wiring) : Stage → Prop where
  | between {roots : List Nat} {marks : Array Mark} (hroots : ∀ a ∈ roots, a < w.size)
      (h : Walk.Sound w ⟨marks, []⟩) : Kept w (between roots ⟨marks, #[]⟩)
  | within {roots : List Nat} {s : Search} (hroots : ∀ a ∈ roots, a < w.size)
      (h : Walk.Sound w (s.walk w)) : Kept w (within roots s)

/-- What every stage keeps holds at the start. -/
theorem kept_start {n : Nat} (hsize : w.size = n) : Kept w (start n) := by
  subst hsize
  exact .between (fun a ha => List.mem_range.mp ha) (Walk.sound_start w)

theorem next_within {roots : List Nat} {s : Search} {step : Search.Step}
    (h : Search.step w s = .ok step) : next w (within roots s) = .ok (after roots s step) := by
  rw [next, h, map_ok]

/-- One step keeps what every stage keeps. -/
theorem kept_of_goes (hw : w.InRange) (h : Kept w a) (hgoes : Goes w a b) : Kept w b := by
  cases h with
  | @between roots marks hroots h =>
    cases roots with
    | nil => cases hgoes
    | cons root roots =>
      obtain ⟨hroot, hrest⟩ := List.forall_mem_cons.mp hroots
      have hlt : root < marks.size := h.size.symm ▸ hroot
      have hmark := Array.getElem?_eq_getElem hlt
      rw [Goes, next, read_eq_ok_iff.mpr hmark, ok_bind] at hgoes
      cases hm : marks[root] with
      | unvisited =>
        rw [hm] at hmark
        simp only [hm, write_eq_ok_iff.mpr ⟨hlt, rfl⟩, ok_bind] at hgoes
        cases hgoes
        exact .within hrest (Walk.enter_sound h rfl hmark (by simp) trivial)
      | inProgress | done =>
        simp only [hm] at hgoes
        cases hgoes
        exact .between hrest h
  | @within roots s hroots h =>
    obtain ⟨step, hstep, hwalk⟩ := Search.step_eq hw h
    rw [Goes, next_within hstep] at hgoes
    cases step with
    | idle =>
      cases hgoes
      have hstack : s.stack = #[] := by
        simpa [Search.walk] using Walk.path_eq_nil_of_idle hwalk
      obtain ⟨marks, stack⟩ := s
      subst hstack
      exact .between hroots h
    | closed cycle => cases hgoes
    | moved t =>
      cases hgoes
      exact .within hroots (Walk.step_sound hw h hwalk)

/-- By induction it holds at every stage that is reached. -/
theorem Reached.kept {n : Nat} (hsize : w.size = n) (hw : w.InRange) (h : Reached n w a) :
    Kept w a := by
  induction h with
  | refl => exact kept_start hsize
  | tail _ hgoes ih => exact kept_of_goes hw ih hgoes

theorem Kept.walk (h : Kept w a) : Walk.Sound w (a.search.walk w) := by
  cases h with
  | between _ h => exact h
  | within _ h => exact h

theorem Kept.stack_eq {roots : List Nat} {s : Search} (h : Kept w (.between roots s)) :
    s.stack = #[] := by
  cases h
  rfl

theorem Answers.head (hab : Goes w a b) (h : Answers w b answer) : Answers w a answer := by
  obtain ⟨last, hlast, hanswer⟩ := h
  exact ⟨last, .head hab hlast, hanswer⟩

/-- A run that ends with an empty stack leads to the next root, and one that closes to the answer. -/
theorem stages_of_run (w : Wiring) (roots : List Nat) (s : Search) :
    (∀ t, Search.run w s = .ok (.ok t) → ReflTransGen (Goes w) (within roots s) (between roots t)) ∧
    ∀ cycle, Search.run w s = .ok (.error cycle) → Answers w (within roots s) (some cycle) := by
  fun_induction Search.run w s with
  | case1 s breach hs => simp
  | case2 s hs =>
    constructor
    · intro t ht
      cases ht
      exact .single (next_within hs)
    · simp
  | case3 s cycle hs =>
    constructor
    · simp
    · intro c hc
      cases hc
      exact ⟨_, .refl, next_within hs⟩
  | case4 s t hs ih =>
    have hgoes : Goes w (within roots s) (within roots t) := next_within hs
    constructor
    · intro u hu
      exact .head hgoes (ih.1 u hu)
    · intro c hc
      exact (ih.2 c hc).head hgoes

theorem answers_of_searchFrom {roots : List Nat} {s : Search}
    (h : searchFrom w roots s = .ok answer) : Answers w (between roots s) answer := by
  induction roots generalizing s with
  | nil =>
    cases h
    exact ⟨_, .refl, rfl⟩
  | cons root roots ih =>
    rw [searchFrom, bind_eq_ok_iff] at h
    obtain ⟨mark, hread, h⟩ := h
    cases mark with
    | unvisited =>
      simp only [bind_eq_ok_iff] at h
      obtain ⟨marks, hwrite, r, hrun, h⟩ := h
      have hgoes : Goes w (between (root :: roots) s)
          (within roots ⟨marks, s.stack.push ⟨root, 0⟩⟩) := by
        rw [Goes, next, hread, ok_bind]
        simp only [hwrite, ok_bind]
        rfl
      obtain ⟨hout, hclosed⟩ := stages_of_run w roots ⟨marks, s.stack.push ⟨root, 0⟩⟩
      cases r with
      | error cycle =>
        cases h
        exact (hclosed cycle hrun).head hgoes
      | ok t =>
        obtain ⟨last, hlast, hanswer⟩ := ih h
        exact ⟨last, .head hgoes ((hout t hrun).trans hlast), hanswer⟩
    | inProgress | done => exact (ih h).head (by rw [Goes, next, hread]; rfl)

/-- Nothing but one stage or the answer follows a stage, so every stage on the way leads to the answer. -/
theorem Answers.of_goes (h : Answers w a answer) (hab : ReflTransGen (Goes w) a b) :
    Answers w b answer := by
  obtain ⟨last, hlast, hanswer⟩ := h
  have hunique : Relator.RightUnique (Goes w) := by
    intro x y z hy hz
    rw [Goes, hy] at hz
    cases hz
    rfl
  rcases ReflTransGen.total_of_right_unique hunique hab hlast with hb | hb
  · exact ⟨last, hb, hanswer⟩
  · rcases ReflTransGen.cases_head hb with rfl | ⟨c, hgoes, -⟩
    · exact ⟨last, .refl, hanswer⟩
    · rw [Goes, hanswer] at hgoes
      cases hgoes

end Stage

/-- Every stage of a search is sound and closes on its stack only, its steps descend, and it leads to the
answer. -/
theorem stages_sound_and_answer (n : Nat) (connections : List Connection) :
    ∃ w, wiring n connections = .ok w ∧ cycle? n connections = .ok w.cycle? ∧
      ∀ stage : Stage, stage.Reached n w →
        stage.search.Sound w ∧ stage.search.ClosesOnStack w ∧ stage.search.Descends w ∧
        (∀ roots s, stage = .between roots s → s.stack = #[]) ∧ stage.Answers w w.cycle? := by
  have hwiring := wiring_eq n connections
  have hcycle := cycle?_eq n connections
  have hw := Wiring.inRange_ofConnections n connections
  have hsize : (Wiring.ofConnections n connections).size = n := Wiring.size_ofEdges _ _
  refine ⟨_, hwiring, hcycle, ?_⟩
  intro stage hreached
  have hkept := hreached.kept hsize hw
  refine ⟨sound_of_walk hkept.walk, closesOnStack_of_walk hkept.walk,
    fun t => Search.measure_step, ?_, ?_⟩
  · intro roots s hstage
    subst hstage
    exact hkept.stack_eq
  · rw [cycle?, hwiring, ok_bind] at hcycle
    exact (Stage.answers_of_searchFrom hcycle).of_goes hreached

/-- A node with two connections to a second one and one into a loop of two others. -/
def knot : List Connection :=
  [⟨⟨0⟩, ⟨4096⟩⟩, ⟨⟨0⟩, ⟨4096⟩⟩, ⟨⟨0⟩, ⟨8192⟩⟩, ⟨⟨8193⟩, ⟨12288⟩⟩, ⟨⟨12289⟩, ⟨8192⟩⟩]

/-- Both nodes of the loop are on the stack, and the second one is about to offer the first. -/
def knotted : Stage :=
  .within [1, 2, 3] ⟨#[.inProgress, .done, .inProgress, .inProgress], #[⟨0, 3⟩, ⟨2, 1⟩, ⟨3, 0⟩]⟩

theorem knotted_reached : knotted.Reached 4 (.ofConnections 4 knot) := by
  have hsteps : ReflTransGen (Stage.Goes (.ofConnections 4 knot)) (.start 4) knotted :=
    .head rfl (.head rfl (.head rfl (.head rfl (.head rfl (.single rfl)))))
  exact hsteps

theorem knotted_answers : ∃ w, wiring 4 knot = .ok w ∧ knotted.Reached 4 w ∧ knotted.search.Sound w ∧
    (∃ start, #[⟨0, 3⟩, ⟨2, 1⟩, ⟨3, 1⟩].findIdx? (fun e : Entry => e.node == 2) = some start) ∧
    knotted.Answers w (some [2, 3]) := by
  obtain ⟨w, hwiring, -, hstages⟩ := stages_sound_and_answer 4 knot
  obtain rfl : w = .ofConnections 4 knot := by
    rw [wiring_eq] at hwiring
    exact (Except.ok.inj hwiring).symm
  have hcycle : (Wiring.ofConnections 4 knot).cycle? = some [2, 3] := by cbv
  obtain ⟨hsound, hcloses, -, -, hanswers⟩ := hstages _ knotted_reached
  obtain ⟨start, hstart, -⟩ := hcloses #[⟨0, 3⟩, ⟨2, 1⟩] 3 0 2 rfl rfl rfl
  rw [hcycle] at hanswers
  exact ⟨_, hwiring, knotted_reached, hsound, ⟨start, hstart⟩, hanswers⟩

end ClipGraph.Guarded
