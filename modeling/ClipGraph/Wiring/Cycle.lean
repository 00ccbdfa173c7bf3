import ClipGraph.Wiring

/-!
# The first cycle

A depth-first walk with three marks. The walk holds the path from its root to the node it stands on,
with the consumers each node on the path has still to offer. It starts from every unvisited node in
order and takes consumers in order, so the cycle it reports depends on nothing else. A step visits a
node, passes over a consumer or leaves a node: the number of unvisited nodes falls, or it stays and
the work left on the path falls.
-/

namespace ClipGraph.Wiring

inductive Mark where
  | unvisited
  | inProgress
  | done
  deriving DecidableEq, Repr

/-- A node on the path and the consumers it has still to offer. -/
structure Stop where
  node : Nat
  rest : List Nat
  deriving DecidableEq, Repr

/-- A walk under way. The path lists the innermost node first. -/
structure Walk where
  marks : Array Mark
  path : List Stop
  deriving DecidableEq, Repr

inductive Step where
  | idle
  | closed (cycle : List Nat)
  | moved (walk : Walk)
  deriving DecidableEq, Repr

namespace Walk

def enter (w : Wiring) (marks : Array Mark) (node : Nat) (above : List Stop) : Walk :=
  ⟨marks.setIfInBounds node .inProgress, ⟨node, w.next node⟩ :: above⟩

/-- The part of the path from `node` to where the walk stands. -/
def cycleFrom (path : List Stop) (node : Nat) : List Nat :=
  node :: ((path.map Stop.node).takeWhile (· ≠ node)).reverse

def step (w : Wiring) (s : Walk) : Step :=
  match s.path with
  | [] => .idle
  | ⟨node, []⟩ :: above => .moved ⟨s.marks.setIfInBounds node .done, above⟩
  | ⟨node, child :: rest⟩ :: above =>
    match s.marks[child]? with
    | some .unvisited => .moved (enter w s.marks child (⟨node, rest⟩ :: above))
    | some .inProgress => .closed (cycleFrom s.path child)
    | _ => .moved ⟨s.marks, ⟨node, rest⟩ :: above⟩

def unvisited (s : Walk) : Nat := s.marks.count .unvisited

/-- How much there is left to do on the path. -/
def pending (s : Walk) : Nat := s.path.foldr (fun stop n => stop.rest.length + 1 + n) 0

theorem count_set_le (marks : Array Mark) (node : Nat) {m : Mark} (h : m ≠ .unvisited) :
    (marks.setIfInBounds node m).count .unvisited ≤ marks.count .unvisited := by
  by_cases hn : node < marks.size
  · simp only [Array.setIfInBounds, hn, ↓reduceDIte, Array.count_set]
    split <;> simp_all
  · simp [Array.setIfInBounds, hn]

theorem count_set_lt (marks : Array Mark) {node : Nat} {m : Mark} (h : m ≠ .unvisited)
    (hu : marks[node]? = some .unvisited) :
    (marks.setIfInBounds node m).count .unvisited < marks.count .unvisited := by
  obtain ⟨hn, hm⟩ := Array.getElem?_eq_some_iff.1 hu
  have hpos : 0 < marks.count .unvisited := Array.count_pos_iff.2 (hm ▸ Array.getElem_mem hn)
  simp only [Array.setIfInBounds, hn, ↓reduceDIte, Array.count_set, hm]
  have : (m == Mark.unvisited) = false := by simpa using h
  simp only [this, Bool.false_eq_true, ↓reduceIte, BEq.rfl]
  omega

/-- Every step that moves leaves less to do. -/
theorem measure_step {w : Wiring} {s t : Walk} (h : step w s = .moved t) :
    Prod.Lex (· < ·) (· < ·) (t.unvisited, t.pending) (s.unvisited, s.pending) := by
  obtain ⟨marks, path⟩ := s
  rcases path with _ | ⟨⟨node, _ | ⟨child, rest⟩⟩, above⟩
  · simp [step] at h
  · simp only [step, Step.moved.injEq] at h
    subst h
    rcases Nat.lt_or_eq_of_le (count_set_le marks node (m := .done) (by decide)) with hlt | heq
    · exact .left _ _ hlt
    · simp only [unvisited, heq, pending]
      exact .right _ (by simp)
  · simp only [step] at h
    split at h
    · next hu =>
      simp only [Step.moved.injEq] at h
      subst h
      exact .left _ _ (count_set_lt marks (by decide) hu)
    · simp at h
    · simp only [Step.moved.injEq] at h
      subst h
      exact .right _ (by simp [pending])

/-- Walks until the path is empty, and answers the marks or the first cycle met. -/
def run (w : Wiring) (s : Walk) : Except (List Nat) (Array Mark) :=
  match _h : step w s with
  | .idle => .ok s.marks
  | .closed cycle => .error cycle
  | .moved t => run w t
termination_by (s.unvisited, s.pending)
decreasing_by exact measure_step _h

end Walk

def searchFrom (w : Wiring) : List Nat → Array Mark → Option (List Nat)
  | [], _ => none
  | root :: roots, marks =>
    if marks[root]? = some .unvisited then
      match Walk.run w (Walk.enter w marks root []) with
      | .error cycle => some cycle
      | .ok marks => searchFrom w roots marks
    else searchFrom w roots marks

/-- The first cycle, from the node where it closes along the edges. -/
def cycle? (w : Wiring) : Option (List Nat) :=
  searchFrom w (List.range w.size) (Array.replicate w.size .unvisited)

end ClipGraph.Wiring
