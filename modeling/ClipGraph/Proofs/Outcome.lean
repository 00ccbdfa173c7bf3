import ClipGraph.Proofs.Drafting
import ClipGraph.Proofs.Listing

/-!
# What a compilation comes to

Five outcomes, decided in a fixed order: no source, no output, a cycle, a node that nothing feeds, or
a script. Each is told by the nodes and connections alone, so a graph has exactly one of them, and no
graph that came out of a draft is refused for what a draft checks.
-/

namespace ClipGraph.Graph

open Relation (ReflTransGen TransGen)

def HasSource (g : Graph) : Prop := ∃ s, .source s ∈ g.nodes

def HasOutput (g : Graph) : Prop := ∃ o, .output o ∈ g.nodes

/-- The outcomes of a compilation with all that leads to each of them. -/
inductive Outcome (g : Graph) : Except CompileFault Script → Prop where
  | noSource (hs : ¬ g.HasSource) : Outcome g (.error .noSource)
  | noOutput (hs : g.HasSource) (ho : ¬ g.HasOutput) : Outcome g (.error .noOutput)
  /-- The cycle through the least node that lies on any, from that node on. -/
  | cycle (hs : g.HasSource) (ho : g.HasOutput) {nodes : List NodeId}
      (hc : g.IsLeastCycle nodes) (hf : ∀ a ∈ nodes, ∃ f, g.node? a = some (.filter f)) :
      Outcome g (.error (.cycle nodes))
  /-- The least node without a connection into its input. -/
  | danglingInput (hs : g.HasSource) (ho : g.HasOutput) (ha : g.Acyclic) {id : NodeId}
      (hu : g.Unfed id) (hl : ∀ a, g.Unfed a → id.index ≤ a.index) :
      Outcome g (.error (.danglingInput id))
  | ok (hs : g.HasSource) (ho : g.HasOutput) (ha : g.Acyclic) (hu : ∀ a, ¬ g.Unfed a)
      {p : Program} (hp : g.Spells g.order p) : Outcome g (.ok ⟨p, g.stats g.order⟩)

variable {g : Graph}

theorem any_isSource_iff : g.nodes.any Node.isSource = true ↔ g.HasSource := by
  rw [Array.any_eq_true', HasSource]
  constructor
  · rintro ⟨n, hn, hs⟩
    cases n with
    | source s => exact ⟨s, hn⟩
    | filter f => simp at hs
    | output o => simp at hs
  · rintro ⟨s, hs⟩
    exact ⟨_, hs, rfl⟩

theorem any_isOutput_iff : g.nodes.any Node.isOutput = true ↔ g.HasOutput := by
  rw [Array.any_eq_true', HasOutput]
  constructor
  · rintro ⟨n, hn, ho⟩
    cases n with
    | source s => simp at ho
    | filter f => simp at ho
    | output o => exact ⟨o, hn⟩
  · rintro ⟨o, ho⟩
    exact ⟨_, ho, rfl⟩

/-- Without a source nothing else is looked at. -/
theorem validate_noSource (hs : ¬ g.HasSource) : g.validate = .error .noSource := by
  rw [← any_isSource_iff, Bool.not_eq_true] at hs
  simp [validate, hs]

theorem validate_noOutput (hs : g.HasSource) (ho : ¬ g.HasOutput) :
    g.validate = .error .noOutput := by
  rw [← any_isSource_iff] at hs
  rw [← any_isOutput_iff, Bool.not_eq_true] at ho
  simp [validate, hs, ho]

theorem validate_of_ends (hs : g.HasSource) (ho : g.HasOutput) :
    g.validate = match g.cycle? with
      | some nodes => .error (.cycle nodes)
      | none => .ok () := by
  rw [← any_isSource_iff] at hs
  rw [← any_isOutput_iff] at ho
  simp only [validate, hs, ho]
  rfl

/-- A fault of validation is the fault of the compilation. -/
theorem compile_of_validate_error {fault : CompileFault} (h : g.validate = .error fault) :
    g.compile = .error fault := by
  simp only [compile, h]
  rfl

theorem compile_of_validate_ok (h : g.validate = .ok ()) :
    g.compile = (g.programFor g.order).map fun p => ⟨p, g.stats g.order⟩ := by
  simp only [compile, h]
  cases g.programFor g.order <;> rfl

theorem validate_of_compile_eq_ok {s : Script} (h : g.compile = .ok s) : g.validate = .ok () := by
  cases hvalidate : g.validate with
  | error fault =>
    rw [compile_of_validate_error hvalidate] at h
    cases h
  | ok _ => rfl

/-- A program is given by the statements that it spells. -/
theorem Spells.eq {order : List NodeId} {p q : Program} (hp : g.Spells order p)
    (hq : g.Spells order q) : p = q := by
  have hinj : Function.Injective (some : Statement → Option Statement) := Option.some_injective _
  have hbody := List.map_injective_iff.mpr hinj (hp.body.trans hq.body.symm)
  have hbind := List.map_injective_iff.mpr hinj (hp.bindings.trans hq.bindings.symm)
  cases p
  cases q
  simp_all

/-- Every graph has an outcome. -/
theorem Valid.outcome_compile (h : g.Valid) : g.Outcome g.compile := by
  by_cases hs : g.HasSource
  · by_cases ho : g.HasOutput
    · have hval := validate_of_ends hs ho
      cases hc : g.cycle? with
      | some nodes =>
        rw [hc] at hval
        rw [compile_of_validate_error hval]
        have hleast := h.isLeastCycle_of_cycle? hc
        exact .cycle hs ho hleast fun a ha => h.filter_of_isCycle hleast.1 ha
      | none =>
        rw [hc] at hval
        have ha := h.cycle?_eq_none_iff.mp hc
        rw [compile_of_validate_ok hval]
        rcases h.programFor_cases with ⟨id, herr, hu, hl⟩ | ⟨hu, p, hok, hp⟩
        · rw [herr]
          exact .danglingInput hs ho ha hu hl
        · rw [hok]
          exact .ok hs ho ha hu hp
    · rw [compile_of_validate_error (validate_noOutput hs ho)]
      exact .noOutput hs ho
  · rw [compile_of_validate_error (validate_noSource hs)]
    exact .noSource hs

/-- No graph has two outcomes. -/
theorem Valid.outcome_unique (h : g.Valid) {r r' : Except CompileFault Script}
    (hr : g.Outcome r) (hr' : g.Outcome r') : r = r' := by
  have hcyclic : ∀ {c}, g.IsLeastCycle c → ¬ g.Acyclic := by
    intro c hc ha
    have hnone := h.cycle?_eq_none_iff.mpr ha
    rw [h.cycle?_eq_some_iff.mpr hc] at hnone
    simp at hnone
  cases hr with
  | noSource hs => cases hr' <;> first | rfl | contradiction
  | noOutput hs ho => cases hr' <;> first | rfl | contradiction
  | cycle hs ho hc hf =>
    cases hr' with
    | noSource => contradiction
    | noOutput => contradiction
    | cycle _ _ hc' =>
      have heq := (h.cycle?_eq_some_iff.mpr hc).symm.trans (h.cycle?_eq_some_iff.mpr hc')
      rw [Option.some.inj heq]
    | danglingInput _ _ ha => exact absurd ha (hcyclic hc)
    | ok _ _ ha => exact absurd ha (hcyclic hc)
  | danglingInput hs ho ha hu hl =>
    cases hr' with
    | noSource => contradiction
    | noOutput => contradiction
    | cycle _ _ hc => exact absurd ha (hcyclic hc)
    | danglingInput _ _ _ hu' hl' =>
      have hle := hl _ hu'
      have hle' := hl' _ hu
      rw [NodeId.ext_index (Nat.le_antisymm hle hle')]
    | ok _ _ _ hnone => exact absurd hu (hnone _)
  | ok hs ho ha hnone hp =>
    cases hr' with
    | noSource => contradiction
    | noOutput => contradiction
    | cycle _ _ hc => exact absurd ha (hcyclic hc)
    | danglingInput _ _ _ hu => exact absurd hu (hnone _)
    | ok _ _ _ _ hq => rw [hp.eq hq]

/-- A script that came out spells out the order of a graph without cycles and without nodes that
nothing feeds. -/
theorem Valid.of_compile_eq_ok (h : g.Valid) {s : Script} (hs : g.compile = .ok s) :
    g.Acyclic ∧ (∀ a, ¬ g.Unfed a) ∧ g.Spells g.order s.program := by
  have hout := h.outcome_compile
  rw [hs] at hout
  cases hout with
  | ok _ _ ha hu hp => exact ⟨ha, hu, hp⟩

/-- The counts of a script are those of the order. -/
theorem Valid.stats_of_compile_eq_ok (h : g.Valid) {s : Script} (hs : g.compile = .ok s) :
    s.stats = g.stats g.order := by
  have hout := h.outcome_compile
  rw [hs] at hout
  cases hout with
  | ok => rfl

/-- A graph that came out of a draft compiles to its one outcome, which is never a fault that a draft
finds. -/
theorem compile_eq_iff_outcome (h : g.Built) :
    (∀ r, g.compile = r ↔ g.Outcome r) ∧
      ∀ fault, g.compile ≠ .error (.invalidGraph fault) := by
  constructor
  · intro r
    constructor
    · rintro rfl
      exact h.valid.outcome_compile
    · exact h.valid.outcome_unique h.valid.outcome_compile
  · intro fault hfault
    have hout := h.valid.outcome_compile
    rw [hfault] at hout
    cases hout

/-- Two filters that feed each other, beside a source that feeds an output. -/
def looped : Graph where
  nodes := #[.source ⟨.ofText "in.mkv", none⟩, .filter ⟨"Crop", "std", "Crop", []⟩,
    .filter ⟨"Flip", "std", "FlipVertical", []⟩, .output ⟨0⟩]
  connections := #[⟨⟨0⟩, ⟨12288⟩⟩, ⟨⟨8193⟩, ⟨4096⟩⟩, ⟨⟨4097⟩, ⟨8192⟩⟩]

theorem looped_outcome : looped.Built ∧ looped.Outcome (.error (.cycle [⟨1⟩, ⟨2⟩])) := by
  have hbuilt : looped.Built := Valid.built (by decide +kernel)
  have hcompile : looped.compile = .error (.cycle [⟨1⟩, ⟨2⟩]) := by cbv
  exact ⟨hbuilt, ((compile_eq_iff_outcome hbuilt).1 _).mp hcompile⟩

end ClipGraph.Graph
