import ClipGraph.Graph.Draft
import ClipGraph.Proofs.Ports

/-!
# Valid graphs

What the data model promises of a graph, said of its lists alone: room for every connector, readable
paths, proper names, one output a slot, connections from outputs to inputs and at most one connection
into each input. Nothing here mentions how a graph came about.
-/

namespace ClipGraph
namespace Identifier

def Letter (c : Char) : Prop := ('a' ≤ c ∧ c ≤ 'z') ∨ ('A' ≤ c ∧ c ≤ 'Z')

def Digit (c : Char) : Prop := '0' ≤ c ∧ c ≤ '9'

theorem isDigit_iff (c : Char) : c.isDigit = true ↔ Digit c := by
  simp only [Char.isDigit, Digit, Bool.and_eq_true, decide_eq_true_eq]
  exact Iff.rfl

theorem isAlpha_iff (c : Char) : c.isAlpha = true ↔ Letter c := by
  simp only [Char.isAlpha, Char.isUpper, Char.isLower, Letter, Bool.or_eq_true, Bool.and_eq_true,
    decide_eq_true_eq]
  exact or_comm

theorem isHead_iff (c : Char) : isHead c = true ↔ Letter c ∨ c = '_' := by
  simp [isHead, isAlpha_iff]

theorem isTail_iff (c : Char) : isTail c = true ↔ Letter c ∨ Digit c ∨ c = '_' := by
  simp [isTail, Char.isAlphanum, isAlpha_iff, isDigit_iff, or_assoc]

end Identifier

/-- A word of ASCII letters, digits and underscores that starts with no digit and is not reserved. -/
structure IsName (s : String) : Prop where
  word : ∃ c rest, s.toList = c :: rest ∧ (Identifier.Letter c ∨ c = '_') ∧
    ∀ d ∈ rest, Identifier.Letter d ∨ Identifier.Digit d ∨ d = '_'
  free : s ∉ Identifier.reservedWords

/-- The check of identifiers accepts the names and nothing else. -/
theorem isIdentifier_iff (s : String) : isIdentifier s = true ↔ IsName s := by
  have hword : Identifier.isWord s.toList = true ↔ ∃ c rest, s.toList = c :: rest ∧
      (Identifier.Letter c ∨ c = '_') ∧
      ∀ d ∈ rest, Identifier.Letter d ∨ Identifier.Digit d ∨ d = '_' := by
    cases hs : s.toList with
    | nil => simp [Identifier.isWord]
    | cons c rest =>
      simp only [Identifier.isWord, Bool.and_eq_true, List.all_eq_true, Identifier.isHead_iff,
        Identifier.isTail_iff, List.cons.injEq]
      constructor
      · rintro ⟨hc, hr⟩
        exact ⟨c, rest, ⟨rfl, rfl⟩, hc, hr⟩
      · rintro ⟨c', rest', ⟨rfl, rfl⟩, hc, hr⟩
        exact ⟨hc, hr⟩
  constructor
  · intro h
    simp only [isIdentifier, Bool.and_eq_true, Bool.not_eq_true'] at h
    exact ⟨hword.mp h.1, by simpa using h.2⟩
  · rintro ⟨hw, hf⟩
    simp [isIdentifier, hword.mpr hw, hf]

instance (s : String) : Decidable (IsName s) := decidable_of_iff _ (isIdentifier_iff s)

/-- A path is text just if it is the path of that text. -/
theorem FilePath.text?_eq_some_iff {p : FilePath} {t : String} :
    p.text? = some t ↔ p = .ofText t := by
  constructor
  · intro h
    simp only [text?, Utf8.decode?, String.fromUTF8?] at h
    split at h
    · simp only [Option.some.injEq] at h
      subst h
      cases p
      simp [ofText, Utf8.encode, String.fromUTF8]
    · simp at h
  · rintro rfl
    exact text?_ofText t

theorem FilePath.isSome_text?_iff {p : FilePath} : p.text?.isSome = true ↔ ∃ t, p = .ofText t := by
  simp only [Option.isSome_iff_exists, text?_eq_some_iff]

theorem FilePath.text?_eq_none_iff {p : FilePath} : p.text? = none ↔ ∀ t, p ≠ .ofText t := by
  simp only [Option.eq_none_iff_forall_ne_some, ne_eq, text?_eq_some_iff]

/-- Filters are called by names only, each argument once. -/
@[mk_iff]
structure FilterNode.Named (f : FilterNode) : Prop where
  plugin : IsName f.plugin
  function : IsName f.function
  arguments : ∀ a ∈ f.arguments, IsName a.name
  distinct : (f.arguments.map Argument.name).Nodup

instance (f : FilterNode) : Decidable f.Named := decidable_of_iff' _ f.named_iff

/-- What a node has to be by itself: paths are UTF-8 and filters are named properly. -/
def Node.Admissible : Node → Prop
  | .source s => ∃ t, s.path = .ofText t
  | .filter f => f.Named
  | .output _ => True

instance : DecidablePred Node.Admissible
  | .source _ => decidable_of_iff _ FilePath.isSome_text?_iff
  | .filter f => inferInstanceAs (Decidable f.Named)
  | .output _ => .isTrue trivial

def Node.slot? : Node → Option UInt32
  | .output o => some o.slot
  | _ => none

namespace Graph

def direction? (g : Graph) (c : Connector) : Option Direction :=
  (g.node? c.node).bind (·.direction? c.port)

/-- What the lists of a graph have to be. -/
@[mk_iff]
structure Valid (g : Graph) : Prop where
  room : g.nodes.size ≤ 1048576
  nodes : ∀ n ∈ g.nodes, n.Admissible
  slots : (g.nodes.toList.filterMap Node.slot?).Nodup
  ends : ∀ e ∈ g.connections,
    g.direction? e.source = some .output ∧ g.direction? e.target = some .input
  targets : (g.connections.toList.map Connection.target).Nodup

instance (g : Graph) : Decidable g.Valid := decidable_of_iff' _ g.valid_iff

/-- A connector has the direction of the port that it names, if its node has that port. -/
theorem direction?_eq_some_iff {g : Graph} {c : Connector} {d : Direction} :
    g.direction? c = some d ↔ ∃ n, g.node? c.node = some n ∧ n.connector? c.node d = some c := by
  simp [direction?, Option.bind_eq_some_iff, Node.connector?_eq_some_iff]

theorem lt_size_of_node? {g : Graph} {id : NodeId} {n : Node} (h : g.node? id = some n) :
    id.index < g.size := (Array.getElem?_eq_some_iff.mp h).1

theorem mem_of_node? {g : Graph} {id : NodeId} {n : Node} (h : g.node? id = some n) :
    n ∈ g.nodes := Array.mem_of_getElem? h

/-- With one connection an input, the first connection found is the only one. -/
theorem incoming?_eq_some_iff {g : Graph} (ht : (g.connections.toList.map Connection.target).Nodup)
    {t : Connector} {e : Connection} :
    g.incoming? t = some e ↔ e ∈ g.connections ∧ e.target = t := by
  constructor
  · intro h
    exact ⟨Array.mem_of_find?_eq_some h, by simpa using Array.find?_some h⟩
  · rintro ⟨he, rfl⟩
    cases hf : g.incoming? e.target with
    | none =>
      have hnone := Array.find?_eq_none.mp hf e he
      simp at hnone
    | some e' =>
      have he' : e' ∈ g.connections := Array.mem_of_find?_eq_some hf
      have ht' : e'.target = e.target := by simpa using Array.find?_some hf
      rw [List.inj_on_of_nodup_map ht (by simpa using he') (by simpa using he) ht']

/-- A clip that goes through one filter with a double. -/
def boosted (path : String) (gain : Binary64) : Graph where
  nodes := #[.source ⟨.ofText path, none⟩,
    .filter ⟨"Gain", "std", "Expr", [⟨"gain", .float gain⟩]⟩, .output ⟨0⟩]
  connections := #[⟨⟨0⟩, ⟨4096⟩⟩, ⟨⟨4097⟩, ⟨8192⟩⟩]

theorem boosted_valid (path : String) (gain : Binary64) : (boosted path gain).Valid where
  room := by simp [boosted]
  nodes := by
    have hplugin : IsName "std" := by decide
    have hfunction : IsName "Expr" := by decide
    have hname : IsName "gain" := by decide
    have hnamed : FilterNode.Named ⟨"Gain", "std", "Expr", [⟨"gain", .float gain⟩]⟩ :=
      ⟨hplugin, hfunction, List.forall_mem_singleton.mpr hname, List.nodup_singleton "gain"⟩
    simp [boosted, Node.Admissible, hnamed]
  slots := List.nodup_singleton 0
  ends := by
    intro e he
    simp only [boosted, List.mem_toArray, List.mem_cons, List.not_mem_nil, or_false] at he
    rcases he with rfl | rfl <;> exact ⟨rfl, rfl⟩
  targets := by simp [boosted]

end Graph
end ClipGraph
