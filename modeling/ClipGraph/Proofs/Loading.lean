import ClipGraph.Proofs.Saves
import ClipGraph.Proofs.Storing

/-!
# Projects out of texts

A path that is read is text and a double that is read is finite, an integer too large for a signed
word included, which becomes a double. So whatever a text holds can be stored. What is stored is loaded
with its doubles reread, which is as it was if all of them are read back from their own texts.
-/

namespace ClipGraph

open Json (Partial Fault Reader)

namespace Json

/-- A tree that has a number for its value is that number. -/
theorem Partial.eq_of_value?_number {v : Partial} {depth : Nat} {n : Number}
    (h : v.value? depth = some (.number n)) :
    v = .number n ∧ ∀ x, n = .float x → x.isFinite = true := by
  unfold Partial.value? at h
  split at h
  case h_3 =>
    rw [Option.some.injEq, Json.number.injEq] at h
    subst h
    exact ⟨rfl, by simp⟩
  case h_4 x =>
    split at h
    · next hx =>
      rw [Option.some.injEq, Json.number.injEq] at h
      subst h
      refine ⟨rfl, ?_⟩
      rintro _ ⟨rfl⟩
      exact hx
    · cases h
  case h_6 =>
    split at h
    · cases h
    · simp at h
  case h_7 =>
    split at h
    · cases h
    · simp at h
  all_goals simp at h

/-- A tree that has some of the members of a tree that fits. -/
theorem Partial.Fits.subset {members others : List (Option String × Partial)}
    (h : (Partial.object members).Fits) (hs : others ⊆ members) : (Partial.object others).Fits := by
  intro n hn
  cases hn with
  | child hw hn =>
    obtain ⟨m, hm, rfl⟩ := List.mem_map.mp hw
    exact h n (.child (List.mem_map_of_mem (hs hm)) hn)

end Json

namespace Project

/-- A value that is read can be written. -/
theorem storable_of_readParam {v : Partial} {depth : Nat} {x : Param} (hv : v.Fits)
    (h : readParam depth v = .ok x) : x.Storable := by
  unfold readParam at h
  split at h
  · cases h
  · obtain rfl := Except.ok.inj h
    trivial
  · next n hvalue =>
    obtain ⟨rfl, -⟩ := Partial.eq_of_value?_number hvalue
    split at h
    · obtain rfl := Except.ok.inj h
      trivial
    · obtain rfl := Except.ok.inj h
      have hn : n < 2 ^ 64 := (hv n .number).2
      exact Decimal.isFinite_toBinary64 (by omega) false
  · next y hvalue =>
    obtain rfl := Except.ok.inj h
    exact (Partial.eq_of_value?_number hvalue).2 y rfl
  · obtain rfl := Except.ok.inj h
    trivial
  · cases h

theorem storable_of_readArgument {v : Partial} {kept : Bool} {depth : Nat} {a : Argument}
    (hv : v.Fits) (h : readArgument kept depth v = .ok a) : a.value.Storable := by
  simp only [readArgument, bind_eq_ok_iff, pure_eq_ok_iff, Prod.exists] at h
  obtain ⟨name, value, hpair, rfl⟩ := h
  obtain ⟨-, w, hw, hvalue⟩ := Reader.exists_of_pair hpair
  exact storable_of_readParam (hv.child hw) hvalue

theorem storable_of_readArguments {v : Partial} {depth : Nat} {arguments : List Argument}
    (hv : v.Fits) (h : readArguments depth v = .ok arguments) :
    ∀ a ∈ arguments, a.value.Storable := by
  intro a ha
  obtain ⟨w, hw, hread⟩ := Reader.exists_of_mem_listOf h ha
  exact storable_of_readArgument (hv.child hw) hread

theorem isSome_text?_of_readPath {v : Partial} {path : FilePath} (h : readPath v = .ok path) :
    path.text?.isSome = true := by
  obtain ⟨text, -, rfl⟩ := map_eq_ok_iff.mp h
  rw [FilePath.text?_ofText]
  rfl

def SourceFields.Storable (s : SourceFields) : Prop := ∀ path ∈ s.path, path.text?.isSome = true

theorem isSome_text?_of_readSourceFields {members : List (Option String × Partial)}
    {n : SourceNode} (h : readSourceFields members = .ok n) : n.path.text?.isSome = true := by
  simp only [readSourceFields, bind_eq_ok_iff, Reader.require_eq_ok_iff, pure_eq_ok_iff] at h
  obtain ⟨s, hfold, path, hpath, rfl⟩ := h
  have hs : s.Storable := by
    refine Reader.foldMembers_preserves ?_ (by simp [SourceFields.Storable]) hfold
    intro s key v s' _ hs htake
    split at htake
    · obtain ⟨path, hread, rfl⟩ := Reader.exists_of_once htake
      rintro _ ⟨rfl⟩
      exact isSome_text?_of_readPath hread
    split at htake
    · obtain ⟨_, -, rfl⟩ := Reader.exists_of_once htake
      exact hs
    · simp at htake
  exact hs path hpath

theorem isSome_text?_of_readSourceItems {items : List Partial} {n : SourceNode}
    (h : readSourceItems items = .ok n) : n.path.text?.isSome = true := by
  unfold readSourceItems at h
  split at h
  · cases h
  · simp only [bind_eq_ok_iff, pure_eq_ok_iff] at h
    obtain ⟨path, hread, rfl⟩ := h
    exact isSome_text?_of_readPath hread
  · simp only [bind_eq_ok_iff] at h
    obtain ⟨path, hread, _, -, h⟩ := h
    split at h
    · obtain rfl := Except.ok.inj h
      exact isSome_text?_of_readPath hread
    · cases h

def FilterFields.Storable (s : FilterFields) : Prop := ∀ a ∈ s.arguments.getD [], a.value.Storable

theorem storable_of_readFilterFields {members : List (Option String × Partial)} {depth : Nat}
    {n : FilterNode} (hv : (Partial.object members).Fits)
    (h : readFilterFields depth members = .ok n) : ∀ a ∈ n.arguments, a.value.Storable := by
  simp only [readFilterFields, bind_eq_ok_iff, pure_eq_ok_iff] at h
  obtain ⟨s, hfold, _, -, _, -, _, -, rfl⟩ := h
  have hs : s.Storable := by
    refine Reader.foldMembers_preserves ?_ (by simp [FilterFields.Storable]) hfold
    intro s key v s' hm hs htake
    split at htake
    · obtain ⟨_, -, rfl⟩ := Reader.exists_of_once htake
      exact hs
    split at htake
    · obtain ⟨_, -, rfl⟩ := Reader.exists_of_once htake
      exact hs
    split at htake
    · obtain ⟨_, -, rfl⟩ := Reader.exists_of_once htake
      exact hs
    split at htake
    · obtain ⟨arguments, hread, rfl⟩ := Reader.exists_of_once htake
      exact storable_of_readArguments (hv.member hm) hread
    · simp at htake
  exact hs

theorem storable_of_readFilterItems {items : List Partial} {depth : Nat} {n : FilterNode}
    (hv : ∀ v ∈ items, v.Fits) (h : readFilterItems depth items = .ok n) :
    ∀ a ∈ n.arguments, a.value.Storable := by
  unfold readFilterItems at h
  split at h
  · cases h
  · simp only [bind_eq_ok_iff] at h
    obtain ⟨_, -, h⟩ := h
    cases h
  · simp only [bind_eq_ok_iff] at h
    obtain ⟨_, -, _, -, h⟩ := h
    cases h
  · simp only [bind_eq_ok_iff, pure_eq_ok_iff] at h
    obtain ⟨_, -, _, -, _, -, rfl⟩ := h
    simp
  · simp only [bind_eq_ok_iff] at h
    obtain ⟨_, -, _, -, _, -, arguments, hread, h⟩ := h
    split at h
    · obtain rfl := Except.ok.inj h
      exact storable_of_readArguments (hv _ (by simp)) hread
    · cases h

/-- The members that are kept for the fields of a node are members of the node. -/
theorem subset_of_splitTag {depth : Nat} {kind kind' : Option NodeKind}
    {members others : List (Option String × Partial)}
    (h : splitTag depth kind members = .ok (kind', others)) : others ⊆ members := by
  induction members generalizing kind kind' others with
  | nil =>
    obtain ⟨-, rfl⟩ := Prod.mk.inj (Except.ok.inj h)
    exact List.Subset.refl _
  | cons m rest ih =>
    match m with
    | (none, v) => cases h
    | (some key, v) =>
      unfold splitTag at h
      split at h
      · obtain ⟨_, -, h⟩ := bind_eq_ok_iff.mp h
        exact List.subset_cons_of_subset _ (ih h)
      split at h
      · cases h
      · obtain ⟨⟨_, others'⟩, hrest, h⟩ := bind_eq_ok_iff.mp h
        obtain ⟨-, rfl⟩ := Prod.mk.inj (Except.ok.inj h)
        exact List.cons_subset_cons _ (ih hrest)

/-- A node that is made from the fields its kind calls for can be written if they can. -/
theorem storable_of_kind {kind : NodeKind} {source : Except Fault SourceNode}
    {filter : Except Fault FilterNode} {output : Except Fault OutputNode} {n : Node}
    (hs : ∀ s, source = .ok s → s.path.text?.isSome = true)
    (hf : ∀ f, filter = .ok f → ∀ a ∈ f.arguments, a.value.Storable)
    (h : (match kind with
      | .source => do return Node.source (← source)
      | .filter => do return Node.filter (← filter)
      | .output => do return Node.output (← output)) = .ok n) : n.Storable := by
  cases kind with
  | source =>
    obtain ⟨s, hsource, h⟩ := bind_eq_ok_iff.mp h
    obtain rfl := Except.ok.inj h
    exact hs s hsource
  | filter =>
    obtain ⟨f, hfilter, h⟩ := bind_eq_ok_iff.mp h
    obtain rfl := Except.ok.inj h
    exact hf f hfilter
  | output =>
    obtain ⟨o, -, h⟩ := bind_eq_ok_iff.mp h
    obtain rfl := Except.ok.inj h
    trivial

/-- A node that is read can be written. -/
theorem storable_of_readNode {v : Partial} {depth : Nat} {n : Node} (hv : v.Fits)
    (h : readNode depth v = .ok n) : n.Storable := by
  unfold readNode at h
  split at h
  · next members =>
    split at h
    · cases h
    obtain ⟨⟨_, others⟩, hsplit, h⟩ := bind_eq_ok_iff.mp h
    obtain ⟨kind, -, h⟩ := bind_eq_ok_iff.mp h
    have hothers : (Partial.object others).Fits := hv.subset (subset_of_splitTag hsplit)
    exact storable_of_kind (fun _ => isSome_text?_of_readSourceFields)
      (fun _ => storable_of_readFilterFields hothers) h
  · next items =>
    cases items with
    | nil =>
      dsimp only at h
      split at h <;> cases h
    | cons tag items =>
      dsimp only at h
      split at h
      · cases h
      obtain ⟨kind, -, h⟩ := bind_eq_ok_iff.mp h
      split at h
      · cases h
      have hitems : ∀ w ∈ items, w.Fits := fun w hw => hv.child (List.mem_cons_of_mem _ hw)
      exact storable_of_kind (fun _ => isSome_text?_of_readSourceItems)
        (fun _ => storable_of_readFilterItems hitems) h
  · exact absurd h Reader.mismatch_ne_ok

theorem storable_of_readNodes {v : Partial} {nodes : List Node} (hv : v.Fits)
    (h : readNodes v = .ok nodes) : ∀ n ∈ nodes, n.Storable := by
  intro n hn
  obtain ⟨w, hw, hread⟩ := Reader.exists_of_mem_listOf h hn
  exact storable_of_readNode (hv.child hw) hread

def Fields.Storable (s : Fields) : Prop := ∀ n ∈ s.nodes.getD [], n.Storable

theorem storable_of_takeField {s s' : Fields} {key : String} {v : Partial} (hv : v.Fits)
    (hs : s.Storable) (h : takeField s key v = .ok (some s')) : s'.Storable := by
  unfold takeField at h
  split at h
  · obtain ⟨_, -, rfl⟩ := Reader.exists_of_once h
    exact hs
  split at h
  · obtain ⟨_, -, rfl⟩ := Reader.exists_of_once h
    exact hs
  split at h
  · obtain ⟨nodes, hread, rfl⟩ := Reader.exists_of_once h
    exact storable_of_readNodes hv hread
  split at h
  · obtain ⟨_, -, rfl⟩ := Reader.exists_of_once h
    exact hs
  · cases h

/-- What the items of an array fill in can be written. -/
theorem storable_of_readItems {keys : List String} {items : List Partial} {s s' : Fields}
    (hv : ∀ v ∈ items, v.Fits) (hs : s.Storable) (h : readItems s keys items = .ok s') :
    s'.Storable := by
  induction items generalizing keys s with
  | nil =>
    have hss : s = s' := by simpa [readItems] using h
    exact hss ▸ hs
  | cons v rest ih =>
    obtain ⟨hv, hrest⟩ := List.forall_mem_cons.mp hv
    cases keys with
    | nil => cases h
    | cons key keys =>
      obtain ⟨next, htake, h⟩ := bind_eq_ok_iff.mp h
      cases next with
      | none => cases h
      | some next => exact ih hrest (storable_of_takeField hv hs htake) h

/-- The nodes of a project that is read can be written. -/
theorem storable_of_reader {v : Partial} {p : Project} (hv : v.Fits) (h : reader v = .ok p) :
    ∀ n ∈ p.nodes, n.Storable := by
  have hnone : Fields.Storable ⟨none, none, none, none⟩ := by simp [Fields.Storable]
  unfold reader at h
  split at h
  · next members =>
    obtain ⟨s, hfold, rfl⟩ := map_eq_ok_iff.mp h
    exact Reader.foldMembers_preserves
      (fun s key w s' hm hs htake => storable_of_takeField (hv.member hm) hs htake) hnone hfold
  · next items =>
    obtain ⟨s, hread, rfl⟩ := map_eq_ok_iff.mp h
    exact storable_of_readItems (fun w hw => hv.child hw) hnone hread
  · exact absurd h Reader.mismatch_ne_ok

/-- A text whose tree is read as a project holds that project. -/
theorem parse_of_ofText {text : String} {v : Partial} {p : Project}
    (htext : Json.Document.ofText text.toList = ⟨v, true⟩) (hread : reader v = .ok p)
    (hversion : p.version ≤ currentVersion) : parse text = .ok p := by
  have hdocument : Reader.document reader text = .ok p := by
    rw [Reader.document]
    simp only [htext, hread]
    rfl
  rw [parse, hdocument]
  exact if_pos hversion

/-- What a text holds can be stored. -/
theorem storable_of_parse {text : String} {p : Project} (h : parse text = .ok p) :
    p.Storable := by
  unfold parse at h
  split at h
  · cases h
  · next q hdocument =>
    split at h
    · next hversion =>
      obtain rfl := Except.ok.inj h
      refine ⟨hversion, ?_⟩
      obtain ⟨q, hread, h⟩ := bind_eq_ok_iff.mp hdocument
      split at h
      · obtain rfl := Except.ok.inj h
        exact storable_of_reader (Json.Document.fits_ofText _) hread
      · cases h
    · cases h

section Load

variable {path : FilePath} {t t' : FileTree} {text : String} {p : Project}

/-- A project is loaded from a file that holds its text. -/
theorem after_load_of_readBytes (hread : t.readBytes path = .ok (Utf8.encode text))
    (hparse : parse text = .ok p) : t.after (load path) = (.ok p, t) := by
  simp [FileTree.after, load, Disk.readText, hread, hparse]

/-- What is loaded is the project of a text that stands in the file. -/
theorem readBytes_of_after_load (h : t.after (load path) = (.ok p, t')) :
    ∃ text, t.readBytes path = .ok (Utf8.encode text) ∧ parse text = .ok p := by
  cases hread : t.readBytes path with
  | error cause => simp [FileTree.after, load, Disk.readText, hread] at h
  | ok bytes =>
    cases htext : Utf8.decode? bytes with
    | none => simp [FileTree.after, load, Disk.readText, hread, htext] at h
    | some text =>
      have hbytes : (⟨bytes⟩ : FilePath) = .ofText text := FilePath.text?_eq_some_iff.mp htext
      obtain rfl : bytes = Utf8.encode text := congrArg FilePath.bytes hbytes
      refine ⟨text, rfl, ?_⟩
      cases hparse : parse text with
      | error failure => simp [FileTree.after, load, Disk.readText, hread, hparse] at h
      | ok q =>
        rw [after_load_of_readBytes hread hparse] at h
        exact congrArg _ (Except.ok.inj (Prod.mk.inj h).1)

end Load

/-- A project that comes back from whatever it is written to: from its text on many lines, from its text
on one line, and from a file. It is saved in every tree that takes its text, and nothing but the disk
refuses it. -/
structure ComesBack (p : Project) : Prop where
  written : ∃ text, p.write = .ok text ∧ parse text = .ok p
  compact : ∃ j, p.toJson = .ok j ∧ parse (.ofList j.compact) = .ok p
  saved : ∀ (t t' : FileTree) (path : FilePath) (text : String), p.write = .ok text →
    (t.after (p.save path) = (.ok (), t') ↔ t.Admits path text t')
  loaded : ∀ (t t' : FileTree) (path : FilePath), t.after (p.save path) = (.ok (), t') →
    t'.after (load path) = (.ok p, t')
  refused : ∀ (t t' : FileTree) (path : FilePath) (failure : Failure),
    t.after (p.save path) = (.error failure, t') →
      (∃ cause, failure = .config (.noDirectory .project cause)) ∨
        ∃ cause, failure = .config (.unwritable .project path cause)

/-- What can be stored is written, and both texts are read as the project with its doubles reread. -/
theorem Storable.parse_write {p : Project} (hp : p.Storable) :
    (∃ text, p.write = .ok text ∧ parse text = .ok p.reread) ∧
      ∃ j, p.toJson = .ok j ∧ parse (.ofList j.compact) = .ok p.reread := by
  obtain ⟨j, hj, hfits, hread⟩ := reader_said hp.nodes
  have hwrite : p.write = .ok (.ofList (j.pretty 0)) := by
    rw [write, hj]
    rfl
  refine ⟨⟨_, hwrite, parse_of_ofText ?_ hread hp.version⟩, j, hj,
    parse_of_ofText ?_ hread hp.version⟩
  · rw [String.toList_ofList]
    exact Json.Document.ofText_pretty hfits 0
  · rw [String.toList_ofList]
    exact Json.Document.ofText_compact hfits

/-- A project that can be written and whose doubles read back comes back. -/
theorem Storable.comesBack {p : Project} (hp : p.Storable) (hreads : p.ReadsBack) : p.ComesBack := by
  obtain ⟨hwritten, hcompact⟩ := hp.parse_write
  rw [(reread_eq_iff hp.nodes).mpr hreads] at hwritten hcompact
  obtain ⟨text, hwrite, hparse⟩ := hwritten
  refine ⟨⟨text, hwrite, hparse⟩, hcompact, ?_, ?_, ?_⟩
  · exact fun t t' path text htext => after_save_eq_ok_iff htext
  · intro t t' path hsave
    exact after_load_of_readBytes ((after_save_eq_ok_iff hwrite).mp hsave).readBytes hparse
  · exact fun t t' path failure hsave => cause_of_save hwrite hsave

/-- A project that comes back can be written, and its doubles read back. -/
theorem ComesBack.readsBack {p : Project} (h : p.ComesBack) : p.Storable ∧ p.ReadsBack := by
  obtain ⟨text, hwrite, hparse⟩ := h.written
  have hp := storable_of_parse hparse
  obtain ⟨text', hwrite', hparse'⟩ := hp.parse_write.1
  obtain rfl := Except.ok.inj (hwrite.symm.trans hwrite')
  refine ⟨hp, (reread_eq_iff hp.nodes).mp ?_⟩
  exact Except.ok.inj (hparse'.symm.trans hparse)

/-- Just the projects of a known version whose paths are text and whose doubles are read back from their
own texts come back from what they are written to. Any project with finite doubles is written, and its
text is read as the project with its doubles reread. Every project out of a text is one of those. -/
theorem comesBack_iff_and_parse_write :
    (∀ p : Project, p.ComesBack ↔ p.Storable ∧ p.ReadsBack) ∧
    (∀ p : Project, p.Storable → ∃ text, p.write = .ok text ∧ parse text = .ok p.reread) ∧
    ∀ (text : String) (p : Project), parse text = .ok p →
      p.Storable ∧ (p.ReadsBack → p.ComesBack) := by
  refine ⟨fun p => ⟨ComesBack.readsBack, fun h => h.1.comesBack h.2⟩, fun p hp => hp.parse_write.1, ?_⟩
  intro text p hparse
  have hp := storable_of_parse hparse
  exact ⟨hp, hp.comesBack⟩

/-- A project whose texts and numbers are the ones that are easily taken for something else. -/
def lookalikes : Project where
  version := 0
  name := "a \"name\"\n\x00 \\ in \u65e5\u672c"
  nodes := [.source ⟨.ofText "in.mkv", some ""⟩, .source ⟨.ofText "", none⟩,
    .filter ⟨"", "std", "Crop", [⟨"b", .text "true"⟩, ⟨"b", .bool true⟩, ⟨"i", .int 1⟩,
      ⟨"f", .float ⟨0x3ff0000000000000⟩⟩, ⟨"z", .float ⟨0x8000000000000000⟩⟩,
      ⟨"least", .int (-9223372036854775808)⟩]⟩,
    .output ⟨4294967295⟩]
  links := [⟨⟨7⟩, ⟨7⟩⟩, ⟨⟨0⟩, ⟨2⟩⟩]

theorem lookalikes_storable : lookalikes.Storable where
  version := by decide
  nodes := by
    have hone : Binary64.isFinite ⟨0x3ff0000000000000⟩ = true := by decide
    have hzero : Binary64.isFinite ⟨0x8000000000000000⟩ = true := by decide
    simp [lookalikes, Node.Storable, Param.Storable, hone, hzero]

/-- The doubles of the project show few digits. -/
theorem lookalikes_readsBack : lookalikes.ReadsBack := by
  have hone : Json.ReadsBack ⟨0x3ff0000000000000⟩ := by
    let f : Figure := ⟨['1'], some ['0'], none⟩
    have hwhole : Text.IsWhole ['1'] := Text.isWhole_of_head (by simp) (by simp) (by simp)
    have hspells : f.Spells (Binary64.rank ⟨0x3ff0000000000000⟩) :=
      ⟨Figure.wellFormed_pointed hwhole (by simp) (by simp), .inl (by simp [f]), by decide +kernel⟩
    exact Json.Token.readsBack_of_spells (by decide) (by decide +kernel) hspells (by decide) (by decide)
  have hzero : Json.ReadsBack ⟨0x8000000000000000⟩ :=
    Json.Token.readsBack_of_spells (by decide) (by decide) FloatFormat.zero_spells (by decide) (by decide)
  simp [ReadsBack, lookalikes, Node.ReadsBack, Param.ReadsBack, hone, hzero]

/-- A project as arrays, with a parameter that is too large for a signed word. -/
def asArrays : Json :=
  .array [.number (.integer 0), .string "", .array [.array [.string "filter", .string "",
    .string "std", .string "Crop", .array [.array [.string "x",
      .number (.integer 9223372036854775808)]]]]]

theorem lookalikes_comesBack : lookalikes.Storable ∧ lookalikes.ReadsBack ∧ lookalikes.ComesBack ∧
    (∃ t', FileTree.shelf.after (lookalikes.save (.ofText "work/p.json")) = (.ok (), t') ∧
      t'.after (load (.ofText "work/p.json")) = (.ok lookalikes, t')) ∧
    ∃ p : Project, parse (.ofList asArrays.compact) = .ok p ∧ p.Storable := by
  have hback := (comesBack_iff_and_parse_write.1 lookalikes).mpr
    ⟨lookalikes_storable, lookalikes_readsBack⟩
  refine ⟨lookalikes_storable, lookalikes_readsBack, hback, ?_, ?_⟩
  · obtain ⟨text, hwrite, -⟩ := comesBack_iff_and_parse_write.2.1 _ lookalikes_storable
    have hparent : FileTree.shelf.HasParent (.ofText "work/p.json") :=
      FileTree.shelf_hasParent (by decide +kernel)
    have hfind : FileTree.shelf.find (.ofText "work/p.json") =
        .ok [Utf8.encode "work", Utf8.encode "p.json"] := by decide +kernel
    have hadmits := hparent.admits hfind (by decide +kernel) (by decide +kernel) (by decide +kernel) text
    have hsave := (hback.saved _ _ _ text hwrite).mpr hadmits
    exact ⟨_, hsave, hback.loaded _ _ _ hsave⟩
  · have hfits : (Json.said asArrays).Fits := by
      simp [asArrays, Json.said, Json.saidItems, Json.Fits, Json.FitItems, Json.Number.Fits]
    have htext : Json.Document.ofText (String.ofList asArrays.compact).toList =
        ⟨Json.whole (Json.said asArrays), true⟩ := by
      rw [String.toList_ofList]
      exact Json.Document.ofText_compact hfits
    let p : Project := ⟨0, "", [.filter ⟨"", "std", "Crop",
      [⟨"x", .float ⟨0x43e0000000000000⟩⟩]⟩], []⟩
    have hread : reader (Json.whole (Json.said asArrays)) = .ok p := by decide +kernel
    have hparse : parse (.ofList asArrays.compact) = .ok p :=
      parse_of_ofText htext hread (by decide)
    exact ⟨p, hparse, (comesBack_iff_and_parse_write.2.2 _ _ hparse).1⟩

end Project
end ClipGraph
