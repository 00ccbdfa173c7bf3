import ClipGraph.Project.Reader
import ClipGraph.Proofs.JsonRecords

/-!
# Nodes whatever their layout

Which names count in a node, and the records that a node is made of. A node is the one record whose
fields are known only from its tag. Its other members are put aside until then, so they have to be
values even if nobody asks for them.
-/

namespace ClipGraph.Project

open Json (Partial Fault Reader Form Slot Edit MemberEdit SameUpToEdits)

def argumentForm : Form := .record [("name", .plain), ("value", .plain)]

/-- The fields of a kind of node, next to its tag. -/
def nodeFields : NodeKind → List (String × Form)
  | .source => [("file_path", .plain), ("source_plugin_hint", .plain)]
  | .filter => [("display_name", .plain), ("plugin_namespace", .plain), ("function_name", .plain),
    ("parameters", .list argumentForm)]
  | .output => [("output_index", .plain)]

def nodeForm : Form :=
  .tagged "type" ([NodeKind.source, .filter, .output].map fun kind => (kind.tag, nodeFields kind))

section Values

variable {kept : Bool} {f : Form} {depth : Nat}

/-- A parameter value is no container, so no edit reaches it. -/
theorem ignores_readParam (limit : Nat) : (readParam limit).Ignores kept f depth := by
  refine Reader.ignores_of_no_container (fun ms => ?_) fun items => ?_
  · simp only [readParam, Partial.value?]
    cases hms : Partial.members? (limit - 1) ms <;> split <;> simp_all [Except.toOption]
  · simp only [readParam, Partial.value?]
    cases hitems : Partial.items? (limit - 1) items <;> split <;> simp_all [Except.toOption]

theorem ignores_readTag : readTag.Ignores kept f depth :=
  Reader.ignores_of_no_container (fun _ => rfl) fun _ => rfl

theorem ignores_readPath : readPath.Ignores kept f depth :=
  Reader.ignores_map (Reader.ignores_textOr _) _

theorem ignores_readArgument (whole : Bool) (limit : Nat) :
    (readArgument whole limit).Ignores kept argumentForm depth := by
  have hpair : (Reader.pair whole "Parameter" "name" "value" Reader.text
      (readParam (limit - 1))).Ignores kept argumentForm depth :=
    Reader.ignores_pair (by decide) (Reader.ignores_textOr _) (ignores_readParam _)
  intro v w h
  rw [readArgument, readArgument, toOption_bind, toOption_bind, hpair v w h]

theorem ignores_readArguments (limit : Nat) :
    (readArguments limit).Ignores kept (.list argumentForm) depth :=
  Reader.ignores_listOf (ignores_readArgument true _)

end Values

def sourceRecord : Json.Record SourceFields SourceNode where
  slots := [⟨"file_path", SourceFields.path, fun s path => { s with path }, readPath,
      fun _ _ => rfl⟩,
    ⟨"source_plugin_hint", SourceFields.hint, fun s hint => { s with hint }, Reader.textOrNull,
      fun _ _ => rfl⟩]
  empty := ⟨none, none⟩
  finish s := do return ⟨← Reader.require "file_path" s.path, s.hint.getD none⟩

def filterRecord (depth : Nat) : Json.Record FilterFields FilterNode where
  slots := [⟨"display_name", FilterFields.displayName, fun s displayName => { s with displayName },
      Reader.text, fun _ _ => rfl⟩,
    ⟨"plugin_namespace", FilterFields.plugin, fun s plugin => { s with plugin }, Reader.text,
      fun _ _ => rfl⟩,
    ⟨"function_name", FilterFields.function, fun s function => { s with function }, Reader.text,
      fun _ _ => rfl⟩,
    ⟨"parameters", FilterFields.arguments, fun s arguments => { s with arguments },
      readArguments depth, fun _ _ => rfl⟩]
  empty := ⟨none, none, none, none⟩
  finish s := do
    let displayName ← Reader.require "display_name" s.displayName
    let plugin ← Reader.require "plugin_namespace" s.plugin
    let function ← Reader.require "function_name" s.function
    return ⟨displayName, plugin, function, s.arguments.getD []⟩

def outputRecord : Json.Record (Option UInt32) OutputNode where
  slots := [⟨"output_index", id, fun _ slot => slot, Reader.word, fun _ _ => rfl⟩]
  empty := none
  finish slot := do return ⟨← Reader.require "output_index" slot⟩

/-- The tag of a node, as far as it has been found. -/
def tagRecord : Json.Record (Option NodeKind) NodeKind where
  slots := [⟨"type", id, fun _ kind => kind, readTag, fun _ _ => rfl⟩]
  empty := none
  finish := Reader.require "type"

variable {kept : Bool} {depth : Nat}

/-- The slots of a source are for fields of a source. -/
theorem suits_sourceRecord :
    sourceRecord.Suits kept (("type", .plain) :: nodeFields .source) depth where
  apart := by simp [sourceRecord, Slot.apart_iff]
  named := by simp [sourceRecord, nodeFields]
  ignores := List.forall_mem_cons.mpr
    ⟨ignores_readPath, List.forall_mem_singleton.mpr Reader.ignores_textOrNull⟩

/-- The slots of a filter are for fields of a filter. -/
theorem suits_filterRecord (limit : Nat) :
    (filterRecord limit).Suits kept (("type", .plain) :: nodeFields .filter) depth where
  apart := by simp [filterRecord, Slot.apart_iff]
  named := by simp [filterRecord, nodeFields]
  ignores := by
    simp only [filterRecord, List.forall_mem_cons]
    exact ⟨Reader.ignores_textOr _, Reader.ignores_textOr _, Reader.ignores_textOr _,
      ignores_readArguments limit, List.forall_mem_nil _⟩

/-- The slot of an output is for its field. -/
theorem suits_outputRecord :
    outputRecord.Suits kept (("type", .plain) :: nodeFields .output) depth where
  apart := List.pairwise_singleton _ _
  named := by simp [outputRecord, nodeFields]
  ignores := List.forall_mem_singleton.mpr Reader.ignores_word

theorem suits_tagRecord (fields : List (String × Form)) :
    tagRecord.Suits kept (("type", .plain) :: fields) depth where
  apart := List.pairwise_singleton _ _
  named := by simp [tagRecord]
  ignores := List.forall_mem_singleton.mpr ignores_readTag

theorem toOption_readSourceItems (items : List Partial) :
    (readSourceItems items).toOption = sourceRecord.ofItems items := by
  match items with
  | [] => rfl
  | [a] | [a, b] =>
    simp [readSourceItems, sourceRecord, Json.Record.ofItems, Slot.fillRow, Slot.fill,
      Option.map_eq_bind, Option.bind_assoc]
  | a :: b :: c :: rest =>
    simp [readSourceItems, sourceRecord, Json.Record.ofItems, Slot.fillRow]

theorem toOption_readFilterItems (limit : Nat) (items : List Partial) :
    (readFilterItems limit items).toOption = (filterRecord limit).ofItems items := by
  match items with
  | [] => rfl
  | [a] | [a, b] | [a, b, c] | [a, b, c, d] =>
    simp [readFilterItems, filterRecord, Json.Record.ofItems, Slot.fillRow, Slot.fill,
      Option.map_eq_bind, Option.bind_assoc]
  | a :: b :: c :: d :: e :: rest =>
    simp [readFilterItems, filterRecord, Json.Record.ofItems, Slot.fillRow]

theorem toOption_readOutputItems (items : List Partial) :
    (readOutputItems items).toOption = outputRecord.ofItems items := by
  match items with
  | [] => rfl
  | [a] =>
    simp [readOutputItems, outputRecord, Json.Record.ofItems, Slot.fillRow, Slot.fill,
      Option.map_eq_bind, Option.bind_assoc]
  | a :: b :: rest => simp [readOutputItems, outputRecord, Json.Record.ofItems, Slot.fillRow]

def tags (members : List (Option String × Partial)) : List (Option String × Partial) :=
  members.filter (·.1 = some "type")

/-- What is put aside while the tag of a node is looked for. -/
def besideTags (members : List (Option String × Partial)) : List (Option String × Partial) :=
  members.filter (·.1 ≠ some "type")

theorem foldMembers_tag (kind : Option NodeKind) (v : Partial)
    (rest : List (Option String × Partial)) :
    Reader.foldMembers (Slot.takeAny tagRecord.slots) kind ((some "type", v) :: rest) =
      Reader.once "type" kind (readTag v) >>= fun kind =>
        Reader.foldMembers (Slot.takeAny tagRecord.slots) kind rest := by
  have htake : Slot.takeAny tagRecord.slots kind "type" v =
      (Reader.once "type" kind (readTag v)).map some := rfl
  rw [Reader.foldMembers, htake]
  cases Reader.once "type" kind (readTag v) <;> rfl

/-- A node is split if there is at most one tag and what is put aside has a value. -/
theorem splitTag_eq_ok_iff {kind kind' : Option NodeKind}
    {members others : List (Option String × Partial)} :
    splitTag depth kind members = .ok (kind', others) ↔
      Reader.foldMembers (Slot.takeAny tagRecord.slots) kind (tags members) = .ok kind' ∧
      (∀ m ∈ besideTags members, m.1.isSome = true ∧ (m.2.value? depth).isSome = true) ∧
      besideTags members = others := by
  induction members generalizing kind kind' others with
  | nil => simp [splitTag, tags, besideTags, Reader.foldMembers]
  | cons m rest ih =>
    obtain ⟨_ | key, v⟩ := m
    · simp [splitTag, besideTags]
    · rw [splitTag]
      by_cases hkey : key = "type"
      · subst hkey
        have htags : tags ((some "type", v) :: rest) = (some "type", v) :: tags rest := rfl
        have hbeside : besideTags ((some "type", v) :: rest) = besideTags rest := rfl
        simp only [if_true, bind_eq_ok_iff, foldMembers_tag, ih, htags, hbeside, ← and_assoc,
          exists_and_right]
      · have htags : tags ((some key, v) :: rest) = tags rest := by simp [tags, hkey]
        have hbeside : besideTags ((some key, v) :: rest) = (some key, v) :: besideTags rest := by
          simp [besideTags, hkey]
        rw [if_neg hkey, htags, hbeside, List.forall_mem_cons]
        cases hv : v.value? depth with
        | none => simp
        | some j =>
          simp only [Option.isNone_some, Bool.false_eq_true, if_false, bind_eq_ok_iff,
            pure_eq_ok_iff, Prod.exists, ih, Prod.mk.injEq, Option.isSome_some, true_and]
          constructor
          · rintro ⟨_, _, ⟨hkind, hrest, rfl⟩, rfl, rfl⟩
            exact ⟨hkind, hrest, rfl⟩
          · rintro ⟨hkind, hrest, rfl⟩
            exact ⟨_, _, ⟨hkind, hrest, rfl⟩, rfl, rfl⟩

def readBody (depth : Nat) (kind : NodeKind) (members : List (Option String × Partial)) :
    Except Fault Node :=
  match kind with
  | .source => do return .source (← readSourceFields members)
  | .filter => do return .filter (← readFilterFields depth members)
  | .output => do return .output (← readOutputFields members)

def readRow (depth : Nat) (kind : NodeKind) (items : List Partial) : Except Fault Node :=
  match kind with
  | .source => do return .source (← readSourceItems items)
  | .filter => do return .filter (← readFilterItems depth items)
  | .output => do return .output (← readOutputItems items)

/-- A node is read from its tag and from what is put aside, which has to be kept. -/
theorem readNode_object_eq_ok_iff {members : List (Option String × Partial)} {n : Node} :
    readNode depth (.object members) = .ok n ↔
      ∃ kind, tagRecord.ofMembers (tags members) = .ok kind ∧
        ((Partial.object (besideTags members)).value? depth).isSome = true ∧
        readBody (depth - 1) kind (besideTags members) = .ok n := by
  have hread : readNode depth (.object members) =
      if depth = 0 then .error .malformed
      else splitTag (depth - 1) none members >>= fun parts =>
        Reader.require "type" parts.1 >>= fun kind => readBody (depth - 1) kind parts.2 := by
    rw [readNode]
    split <;> rfl
  rw [hread, Partial.isSome_value?_object_iff]
  by_cases h : depth = 0
  · simp [h]
  · rw [if_neg h]
    simp only [Json.Record.ofMembers, bind_eq_ok_iff, Prod.exists, splitTag_eq_ok_iff, ne_eq, h,
      not_false_iff, true_and]
    constructor
    · rintro ⟨found, _, ⟨hfound, hvalues, rfl⟩, kind, hkind, hbody⟩
      exact ⟨kind, ⟨found, hfound, hkind⟩, hvalues, hbody⟩
    · rintro ⟨kind, ⟨found, hfound, hkind⟩, hvalues, hbody⟩
      exact ⟨found, _, ⟨hfound, hvalues, rfl⟩, kind, hkind, hbody⟩

/-- An array is read as a node by its first item, and its other items have to be kept. -/
theorem readNode_array_eq_ok_iff {tag : Partial} {items : List Partial} {n : Node} :
    readNode depth (.array (tag :: items)) = .ok n ↔
      ∃ kind, readTag tag = .ok kind ∧ ((Partial.array items).value? depth).isSome = true ∧
        readRow (depth - 1) kind items = .ok n := by
  have hread : readNode depth (.array (tag :: items)) =
      if depth = 0 then .error .malformed
      else readTag tag >>= fun kind =>
        if items.any fun v => (v.value? (depth - 1)).isNone then .error .malformed
        else readRow (depth - 1) kind items := by
    rw [readNode]
    split
    · rfl
    · refine congrArg (readTag tag >>= ·) (funext fun kind => ?_)
      split <;> rfl
  rw [hread, Partial.isSome_value?_array_iff]
  by_cases h : depth = 0
  · simp [h]
  · have hvalues : (items.any fun v => (v.value? (depth - 1)).isNone) = false ↔
        ∀ v ∈ items, (v.value? (depth - 1)).isSome = true := by
      simp [List.any_eq_false, Option.isSome_iff_ne_none]
    rw [if_neg h, bind_eq_ok_iff]
    simp only [ne_eq, h, not_false_iff, true_and, ← hvalues]
    refine exists_congr fun kind => and_congr_right fun _ => ?_
    split <;> simp [*]

theorem eq_tag_of_lookup_kinds {tag : String} {kind : NodeKind} (h : kinds.lookup tag = some kind) :
    tag = kind.tag := by
  have hkinds : ∀ entry ∈ kinds, entry.1 = entry.2.tag := by decide
  obtain ⟨left, right, hsplit, -⟩ := List.lookup_eq_some_iff.mp h
  exact hkinds (tag, kind) (by simp [hsplit])

/-- Only the tag of a kind is read as that kind. -/
theorem eq_of_readTag {v : Partial} {kind : NodeKind} (h : readTag v = .ok kind) :
    v = .string (some kind.tag) := by
  obtain ⟨tag, htag, h⟩ := bind_eq_ok_iff.mp h
  have hv : v = .string (some tag) := by
    unfold Reader.textOr at htag
    split at htag
    · rw [Except.ok.inj htag]
    · exact absurd htag Reader.mismatch_ne_ok
  split at h
  · next kind' hlookup =>
    obtain rfl : kind' = kind := Except.ok.inj h
    rw [hv, eq_tag_of_lookup_kinds hlookup]
  · cases h

/-- A tag that is found stands in the first member of that name. -/
theorem readTag_of_ofMembers {v : Partial} {more : List (Option String × Partial)}
    {kind : NodeKind} (hmore : ∀ m ∈ more, m.1 = some "type")
    (h : tagRecord.ofMembers ((some "type", v) :: more) = .ok kind) : readTag v = .ok kind := by
  have hempty : tagRecord.empty = none := rfl
  rw [Json.Record.ofMembers, foldMembers_tag, hempty] at h
  obtain ⟨found, hfound, hkind⟩ := bind_eq_ok_iff.mp h
  obtain ⟨first, hfirst, hrest⟩ := bind_eq_ok_iff.mp hfound
  obtain ⟨kind', hread, rfl⟩ := map_eq_ok_iff.mp hfirst
  cases more with
  | nil =>
    obtain rfl : some kind' = found := Except.ok.inj hrest
    obtain rfl : kind' = kind := Except.ok.inj hkind
    exact hread
  | cons m more =>
    -- a second tag is refused
    obtain ⟨key, w⟩ := m
    obtain rfl : key = some "type" := hmore _ List.mem_cons_self
    rw [foldMembers_tag] at hrest
    cases hrest

/-- A node whose tag has been found has the fields of that kind. -/
theorem fields_nodeForm {members : List (Option String × Partial)} {kind : NodeKind}
    (h : tagRecord.ofMembers (tags members) = .ok kind) :
    nodeForm.fields members = ("type", .plain) :: nodeFields kind := by
  have hkeys : ∀ m ∈ tags members, m.1 = some "type" := fun m hm => by
    simpa [tags] using (List.mem_filter.mp hm).2
  have hfind : members.find? (·.1 = some "type") = (tags members).head? :=
    (List.head?_filter ..).symm
  rw [nodeForm, Form.fields, hfind]
  cases htags : tags members with
  | nil =>
    rw [htags] at h
    cases h
  | cons m more =>
    obtain ⟨key, v⟩ := m
    rw [htags] at h hkeys
    obtain ⟨rfl, hmore⟩ := List.forall_mem_cons.mp hkeys
    rw [List.head?_cons, Option.map_some, eq_of_readTag (readTag_of_ofMembers hmore h)]
    cases kind <;> rfl

/-- The fields of a node are read whatever their layout. -/
theorem toOption_readBody_eq (limit : Nat) {kind : NodeKind}
    {ms ns : List (Option String × Partial)}
    (h : MemberEdit kept (("type", .plain) :: nodeFields kind) depth ms ns) :
    (readBody limit kind ms).toOption = (readBody limit kind ns).toOption := by
  cases kind with
  | source =>
    have hfields : (readSourceFields ms).toOption = (readSourceFields ns).toOption :=
      suits_sourceRecord.ofMembers_eq h
    rw [readBody, readBody, toOption_bind, toOption_bind, hfields]
  | filter =>
    have hfields : (readFilterFields limit ms).toOption = (readFilterFields limit ns).toOption :=
      (suits_filterRecord limit).ofMembers_eq h
    rw [readBody, readBody, toOption_bind, toOption_bind, hfields]
  | output =>
    have hfields : (readOutputFields ms).toOption = (readOutputFields ns).toOption :=
      suits_outputRecord.ofMembers_eq h
    rw [readBody, readBody, toOption_bind, toOption_bind, hfields]

/-- So are those of a node that is an array. -/
theorem toOption_readRow_eq (limit : Nat) {kind : NodeKind} {before after : List Partial}
    {x y : Partial}
    (h : Edit kept (.named (("type", .plain) :: nodeFields kind)
      ((nodeFields kind)[before.length]?.map Prod.fst)) depth x y) :
    (readRow limit kind (before ++ x :: after)).toOption =
      (readRow limit kind (before ++ y :: after)).toOption := by
  cases kind with
  | source =>
    simp only [readRow, toOption_bind, toOption_readSourceItems,
      suits_sourceRecord.ofItems_eq rfl h]
  | filter =>
    simp only [readRow, toOption_bind, toOption_readFilterItems,
      (suits_filterRecord limit).ofItems_eq rfl h]
  | output =>
    simp only [readRow, toOption_bind, toOption_readOutputItems,
      suits_outputRecord.ofItems_eq rfl h]

theorem item_nodeForm {tag : Partial} {items : List Partial} {kind : NodeKind}
    (h : readTag tag = .ok kind) (i : Nat) :
    nodeForm.item (tag :: items) (i + 1) =
      .named (("type", .plain) :: nodeFields kind) ((nodeFields kind)[i]?.map Prod.fst) := by
  have hrow : nodeForm.row (tag :: items) = ("type", .plain) :: nodeFields kind := by
    rw [eq_of_readTag h]
    cases kind <;> rfl
  change Form.named (nodeForm.row (tag :: items)) _ = _
  rw [hrow, List.getElem?_cons_succ]

/-- The tags and what is put aside are read apart, and an edit of a node is one of each or none. -/
theorem toOption_readNode_object_eq {ms ns : List (Option String × Partial)}
    (h : MemberEdit true (nodeForm.fields ms) (depth - 1) ms ns) :
    (readNode depth (.object ms)).toOption = (readNode depth (.object ns)).toOption := by
  have htags : (tagRecord.ofMembers (tags ms)).toOption =
      (tagRecord.ofMembers (tags ns)).toOption := by
    rcases h.filter (· = some "type") with heq | htags
    · exact congrArg (fun ms => (tagRecord.ofMembers ms).toOption) heq
    · exact (suits_tagRecord _).ofMembers_eq htags
  ext n
  simp only [toOption_eq_some_iff, readNode_object_eq_ok_iff]
  refine exists_congr fun kind => ?_
  have htag : tagRecord.ofMembers (tags ms) = .ok kind ↔
      tagRecord.ofMembers (tags ns) = .ok kind := by
    rw [← toOption_eq_some_iff, htags, toOption_eq_some_iff]
  rw [← htag]
  refine and_congr_right fun hkind => ?_
  rw [fields_nodeForm hkind] at h
  rcases h.filter (· ≠ some "type") with heq | hbeside
  · have hbeside : besideTags ms = besideTags ns := heq
    rw [hbeside]
  · rw [besideTags, besideTags, hbeside.isSome_value?_iff, ← toOption_eq_some_iff,
      toOption_readBody_eq _ hbeside, toOption_eq_some_iff]

/-- A node is read whatever its layout. -/
theorem ignores_readNode : (readNode depth).Ignores kept nodeForm depth := by
  intro v w hvw
  obtain ⟨ms, ns, rfl, rfl, hedit⟩ | ⟨before, after, x, y, rfl, rfl, hedit⟩ := hvw.cases_container
  · exact toOption_readNode_object_eq hedit
  · ext n
    cases before with
    | nil =>
      -- a tag is a word, so neither of the two is one
      have htag := ignores_readTag x y hedit
      simp only [List.nil_append, toOption_eq_some_iff, readNode_array_eq_ok_iff]
      simp only [← toOption_eq_some_iff, htag]
    | cons tag before =>
      simp only [List.cons_append, toOption_eq_some_iff, readNode_array_eq_ok_iff]
      refine exists_congr fun kind => and_congr_right fun hkind => ?_
      rw [List.cons_append, List.length_cons, item_nodeForm hkind] at hedit
      have hvalues : Edit true (.list (.named (("type", .plain) :: nodeFields kind)
          ((nodeFields kind)[before.length]?.map Prod.fst))) depth
          (.array (before ++ x :: after)) (.array (before ++ y :: after)) := .item hedit
      rw [hvalues.isSome_value?_iff rfl, ← toOption_eq_some_iff, toOption_readRow_eq _ hedit,
        toOption_eq_some_iff]

end ClipGraph.Project
