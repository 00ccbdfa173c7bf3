import ClipGraph.Proofs.JsonWords
import ClipGraph.Proofs.Loading
import ClipGraph.Proofs.NodeLayouts

/-!
# Projects whatever the layout of their texts

Which names count in a project file. Blanks, the order of members and members of other names say
nothing about the project that a text holds. A node is kept whole before it is read, so inside a node
a member of another name still has to hold a value.
-/

namespace ClipGraph.Project

open Json (Partial Fault Reader Form Slot Edit SameUpToEdits)

def linkForm : Form := .record [("from", .plain), ("to", .plain)]

/-- The names that count in a project file. -/
def form : Form :=
  .record [("version", .plain), ("name", .plain), ("nodes", .list nodeForm),
    ("connections", .list linkForm)]

variable {kept : Bool} {f : Form} {depth : Nat}

theorem ignores_readNodeId : readNodeId.Ignores kept f depth := Reader.ignores_map Reader.ignores_word _

theorem ignores_readLink : readLink.Ignores kept linkForm depth := by
  have hpair : (Reader.pair false "ConnectionDef" "from" "to" readNodeId readNodeId).Ignores
      kept linkForm depth :=
    Reader.ignores_pair (by decide) ignores_readNodeId ignores_readNodeId
  intro v w h
  rw [readLink, readLink, toOption_bind, toOption_bind, hpair v w h]

def projectRecord : Json.Record Fields Project where
  slots := [⟨"version", Fields.version, fun s version => { s with version }, Reader.word,
      fun _ _ => rfl⟩,
    ⟨"name", Fields.name, fun s name => { s with name }, Reader.text, fun _ _ => rfl⟩,
    ⟨"nodes", Fields.nodes, fun s nodes => { s with nodes }, readNodes, fun _ _ => rfl⟩,
    ⟨"connections", Fields.links, fun s links => { s with links }, Reader.listOf readLink,
      fun _ _ => rfl⟩]
  empty := ⟨none, none, none, none⟩
  finish s := .ok (ofFields s)

/-- The slots of a project are for fields of its form, and each is read whatever the layout. -/
theorem suits_projectRecord :
    projectRecord.Suits kept [("version", .plain), ("name", .plain), ("nodes", .list nodeForm),
      ("connections", .list linkForm)] (Json.depthLimit - 1) where
  apart := by simp [projectRecord, Slot.apart_iff]
  named := by simp [projectRecord]
  ignores := by
    simp only [projectRecord, List.forall_mem_cons]
    exact ⟨Reader.ignores_word, Reader.ignores_textOr _, Reader.ignores_listOf ignores_readNode,
      Reader.ignores_listOf ignores_readLink, List.forall_mem_nil _⟩

theorem takeField_eq : takeField = Slot.takeAny projectRecord.slots := rfl

/-- The items of an array fill the slots that their keys stand for. -/
theorem toOption_readItems {slots : List (Slot Fields)}
    (hslots : ∀ k ∈ slots, Slot.find? projectRecord.slots k.name = some k) (s : Fields)
    (items : List Partial) :
    (readItems s (slots.map Slot.name) items).toOption = Slot.fillRow slots s items := by
  induction items generalizing slots s with
  | nil => cases slots <;> rfl
  | cons v rest ih =>
    cases slots with
    | nil => rfl
    | cons k slots =>
      obtain ⟨hk, hslots⟩ := List.forall_mem_cons.mp hslots
      rw [List.map_cons, readItems, toOption_bind, takeField_eq, Slot.toOption_takeAny, hk]
      simp only [Slot.fillRow, Option.bind_map, Function.comp_def, ih hslots]

/-- A project is read whatever its layout. -/
theorem ignores_reader : reader.Ignores kept form Json.depthLimit := by
  refine Reader.ignores_record suits_projectRecord rfl (fun members => ?_) fun items => ?_
  · have hfold : projectRecord.ofMembers members =
        Reader.foldMembers takeField ⟨none, none, none, none⟩ members >>= fun s =>
          .ok (ofFields s) := rfl
    rw [hfold, reader]
    cases Reader.foldMembers takeField ⟨none, none, none, none⟩ members <;> rfl
  · have hslots : ∀ k ∈ projectRecord.slots, Slot.find? projectRecord.slots k.name = some k := by
      simp [projectRecord, Slot.find?]
    have hitems : reader (.array items) =
        (readItems projectRecord.empty (projectRecord.slots.map Slot.name) items).map ofFields := rfl
    rw [hitems, toOption_map, toOption_readItems hslots, Json.Record.ofItems, Option.map_eq_bind]
    rfl

/-- What holds for one edit holds for any number of them, in either direction. -/
theorem toOption_reader_eq {v w : Partial} (h : SameUpToEdits form Json.depthLimit v w) :
    (reader v).toOption = (reader w).toOption := by
  induction h with
  | rel v w h => exact ignores_reader v w h
  | refl => rfl
  | symm _ _ _ ih => exact ih.symm
  | trans _ _ _ _ _ ih₁ ih₂ => exact ih₁.trans ih₂

/-- A text that is JSON holds the project that its tree is read as, unless that is of a newer
version. -/
theorem parse_eq_ok_iff {text : String} {v : Partial} (h : v.HasText text.toList) {p : Project} :
    parse text = .ok p ↔ reader v = .ok p ∧ p.version ≤ currentVersion := by
  have hdocument : Reader.document reader text = reader v := by
    rw [Reader.document, h.ofText_eq]
    exact bind_pure _
  rw [parse, hdocument]
  cases reader v with
  | error fault => simp
  | ok q =>
    dsimp only
    split
    · next hq =>
      simp only [Except.ok.injEq]
      constructor
      · rintro rfl
        exact ⟨rfl, hq⟩
      · exact And.left
    · next hq =>
      simp only [reduceCtorEq, Except.ok.injEq, false_iff, not_and]
      rintro rfl
      exact hq

/-- Two texts hold the same project if their trees are the same up to edits of the layout: the order
of members, and members whose names do not count. What blanks stand between the words says nothing
either. -/
theorem parse_eq_ok_iff_of_sameUpToEdits {t u : String} {v w : Partial} (ht : v.HasText t.toList)
    (hu : w.HasText u.toList) (h : SameUpToEdits form Json.depthLimit v w) (p : Project) :
    parse t = .ok p ↔ parse u = .ok p := by
  rw [parse_eq_ok_iff ht, parse_eq_ok_iff hu, ← toOption_eq_some_iff, toOption_reader_eq h,
    toOption_eq_some_iff]

/-- A project with one output, and what else is said inside the node and beside the nodes. -/
def outputAlone (inside beside : List (Option String × Partial)) : Partial :=
  .object ([(some "version", .number (.integer 1)), (some "name", .string (some "demo")),
    (some "nodes", .array [.object ([(some "type", .string (some "output")),
      (some "output_index", .number (.integer 0))] ++ inside)]),
    (some "connections", .array [])] ++ beside)

def tidy : String :=
  "\x7b\"version\":1,\"name\":\"demo\",\"nodes\":[\x7b\"type\":\"output\",\"output_index\":0\x7d]," ++
    "\"connections\":[]\x7d"

theorem hasText_tidy : (outputAlone [] []).HasText tidy.toList :=
  .of_tokens (by decide) (by decide +kernel)

theorem parse_tidy : parse tidy = .ok ⟨1, "demo", [.output ⟨0⟩], []⟩ :=
  (parse_eq_ok_iff hasText_tidy).mpr ⟨by decide +kernel, by decide⟩

/-- The same file after others have been at it: nothing stands in its order, the tag of the node
comes last, and there are members that nobody asked for. One of them is half of a surrogate pair. -/
def strewn : Partial :=
  .object [(some "author", .string none), (some "connections", .array []),
    (some "nodes", .array [.object [(some "output_index", .number (.integer 0)),
      (some "note", .array [.object []]), (some "type", .string (some "output"))]]),
    (some "name", .string (some "demo")), (some "version", .number (.integer 1))]

def strewnText : String :=
  "\x7b \"author\": \"\\ud800\", \"connections\": [ ],\n  \"nodes\": [\x7b\"output_index\": 0, " ++
    "\"note\": [\x7b\x7d], \"type\": \"output\"\x7d],\n  \"name\": \"demo\", \"version\": 1 \x7d\n"

theorem sameUpToEdits_tidy_strewn :
    SameUpToEdits form Json.depthLimit (outputAlone [] []) strewn := by
  let version : Option String × Partial := (some "version", .number (.integer 1))
  let name : Option String × Partial := (some "name", .string (some "demo"))
  let links : Option String × Partial := (some "connections", .array [])
  let tag : Option String × Partial := (some "type", .string (some "output"))
  let slot : Option String × Partial := (some "output_index", .number (.integer 0))
  let note : Partial := .array [.object []]
  let nodes (members : List (Option String × Partial)) : Option String × Partial :=
    (some "nodes", .array [.object members])
  have hnodes : ∀ {ms ns}, Edit false nodeForm 125 (.object ms) (.object ns) →
      Edit false form Json.depthLimit (.object [version, name, nodes ms, links])
        (.object [version, name, nodes ns, links]) := fun h =>
    @Edit.member false form Json.depthLimit [version, name] [links] _ _ _
      (@Edit.item false (.list nodeForm) 126 [] [] _ _ h)
  have hswap := hnodes (@Edit.swap false nodeForm 125 [] [] tag slot)
  have hnote := hnodes (@Edit.extra false nodeForm 125 [slot] [tag] "note" note (by decide)
    (by decide) fun _ => by decide)
  have horder : SameUpToEdits form Json.depthLimit
      (.object [version, name, nodes [slot, (some "note", note), tag], links])
      (.object [links, nodes [slot, (some "note", note), tag], name, version]) :=
    Json.sameUpToEdits_of_perm (List.reverse_perm _).symm
  have hauthor := @Edit.extra false form Json.depthLimit []
    [links, nodes [slot, (some "note", note), tag], name, version] "author" (.string none)
    (by decide) (by decide) (by decide)
  exact .trans _ _ _ (.trans _ _ _ (.trans _ _ _ (.rel _ _ hswap) (.rel _ _ hnote)) horder)
    (.rel _ _ hauthor)

/-- Both texts hold the same project, though the second also says something that is no text. -/
theorem strewn_parse :
    (outputAlone [] []).HasText tidy.toList ∧ strewn.HasText strewnText.toList ∧
      SameUpToEdits form Json.depthLimit (outputAlone [] []) strewn ∧
      parse tidy = .ok ⟨1, "demo", [.output ⟨0⟩], []⟩ ∧
      parse strewnText = .ok ⟨1, "demo", [.output ⟨0⟩], []⟩ := by
  have hstrewn : strewn.HasText strewnText.toList := .of_tokens (by decide) (by decide +kernel)
  exact ⟨hasText_tidy, hstrewn, sameUpToEdits_tidy_strewn, parse_tidy,
    (parse_eq_ok_iff_of_sameUpToEdits hasText_tidy hstrewn sameUpToEdits_tidy_strewn _).mp parse_tidy⟩

def notedText : String :=
  "\x7b\"version\":1,\"name\":\"demo\",\"nodes\":[\x7b\"type\":\"output\",\"output_index\":0," ++
    "\"note\":\"\\ud800\"\x7d],\"connections\":[]\x7d"

def misnamedText : String :=
  "\x7b\"version\":1,\"name\":\"demo\",\"nodes\":[\x7b\"type\":\"output\",\"output_index\":0\x7d]," ++
    "\"connections\":[],\"\\ud800\":0\x7d"

/-- Half of a surrogate pair is JSON, but no value that can be kept and no name. As the value of a
name that does not count it makes a project unreadable inside a node, and as a name anywhere. -/
theorem noted_and_misnamed_refused :
    (outputAlone [] []).HasText tidy.toList ∧
      (outputAlone [(some "note", .string none)] []).HasText notedText.toList ∧
      (outputAlone [] [(none, .number (.integer 0))]).HasText misnamedText.toList ∧
      (∀ kind, "note" ∉ "type" :: (nodeFields kind).map Prod.fst) ∧
      parse tidy = .ok ⟨1, "demo", [.output ⟨0⟩], []⟩ ∧
      parse notedText = .error (.document (.json .malformed)) ∧
      parse misnamedText = .error (.document (.json .malformed)) :=
  ⟨hasText_tidy, .of_tokens (by decide) (by decide +kernel), .of_tokens (by decide) (by decide +kernel),
    fun kind => by cases kind <;> decide, parse_tidy, by decide +kernel, by decide +kernel⟩

end ClipGraph.Project
