import ClipGraph.Project.Reader
import ClipGraph.Project.Writer
import ClipGraph.Proofs.JsonLayouts
import ClipGraph.Proofs.JsonReaders
import ClipGraph.Proofs.Valid

/-!
# Projects read back

A project that a file can hold is written as an object whose members stand in one order, and each of
its parts is read back from the tree of that object: a parameter with its kind, a node by the tag in
front of its fields, a hint that is left out as no hint. What the text of the object says is the project
with every double as its own text is read.
-/

namespace ClipGraph

open Json (whole Partial Reader)

/-- A value that can be written: a double has to be finite. -/
def Param.Storable : Param → Prop
  | .float x => x.isFinite = true
  | _ => True

/-- A node that can be written: a path has to be text, and a double finite. -/
def Node.Storable : Node → Prop
  | .source n => n.path.text?.isSome = true
  | .filter n => ∀ a ∈ n.arguments, a.value.Storable
  | .output _ => True

/-- A project that a project file can hold. -/
structure Project.Storable (p : Project) : Prop where
  version : p.version ≤ Project.currentVersion
  nodes : ∀ n ∈ p.nodes, n.Storable

theorem Json.fits_word (n : UInt32) : (Json.word n).Fits := by
  have hlt := n.toNat_lt
  exact ⟨by omega, by omega⟩

/-- The JSON of a value that can be written fits. -/
theorem Param.fits_toJson {v : Param} (hv : v.Storable) : v.toJson.Fits := by
  cases v with
  | bool b => trivial
  | int n =>
    have hlow := n.le_toInt
    have hhigh := n.toInt_lt
    exact ⟨hlow, by omega⟩
  | float x => exact hv
  | text s => trivial

theorem Argument.fits_toJson {a : Argument} (ha : a.value.Storable) : a.toJson.Fits :=
  ⟨trivial, Param.fits_toJson ha, trivial⟩

theorem Link.fits_toJson (l : Link) : l.toJson.Fits :=
  ⟨Json.fits_word l.producer.val, Json.fits_word l.consumer.val, trivial⟩

theorem Param.depth_toJson (v : Param) : v.toJson.depth = 0 := by cases v <;> rfl

theorem Argument.depth_toJson (a : Argument) : a.toJson.depth = 1 := by
  simp [Argument.toJson, Json.depth, Json.depthMembers, a.value.depth_toJson]

namespace Project

/-- The tree of a value is read back. -/
theorem readParam_toJson {v : Param} (hv : v.Storable) (depth : Nat) :
    readParam depth (whole v.toJson) = .ok v := by
  have hvalue : (whole v.toJson).value? depth = some v.toJson :=
    Json.value?_whole _ (Param.fits_toJson hv) (by rw [v.depth_toJson]; exact Nat.zero_le _)
  rw [readParam, hvalue]
  cases v with
  | bool b => rfl
  | int n =>
    have hlt : n.toInt < Nat.pow 2 63 := n.toInt_lt
    simp only [Param.toJson, if_pos hlt, Int64.ofInt_toInt]
  | float x => rfl
  | text s => rfl

theorem readArgument_toJson {a : Argument} (ha : a.value.Storable) (kept : Bool) (depth : Nat) :
    readArgument kept depth (whole a.toJson) = .ok a := by
  have hpair : Reader.pair kept "Parameter" "name" "value" Reader.text
      (readParam (depth - 1)) (whole a.toJson) = .ok (a.name, a.value) :=
    Reader.pair_object (by decide) rfl (readParam_toJson ha (depth - 1))
  rw [readArgument, hpair]
  rfl

theorem readArguments_toJson {arguments : List Argument} (h : ∀ a ∈ arguments, a.value.Storable)
    (depth : Nat) :
    readArguments depth (whole (.array (arguments.map Argument.toJson))) = .ok arguments := by
  refine Reader.listOf_whole ?_
  rw [List.forall₂_map_left_iff, List.forall₂_same]
  exact fun a ha => readArgument_toJson (h a ha) true (depth - 1)

def filterMembers (displayName plugin function : String) (parameters : Partial) :
    List (Option String × Partial) :=
  [(some "display_name", .string (some displayName)),
    (some "plugin_namespace", .string (some plugin)),
    (some "function_name", .string (some function)), (some "parameters", parameters)]

section Filter

variable {displayName plugin function : String} {parameters : Partial} {depth : Nat}

theorem splitTag_filter (hv : (parameters.value? depth).isNone = false) :
    splitTag depth none ((some "type", .string (some "filter")) ::
      filterMembers displayName plugin function parameters) =
      .ok (some .filter, filterMembers displayName plugin function parameters) := by
  have htag : readTag (.string (some "filter")) = .ok .filter := rfl
  simp [filterMembers, splitTag, htag, hv, Partial.value?, Reader.once]

/-- The fields of a filter come to what its parameters come to. -/
theorem readFilterFields_filter :
    readFilterFields depth (filterMembers displayName plugin function parameters) =
      (readArguments depth parameters).map (⟨displayName, plugin, function, ·⟩) := by
  cases ha : readArguments depth parameters <;>
    simp [filterMembers, readFilterFields, Reader.foldMembers, ha, Reader.text, Reader.textOr,
      Reader.once, Reader.require]

/-- A filter comes to what its parameters come to. -/
theorem readNode_filter (hv : (parameters.value? depth).isNone = false) :
    readNode (depth + 1) (.object ((some "type", .string (some "filter")) ::
      filterMembers displayName plugin function parameters)) =
      (readArguments depth parameters).map (.filter ⟨displayName, plugin, function, ·⟩) := by
  cases ha : readArguments depth parameters <;>
    simp [readNode, splitTag_filter hv, readFilterFields_filter, ha, Reader.require]

end Filter

/-- An output is read back if its slot is. -/
theorem readNode_output {v : Partial} {depth : Nat} {slot : UInt32}
    (hv : (v.value? depth).isNone = false) (hs : Reader.word v = .ok slot) :
    readNode (depth + 1) (.object [(some "type", .string (some "output")),
      (some "output_index", v)]) = .ok (.output ⟨slot⟩) := by
  have htag : readTag (.string (some "output")) = .ok .output := rfl
  simp [readNode, splitTag, htag, hv, readOutputFields, Reader.foldMembers, hs, Reader.once,
    Reader.require]

theorem depth_arguments (arguments : List Argument) :
    (Json.array (arguments.map Argument.toJson)).depth ≤ 2 := by
  refine Nat.succ_le_succ (Json.depthItems_le ?_)
  intro v hv
  obtain ⟨a, -, rfl⟩ := List.mem_map.mp hv
  exact Nat.le_of_eq a.depth_toJson

theorem fits_arguments {arguments : List Argument} (h : ∀ a ∈ arguments, a.value.Storable) :
    (Json.array (arguments.map Argument.toJson)).Fits := by
  refine Json.fitItems_iff.mpr ?_
  intro v hv
  obtain ⟨a, ha, rfl⟩ := List.mem_map.mp hv
  exact Argument.fits_toJson (h a ha)

/-- A node is read back from its object. -/
theorem readNode_toJson {n : Node} (hn : n.Storable) (depth : Nat) :
    ∃ j, n.toJson = .ok j ∧ j.Fits ∧ readNode (depth + 3) (whole j) = .ok n := by
  cases n with
  | source n =>
    obtain ⟨path, hint⟩ := n
    obtain ⟨text, htext⟩ := Option.isSome_iff_exists.mp hn
    have hpath : path = .ofText text := FilePath.text?_eq_some_iff.mp htext
    rw [hpath]
    cases hint with
    | none =>
      exact ⟨.object [("type", .string "source"), ("file_path", .string text)],
        by simp [Node.toJson], ⟨trivial, trivial, trivial⟩, rfl⟩
    | some hint =>
      exact ⟨.object [("type", .string "source"), ("file_path", .string text),
        ("source_plugin_hint", .string hint)],
        by simp [Node.toJson], ⟨trivial, trivial, trivial, trivial⟩, rfl⟩
  | filter n =>
    have hfits := fits_arguments hn
    have hvalue := Json.value?_whole _ hfits (Nat.le_trans (depth_arguments n.arguments)
      (Nat.le_add_left 2 depth))
    refine ⟨_, rfl, ⟨trivial, trivial, trivial, trivial, hfits, trivial⟩, ?_⟩
    refine (readNode_filter (by rw [hvalue]; rfl)).trans ?_
    rw [readArguments_toJson hn (depth + 2)]
    rfl
  | output n =>
    have hfits := Json.fits_word n.slot
    have hvalue := Json.value?_whole _ hfits (Nat.zero_le (depth + 2))
    refine ⟨_, rfl, ⟨trivial, hfits, trivial⟩, ?_⟩
    exact readNode_output (by rw [hvalue]; rfl) (Reader.word_toNat n.slot)

theorem readNodeId_toJson (id : NodeId) : readNodeId (whole id.toJson) = .ok id := by
  have hword : Reader.word (whole id.toJson) = .ok id.val := Reader.word_toNat id.val
  rw [readNodeId, hword]
  rfl

theorem readLink_toJson (l : Link) : readLink (whole l.toJson) = .ok l := by
  have hpair : Reader.pair false "ConnectionDef" "from" "to" readNodeId readNodeId
      (whole l.toJson) = .ok (l.producer, l.consumer) :=
    Reader.pair_object (by decide) (readNodeId_toJson l.producer) (readNodeId_toJson l.consumer)
  rw [readLink, hpair]
  rfl

/-- Nodes are read back from their trees. -/
theorem readNodes_toJson {nodes : List Node} (h : ∀ n ∈ nodes, n.Storable) :
    ∃ js, nodes.mapM Node.toJson = .ok js ∧ Json.FitItems js ∧
      readNodes (whole (.array js)) = .ok nodes := by
  have hback : ∃ js, List.Forall₂ (fun n j => n.toJson = .ok j) nodes js ∧ Json.FitItems js ∧
      List.Forall₂ (fun j n => readNode (Json.depthLimit - 2) (whole j) = .ok n) js nodes := by
    induction nodes with
    | nil => exact ⟨[], .nil, trivial, .nil⟩
    | cons n rest ih =>
      obtain ⟨hn, hrest⟩ := List.forall_mem_cons.mp h
      obtain ⟨j, hj, hfits, hread⟩ := readNode_toJson hn (Json.depthLimit - 5)
      obtain ⟨js, hjs, hfitsRest, hreadRest⟩ := ih hrest
      exact ⟨j :: js, .cons hj hjs, ⟨hfits, hfitsRest⟩, .cons hread hreadRest⟩
  obtain ⟨js, hjs, hfits, hread⟩ := hback
  exact ⟨js, mapM_eq_ok_iff.mpr hjs, hfits, Reader.listOf_whole hread⟩

theorem readLinks_toJson (links : List Link) :
    Json.FitItems (links.map Link.toJson) ∧
      Reader.listOf readLink (whole (.array (links.map Link.toJson))) = .ok links := by
  constructor
  · refine Json.fitItems_iff.mpr ?_
    intro v hv
    obtain ⟨l, -, rfl⟩ := List.mem_map.mp hv
    exact l.fits_toJson
  · refine Reader.listOf_whole ?_
    rw [List.forall₂_map_left_iff, List.forall₂_same]
    exact fun l _ => readLink_toJson l

/-- A project with a version, a name and links comes to what its nodes come to. -/
theorem reader_object {version : UInt32} {name : String} {links : List Link} {v w x : Partial}
    (hv : Reader.word v = .ok version) (hx : Reader.listOf readLink x = .ok links) :
    reader (.object [(some "version", v), (some "name", .string (some name)), (some "nodes", w),
      (some "connections", x)]) = (readNodes w).map (⟨version, name, ·, links⟩) := by
  cases hw : readNodes w <;>
    simp [reader, Reader.foldMembers, takeField, hv, hw, hx, Reader.text, Reader.textOr,
      Reader.once, ofFields]

/-- A project is read back from its object. -/
theorem reader_toJson {p : Project} (hp : ∀ n ∈ p.nodes, n.Storable) :
    ∃ j, p.toJson = .ok j ∧ j.Fits ∧ reader (whole j) = .ok p := by
  obtain ⟨js, hjs, hfits, hnodes⟩ := readNodes_toJson hp
  obtain ⟨hfitsLinks, hlinks⟩ := readLinks_toJson p.links
  let j : Json := .object [("version", .word p.version), ("name", .string p.name),
    ("nodes", .array js), ("connections", .array (p.links.map Link.toJson))]
  have hj : p.toJson = .ok j := by
    rw [toJson, hjs]
    rfl
  refine ⟨j, hj, ⟨Json.fits_word p.version, trivial, hfits, hfitsLinks, trivial⟩, ?_⟩
  refine (reader_object (Reader.word_toNat p.version) hlinks).trans ?_
  rw [hnodes]
  rfl

end Project

/-- A value with a double as its own text is read. -/
def Param.reread : Param → Param
  | .float x => .float (Json.reread x)
  | v => v

def Argument.reread (a : Argument) : Argument := { a with value := a.value.reread }

def Node.reread : Node → Node
  | .filter n => .filter { n with arguments := n.arguments.map Argument.reread }
  | n => n

def Project.reread (p : Project) : Project := { p with nodes := p.nodes.map Node.reread }

theorem Param.storable_reread {v : Param} (hv : v.Storable) : v.reread.Storable := by
  cases v with
  | float x => exact (Json.Token.reread_spec hv).1
  | _ => trivial

theorem Node.storable_reread {n : Node} (hn : n.Storable) : n.reread.Storable := by
  cases n with
  | filter n =>
    intro a ha
    obtain ⟨b, hb, rfl⟩ := List.mem_map.mp ha
    exact Param.storable_reread (hn b hb)
  | _ => exact hn

/-- The JSON of a value says the value as it is reread. -/
theorem Param.said_toJson {v : Param} (hv : v.Storable) : Json.said v.toJson = v.reread.toJson := by
  cases v with
  | float x => exact Json.said_float hv
  | _ => rfl

theorem Argument.said_toJson {a : Argument} (ha : a.value.Storable) :
    Json.said a.toJson = a.reread.toJson := by
  simp [Argument.toJson, Argument.reread, Json.said, Json.saidMembers, Param.said_toJson ha]

theorem Argument.saidItems_toJson {arguments : List Argument} (h : ∀ a ∈ arguments, a.value.Storable) :
    Json.saidItems (arguments.map toJson) = (arguments.map reread).map toJson := by
  rw [Json.saidItems_eq_map, List.map_map, List.map_map]
  exact List.map_congr_left fun a ha => said_toJson (h a ha)

theorem Link.saidItems_toJson (links : List Link) :
    Json.saidItems (links.map toJson) = links.map toJson := by
  rw [Json.saidItems_eq_map, List.map_map]
  exact List.map_congr_left fun _ _ => rfl

/-- The text of a node says the node with its doubles reread. -/
theorem Node.toJson_reread {n : Node} (hn : n.Storable) :
    ∃ j, n.toJson = .ok j ∧ n.reread.toJson = .ok (Json.said j) := by
  cases n with
  | source n =>
    obtain ⟨text, htext⟩ := Option.isSome_iff_exists.mp hn
    simp only [reread, toJson, htext]
    refine ⟨_, rfl, ?_⟩
    cases n.hint <;> rfl
  | filter n =>
    refine ⟨_, rfl, ?_⟩
    simp only [reread, toJson, Json.said, Json.saidMembers, Argument.saidItems_toJson hn]
  | output n => exact ⟨_, rfl, rfl⟩

theorem Node.mapM_toJson_reread {nodes : List Node} (h : ∀ n ∈ nodes, n.Storable) :
    ∃ js, nodes.mapM toJson = .ok js ∧ (nodes.map reread).mapM toJson = .ok (Json.saidItems js) := by
  induction nodes with
  | nil => exact ⟨[], rfl, rfl⟩
  | cons n rest ih =>
    obtain ⟨hn, hrest⟩ := List.forall_mem_cons.mp h
    obtain ⟨j, hj, hreread⟩ := toJson_reread hn
    obtain ⟨js, hjs, hrereads⟩ := ih hrest
    exact ⟨j :: js, by simp [hj, hjs], by simp [hreread, hrereads, Json.saidItems]⟩

namespace Project

/-- The text of a project says the project with its doubles reread. -/
theorem toJson_reread {p : Project} (hp : ∀ n ∈ p.nodes, n.Storable) :
    ∃ j, p.toJson = .ok j ∧ p.reread.toJson = .ok (Json.said j) := by
  obtain ⟨js, hjs, hreread⟩ := Node.mapM_toJson_reread hp
  refine ⟨.object [("version", .word p.version), ("name", .string p.name), ("nodes", .array js),
    ("connections", .array (p.links.map Link.toJson))], ?_, ?_⟩
  · rw [toJson, hjs]
    rfl
  · rw [toJson, reread, hreread]
    simp only [ok_bind, pure, Except.pure, Json.said, Json.saidMembers, Link.saidItems_toJson]
    rfl

/-- What the text of a project says is read as the project with its doubles reread. -/
theorem reader_said {p : Project} (hp : ∀ n ∈ p.nodes, n.Storable) :
    ∃ j, p.toJson = .ok j ∧ (Json.said j).Fits ∧ reader (whole (Json.said j)) = .ok p.reread := by
  obtain ⟨j, hj, hreread⟩ := toJson_reread hp
  have hnodes : ∀ n ∈ p.reread.nodes, n.Storable := by
    intro n hn
    obtain ⟨m, hm, rfl⟩ := List.mem_map.mp hn
    exact Node.storable_reread (hp m hm)
  obtain ⟨said, hsaid, hfits, hread⟩ := reader_toJson hnodes
  obtain rfl := Except.ok.inj (hreread.symm.trans hsaid)
  exact ⟨j, hj, hfits, hread⟩

end Project

/-- A value that its own text is read as: any that is no double, and many doubles. -/
def Param.ReadsBack : Param → Prop
  | .float x => Json.ReadsBack x
  | _ => True

def Node.ReadsBack : Node → Prop
  | .filter n => ∀ a ∈ n.arguments, a.value.ReadsBack
  | _ => True

def Project.ReadsBack (p : Project) : Prop := ∀ n ∈ p.nodes, n.ReadsBack

/-- A value is its own rereading just if its double reads back. -/
theorem Param.reread_eq_iff {v : Param} (hv : v.Storable) : v.reread = v ↔ v.ReadsBack := by
  cases v with
  | float x =>
    rw [ReadsBack, Json.Token.readsBack_iff, reread, Param.float.injEq, iff_and_self]
    exact fun _ => hv
  | _ => exact iff_of_true rfl trivial

theorem map_eq_self_iff {α : Type} {f : α → α} {l : List α} : l.map f = l ↔ ∀ a ∈ l, f a = a := by
  conv_lhs => rhs; rw [← List.map_id l]
  exact List.map_inj_left

theorem Argument.map_reread_eq_iff {arguments : List Argument} (h : ∀ a ∈ arguments, a.value.Storable) :
    arguments.map reread = arguments ↔ ∀ a ∈ arguments, a.value.ReadsBack := by
  rw [map_eq_self_iff]
  refine forall₂_congr fun a ha => ?_
  rw [← Param.reread_eq_iff (h a ha)]
  cases a
  simp [reread]

/-- A node is its own rereading just if the doubles of its arguments read back. -/
theorem Node.reread_eq_iff {n : Node} (hn : n.Storable) : n.reread = n ↔ n.ReadsBack := by
  cases n with
  | filter n =>
    rw [ReadsBack, ← Argument.map_reread_eq_iff hn]
    cases n
    simp [reread]
  | _ => exact iff_of_true rfl trivial

/-- A project is what its text says just if all its doubles are read back. -/
theorem Project.reread_eq_iff {p : Project} (hp : ∀ n ∈ p.nodes, n.Storable) :
    p.reread = p ↔ p.ReadsBack := by
  cases p
  rw [reread, Project.mk.injEq]
  simp only [true_and, and_true, map_eq_self_iff]
  exact forall₂_congr fun n hn => Node.reread_eq_iff (hp n hn)

end ClipGraph
