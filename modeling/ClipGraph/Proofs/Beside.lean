import ClipGraph.Proofs.Paths
import ClipGraph.Proofs.Runs

/-!
# Scripts beside their projects

A script that is written beside its project goes to the path of the project with the extension of the
settings. That is the project itself just if it has this extension already, and no setting is refused
for that. Then a run that may overwrite its target puts the script in the place of the project it was
made from. In any other case the project is what it was.
-/

namespace ClipGraph

namespace Utf8

theorem encode_eq_flatMap (s : String) : encode s = s.toList.flatMap String.utf8EncodeChar := by
  obtain ⟨cs, rfl⟩ : ∃ cs, s = .ofList cs := ⟨s.toList, String.ofList_toList.symm⟩
  rw [String.toList_ofList, encode]
  simp [String.toUTF8, List.utf8Encode]

/-- A byte of ASCII in a text is a character of it. -/
theorem mem_of_mem_encode {s : String} {c : Char} (hc : c.toNat < 0x80)
    (h : UInt8.ofNat c.toNat ∈ encode s) : c ∈ s.toList := by
  rw [encode_eq_flatMap, List.mem_flatMap] at h
  obtain ⟨d, hd, hmem⟩ := h
  have hbytes := List.mem_map_of_mem (f := UInt8.toNat) hmem
  simp only [String.utf8EncodeChar, Char.toNat_val] at hbytes
  have hcd : c.toNat = d.toNat := by
    split_ifs at hbytes <;>
      simp only [List.map_cons, List.map_nil, List.mem_cons, List.not_mem_nil, or_false,
        UInt8.toNat_ofNat'] at hbytes <;>
      omega
  rwa [Char.toNat_inj.mp hcd]

end Utf8

/-- No JSON starts as a script does. -/
theorem Json.Token.ofText_letter (rest : List Char) : ofText ('i' :: rest) = [.bad] := by
  have hread : read? ('i' :: rest) = none := rfl
  rw [ofText, if_neg (by decide)]
  split
  · rfl
  · simp_all

/-- No script is a project: it starts with a word that is no JSON. -/
theorem Script.parse_text_ne_ok (s : Script) (p : Project) : Project.parse s.text ≠ .ok p := by
  obtain ⟨rest, htext⟩ : ∃ rest, s.text.toList = 'i' :: rest := by
    rw [text, String.toList_ofList]
    exact ⟨_, rfl⟩
  have hdocument : Json.Reader.document Project.reader s.text = .error .malformed := by
    rw [Json.Reader.document, Json.Document.ofText, htext, Json.Token.ofText_letter]
    rfl
  rw [Project.parse, hdocument]
  exact fun h => by cases h

namespace FilePath

/-- Of the paths that need not name a directory only the dot itself ends in one. -/
theorem eq_dot_of_endsInDot {path : FilePath} (hnames : path.namesDirectory = false)
    (hdot : path.endsInDot = true) : path.bytes = [dot] := by
  have htrimmed : trimmedRev path.bytes.reverse = path.bytes.reverse := by
    rw [namesDirectory, bne_eq_false_iff_eq, trimmed] at hnames
    simpa using congrArg List.reverse hnames
  rw [endsInDot, beq_iff_eq, lastPiece, List.reverse_reverse] at hdot
  cases hbytes : path.bytes.reverse with
  | nil => simp [hbytes] at hdot
  | cons b rest =>
    have hkept : trimmedRev (b :: rest) ≠ trimmedRev rest := by
      intro h
      have hle := (trimmedRev_suffix rest).length_le
      rw [← h, ← hbytes, htrimmed, hbytes, List.length_cons] at hle
      omega
    rw [trimmedRev] at hkept
    have hb : b ≠ slash := fun h => hkept (if_pos h)
    rw [if_neg hb] at hkept
    rw [hbytes, List.dropWhile_cons_of_neg (by simpa using hb), List.takeWhile_cons_of_pos
      (by simpa using hb), List.reverse_cons] at hdot
    have hrest : rest.takeWhile (· ≠ slash) = [] ∧ b = dot := by
      have hsplit := hdot.trans (List.nil_append [dot]).symm
      simpa using List.append_inj' hsplit rfl
    cases rest with
    | nil => simpa [hrest.2] using congrArg List.reverse hbytes
    | cons c more =>
      have hc : c = slash := by simpa using hrest.1
      exact absurd (if_pos ⟨hrest.2, by rw [hc]; rfl⟩) hkept

end FilePath

namespace FileTree

variable {t : FileTree} {path : FilePath} {place above : Location}

/-- The last part leads on from the place of the directory. -/
theorem exists_step_of_find {directory piece : List UInt8} {part : FilePath.Part}
    (hd : FilePath.IsDirectory directory) (hp : FilePath.slash ∉ piece)
    (hpart : FilePath.partOf piece = some part) (h : t.find ⟨directory ++ piece⟩ = .ok place) :
    ∃ above, (FilePath.parts ⟨directory⟩).foldlM t.step t.home = .ok above ∧
      t.step above part = .ok place := by
  have hdot : piece ≠ [FilePath.dot] := by
    rintro rfl
    cases hpart
  have hsteps := (find_eq_ok_iff.mp h).2
  rw [FilePath.parts_append hd hp hdot, hpart, Option.toList_some, List.foldlM_append,
    bind_eq_ok_iff] at hsteps
  simpa only [List.foldlM_cons, List.foldlM_nil, bind_pure] using hsteps

/-- A file that is read can be written. -/
theorem exists_of_readBytes {old : List UInt8} (h : t.readBytes path = .ok old)
    (bytes : List UInt8) : ∃ t', t.writeBytes path bytes = .ok t' := by
  obtain ⟨place, hfind, hat, hnames⟩ := contentAt_eq_ok_iff.mp (readBytes_eq_ok_iff.mp h)
  have hnames : path.namesDirectory = false := hnames.resolve_left (by simp)
  have hdot : path.endsInDot = false := by
    by_contra hends
    have hpath := FilePath.eq_dot_of_endsInDot hnames (by simpa using hends)
    have hparts : path.parts = [.current] := by
      rw [FilePath.parts, FilePath.isAbsolute, hpath]
      decide
    have hstep := (find_eq_ok_iff.mp hfind).2
    simp only [hparts, List.foldlM_cons, List.foldlM_nil, bind_pure] at hstep
    obtain ⟨hhome, rfl⟩ := step_eq_ok_iff.mp hstep
    simp [hhome] at hat
  exact ⟨_, writeBytes_eq_ok_iff.mpr ⟨place, hfind, by simp [hat], hdot, hnames, rfl⟩⟩

/-- Two names in a directory lead to two places, and so do a name in it and the directory above. -/
theorem find_ne_of_ne {directory name other : List UInt8} (hd : FilePath.IsDirectory directory)
    (hn : FilePath.IsFileName name)
    (ho : other = [FilePath.dot, FilePath.dot] ∨ FilePath.IsFileName other) (hne : other ≠ name)
    (h : t.find ⟨directory ++ name⟩ = .ok place) : t.find ⟨directory ++ other⟩ ≠ .ok place := by
  intro hother
  obtain ⟨above, habove, hstep⟩ := exists_step_of_find hd hn.slash hn.partOf h
  obtain ⟨-, -, rfl⟩ := step_eq_ok_iff.mp hstep
  rcases ho with rfl | ho
  · obtain ⟨above', habove', hstep'⟩ := exists_step_of_find hd (by decide) rfl hother
    rw [habove] at habove'
    obtain rfl := Except.ok.inj habove'
    have hlength := congrArg List.length (step_eq_ok_iff.mp hstep').2
    simp only [List.length_append, List.length_singleton, List.length_dropLast] at hlength
    omega
  · obtain ⟨above', habove', hstep'⟩ := exists_step_of_find hd ho.slash ho.partOf hother
    rw [habove] at habove'
    obtain rfl := Except.ok.inj habove'
    have hlast := List.append_cancel_left (step_eq_ok_iff.mp hstep').2.2
    exact hne (List.cons.inj hlast).1.symm

end FileTree

namespace Settings

variable {settings : Settings}

/-- Settings that are accepted have a bare extension. -/
theorem isBareExtension_of_parse {text : String} (h : parse text = .ok settings) :
    isBareExtension settings.scriptExtension = true := by
  unfold parse at h
  split at h
  · cases h
  · split at h
    · next hbare =>
      obtain rfl := Except.ok.inj h
      exact hbare
    · cases h

/-- A bare extension is not empty and has neither a slash nor a backslash nor a dot. -/
theorem isBareExtension_iff {extension : String} : isBareExtension extension = true ↔
    extension ≠ "" ∧ '/' ∉ extension.toList ∧ '\\' ∉ extension.toList ∧ '.' ∉ extension.toList := by
  simp only [isBareExtension, Bool.and_eq_true, Bool.not_eq_true', String.isEmpty_eq_false_iff,
    List.all_eq_true, bne_iff_ne, ne_eq]
  refine and_congr_right fun _ => ⟨fun h => ⟨?_, ?_, ?_⟩, ?_⟩
  · exact fun hc => (h _ hc).1.1 rfl
  · exact fun hc => (h _ hc).1.2 rfl
  · exact fun hc => (h _ hc).2 rfl
  · rintro ⟨hslash, hbackslash, hdot⟩ c hc
    refine ⟨⟨?_, ?_⟩, ?_⟩ <;> rintro rfl
    · exact hslash hc
    · exact hbackslash hc
    · exact hdot hc

theorem bytes_of_isBareExtension {extension : String} (h : isBareExtension extension = true) :
    Utf8.encode extension ≠ [] ∧ FilePath.slash ∉ Utf8.encode extension := by
  obtain ⟨hne, hslash, -⟩ := isBareExtension_iff.mp h
  constructor
  · intro hnil
    have hpath : FilePath.ofText extension = .ofText "" := congrArg FilePath.mk hnil
    exact hne (by simpa using congrArg FilePath.text? hpath)
  · exact fun hmem => hslash (Utf8.mem_of_mem_encode (by decide) hmem)

/-- The path beside a project whose path ends with its name. -/
theorem scriptPath_append (hbare : isBareExtension settings.scriptExtension = true)
    {directory name : List UInt8} (hd : FilePath.IsDirectory directory)
    (hn : FilePath.IsFileName name) : settings.scriptPath ⟨directory ++ name⟩ =
      ⟨directory ++ FilePath.renamed name (Utf8.encode settings.scriptExtension)⟩ :=
  FilePath.withExtension_append hd hn (bytes_of_isBareExtension hbare).1

/-- A path without a file name is its own script path. -/
theorem scriptPath_of_fileName?_eq_none {project : FilePath} (h : project.fileName? = none) :
    settings.scriptPath project = project := by
  simp [scriptPath, FilePath.withExtension, FilePath.extension?, FilePath.setExtension, h]

theorem exists_name_of_scriptPath_ne {project : FilePath} (hnames : project.namesDirectory = false)
    (hne : settings.scriptPath project ≠ project) : ∃ directory name,
      FilePath.IsDirectory directory ∧ FilePath.IsFileName name ∧ project = ⟨directory ++ name⟩ := by
  cases hname : project.fileName? with
  | none => exact absurd (scriptPath_of_fileName?_eq_none hname) hne
  | some name =>
    obtain ⟨hn, directory, hd, hbytes⟩ := FilePath.exists_directory_of_fileName? hname
    rw [FilePath.namesDirectory, bne_eq_false_iff_eq] at hnames
    exact ⟨directory, name, hd, hn, congrArg FilePath.mk (hnames.symm.trans hbytes)⟩

/-- A project that is a file has another place than the script beside it, unless their paths are
equal. -/
theorem find_scriptPath_ne (hbare : isBareExtension settings.scriptExtension = true) {t : FileTree}
    {project : FilePath} {old : List UInt8} (hread : t.readBytes project = .ok old)
    (hne : settings.scriptPath project ≠ project) :
    t.find project ≠ t.find (settings.scriptPath project) := by
  obtain ⟨place, hfind, -, hnames⟩ :=
    FileTree.contentAt_eq_ok_iff.mp (FileTree.readBytes_eq_ok_iff.mp hread)
  obtain ⟨directory, name, hd, hn, rfl⟩ :=
    exists_name_of_scriptPath_ne (hnames.resolve_left (by simp)) hne
  obtain ⟨hempty, hslash⟩ := bytes_of_isBareExtension hbare
  rw [scriptPath_append hbare hd hn] at hne ⊢
  rw [hfind]
  refine Ne.symm (FileTree.find_ne_of_ne hd hn (FilePath.renamed_cases hn hslash hempty) ?_ hfind)
  exact fun h => hne (by rw [h])

/-- A script goes to the path of a project with a file name just if the project has the extension of
the settings, behind more than a dot. -/
theorem scriptPath_eq_self_iff (hbare : isBareExtension settings.scriptExtension = true)
    {project : FilePath} {name : List UInt8} (hname : project.fileName? = some name)
    (hnames : project.namesDirectory = false) : settings.scriptPath project = project ↔
      project.extension? = some (Utf8.encode settings.scriptExtension) ∧
        project.stem? ≠ some [FilePath.dot] := by
  obtain ⟨hn, directory, hd, hbytes⟩ := FilePath.exists_directory_of_fileName? hname
  rw [FilePath.namesDirectory, bne_eq_false_iff_eq] at hnames
  obtain rfl : project = ⟨directory ++ name⟩ := congrArg FilePath.mk (hnames.symm.trans hbytes)
  rw [scriptPath_append hbare hd hn, FilePath.mk.injEq, List.append_right_inj,
    FilePath.renamed_eq_self_iff hn, FilePath.extension?, FilePath.stem?, hname]
  simp

end Settings

namespace CommandLine

variable {settings : Settings} {project : FilePath}

theorem readBytes_of_hasScript {t : FileTree} {s : Script} (h : HasScript t project s) :
    ∃ text p, t.readBytes project = .ok (Utf8.encode text) ∧ Project.parse text = .ok p := by
  obtain ⟨p, g, hload, -, -⟩ := h
  obtain ⟨text, hread, hparse⟩ := Project.readBytes_of_after_load hload
  exact ⟨text, p, hread, hparse⟩

/-- Where the script path is the project itself, an overwriting compilation puts the script there.
-/
theorem readBytes_of_overwritten (hpath : settings.scriptPath project = project) {force : Bool}
    (hforce : (force || settings.overwrite) = true) {t : FileTree} {s : Script}
    (hscript : HasScript t project s) (output : Option FilePath) :
    (t.after (perform settings (.compile project output true force))).2.readBytes project =
      .ok (Utf8.encode s.text) := by
  obtain ⟨text, p, hread, -⟩ := readBytes_of_hasScript hscript
  obtain ⟨t', hwrite⟩ := FileTree.exists_of_readBytes hread (Utf8.encode s.text)
  have htarget : (Command.compile project output true force).target? settings = some project :=
    congrArg some hpath
  rw [(after_perform_eq_ok_iff htarget).mpr ⟨rfl, s, hscript, .inr hforce, hwrite⟩]
  exact (FileTree.replaced_of_writeBytes hwrite).content

/-- A project stays as it was unless its path is its own script path, a script may take its place
and there is one. -/
theorem readBytes_of_kept (hbare : Settings.isBareExtension settings.scriptExtension = true)
    {force : Bool} {t : FileTree} (output : Option FilePath)
    (h : ¬ (settings.scriptPath project = project ∧ (force || settings.overwrite) = true ∧
      ∃ s, HasScript t project s)) :
    (t.after (perform settings (.compile project output true force))).2.readBytes project =
      t.readBytes project := by
  cases hresult : (t.after (perform settings (.compile project output true force))).1 with
  | error fault => rw [cleanFailure_perform _ _ t fault hresult]
  | ok text =>
    have htarget : (Command.compile project output true force).target? settings =
      some (settings.scriptPath project) := rfl
    obtain ⟨-, s, hscript, hfree, hwrite⟩ :=
      (after_perform_eq_ok_iff htarget).mp (Prod.ext hresult rfl)
    change HasScript t project s at hscript
    obtain ⟨old, p, hread, -⟩ := readBytes_of_hasScript hscript
    have hne : settings.scriptPath project ≠ project := by
      intro hpath
      refine h ⟨hpath, ?_, s, hscript⟩
      rw [hpath] at hfree
      have hthere : t.hasPath project = true := by
        rw [FileTree.hasPath, FileTree.readBytes_eq_ok_iff.mp hread]
        rfl
      exact hfree.resolve_left (by simp [hthere])
    have hpaths := (FileTree.replaced_of_writeBytes hwrite).paths project
      (Settings.find_scriptPath_ne hbare hread hne)
    rw [hread, FileTree.readBytes_eq_ok_iff, hpaths, ← FileTree.readBytes_eq_ok_iff, hread]

/-- With settings out of a text, writing a script beside its project changes the project just if the
script goes to the project itself, may overwrite it and is there. Then the project is lost: the script
is in its place. And the script goes to a project with a file name just if the project has the
extension of the settings, behind more than a dot. -/
theorem project_kept_iff {text : String} (hs : Settings.parse text = .ok settings) (t : FileTree)
    (project : FilePath) (output : Option FilePath) (force : Bool) :
    ((t.after (perform settings (.compile project output true force))).2.readBytes project =
      t.readBytes project ↔ ¬ (settings.scriptPath project = project ∧
        (force || settings.overwrite) = true ∧ ∃ s, HasScript t project s)) ∧
    (settings.scriptPath project = project → (force || settings.overwrite) = true →
      ∀ s, HasScript t project s →
        (t.after (perform settings (.compile project output true force))).2.readBytes project =
          .ok (Utf8.encode s.text) ∧ ∀ p, Project.parse s.text ≠ .ok p) ∧
    ∀ name, project.fileName? = some name → project.namesDirectory = false →
      (settings.scriptPath project = project ↔
        project.extension? = some (Utf8.encode settings.scriptExtension) ∧
          project.stem? ≠ some [FilePath.dot]) := by
  have hbare := Settings.isBareExtension_of_parse hs
  refine ⟨⟨?_, readBytes_of_kept hbare output⟩, ?_, ?_⟩
  · rintro hkept ⟨hpath, hforce, s, hscript⟩
    obtain ⟨old, p, hread, hparse⟩ := readBytes_of_hasScript hscript
    rw [readBytes_of_overwritten hpath hforce hscript output, hread] at hkept
    have htext : s.text = old := by
      simpa using congrArg Utf8.decode? (Except.ok.inj hkept)
    exact s.parse_text_ne_ok p (htext ▸ hparse)
  · intro hpath hforce s hscript
    exact ⟨readBytes_of_overwritten hpath hforce hscript output, s.parse_text_ne_ok⟩
  · intro name hname hnames
    exact Settings.scriptPath_eq_self_iff hbare hname hnames

/-- Settings that choose the extension that a project may well have. -/
def jsonText : String := "script_extension = \"json\"\n"

theorem parse_jsonText : Settings.parse jsonText = .ok ⟨none, none, "json", false⟩ := by
  cbv

/-- What `desk` has at the path of its project is lost if it may be overwritten, and else it stays. -/
theorem desk_kept_unless_forced : Settings.parse jsonText = .ok ⟨none, none, "json", false⟩ ∧
    (desk.after (perform ⟨none, none, "json", false⟩
      (.compile (.ofText "p.json") none true false))).2.readBytes (.ofText "p.json") =
        desk.readBytes (.ofText "p.json") ∧
    (desk.after (perform ⟨none, none, "json", false⟩
      (.compile (.ofText "p.json") none true true))).2.readBytes (.ofText "p.json") =
        .ok (Utf8.encode bareScript.text) := by
  have hpath : Settings.scriptPath ⟨none, none, "json", false⟩ (.ofText "p.json") =
      .ofText "p.json" := by decide +kernel
  obtain ⟨hkept, -, -⟩ := project_kept_iff parse_jsonText desk (.ofText "p.json") none false
  obtain ⟨-, hlost, -⟩ := project_kept_iff parse_jsonText desk (.ofText "p.json") none true
  exact ⟨parse_jsonText, hkept.mpr (by simp), (hlost hpath rfl bareScript desk_hasScript).1⟩

/-- A project that a forced run has replaced by its script. -/
theorem desk_project_lost : ∃ settings, Settings.parse jsonText = .ok settings ∧
    (desk.after (perform settings
      (.compile (.ofText "p.json") none true true))).2.readBytes (.ofText "p.json") ≠
        desk.readBytes (.ofText "p.json") := by
  have hpath : Settings.scriptPath ⟨none, none, "json", false⟩ (.ofText "p.json") =
      .ofText "p.json" := by decide +kernel
  refine ⟨_, parse_jsonText, ?_⟩
  rw [readBytes_of_overwritten hpath rfl desk_hasScript]
  decide +kernel

end CommandLine
end ClipGraph
