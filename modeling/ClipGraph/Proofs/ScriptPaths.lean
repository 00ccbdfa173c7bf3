import ClipGraph.Proofs.Beside

/-!
# Where scripts go

The script of a project with a file name stays in the directory of the project and takes over its stem,
and its extension is that of the settings. What follows the name in the path of the project does not
matter, because taking off the old extension by its length never reaches into the stem. A stem that is
nothing but a dot is the exception: without its extension it names the directory above, and a name is
no longer there.
-/

namespace ClipGraph
namespace FilePath

variable {directory name extension stem old : List UInt8} {p q : FilePath}

/-- What follows the last part of a path is at its end. -/
theorem trimmed_isPrefix (bytes : List UInt8) : trimmed bytes <+: bytes := by
  have h := List.reverse_prefix.mpr (trimmedRev_suffix bytes.reverse)
  rwa [List.reverse_reverse] at h

/-- Bytes that are taken off anyway may be missing. -/
theorem trimmedRev_append {behind bytes : List UInt8}
    (h : (trimmedRev (behind ++ bytes)).length ≤ bytes.length) :
    trimmedRev (behind ++ bytes) = trimmedRev bytes := by
  induction behind with
  | nil => rfl
  | cons b behind ih =>
    rcases trimmedRev_cons b (behind ++ bytes) with hoff | hkept
    · rw [List.cons_append, hoff] at h ⊢
      exact ih h
    · rw [List.cons_append, hkept, List.length_cons, List.length_append] at h
      omega

/-- A path that is cut somewhere behind its last part keeps that part. -/
theorem trimmed_take {bytes : List UInt8} {n : Nat} (h : (trimmed bytes).length ≤ n) :
    trimmed (bytes.take n) = trimmed bytes := by
  have hsplit : bytes.reverse = (bytes.drop n).reverse ++ (bytes.take n).reverse := by
    rw [← List.reverse_append, List.take_append_drop]
  have hlength : (trimmed bytes).length ≤ bytes.length := (trimmed_isPrefix bytes).length_le
  rw [trimmed, trimmed, hsplit, trimmedRev_append]
  rw [← hsplit, List.length_reverse, List.length_take]
  rw [trimmed, List.length_reverse] at h hlength
  omega

/-- A name is all stem, or it is a stem with an extension behind the last dot. -/
theorem splitName_cases (name : List UInt8) : splitName name = (name, none) ∨
    ∃ stem old, name = stem ++ dot :: old ∧ stem ≠ [] ∧ dot ∉ old ∧
      splitName name = (stem, some old) := by
  rcases exists_last_dot name with hdot | ⟨stem, old, rfl, ho⟩
  · exact .inl (splitName_of_not_mem hdot)
  · by_cases hs : stem = []
    · subst hs
      exact .inl (splitName_dot ho)
    · exact .inr ⟨stem, old, rfl, hs, ho, splitName_append hs ho⟩

theorem splitName_fst_ne_nil (hn : IsFileName name) : (splitName name).1 ≠ [] := by
  rcases splitName_cases name with h | ⟨stem, old, -, hs, -, h⟩
  · rw [h]
    exact hn.nonempty
  · rw [h]
    exact hs

theorem slash_not_mem_stem (hn : IsFileName name) : slash ∉ (splitName name).1 := by
  rcases splitName_cases name with h | ⟨stem, old, rfl, -, -, h⟩
  · rw [h]
    exact hn.slash
  · rw [h]
    exact fun hm => hn.slash (List.mem_append_left _ hm)

theorem renamed_eq (hn : IsFileName name) : renamed name extension =
    if (splitName name).1 = [dot] then [dot, dot] else (splitName name).1 ++ dot :: extension := by
  rw [renamed]
  rcases splitName_cases name with h | ⟨stem, old, -, -, -, h⟩
  · simp only [h, hn.current, if_false]
  · simp only [h]

/-- The bytes of a path with a file name: a directory, the name, and what may follow it. -/
structure Reads (p : FilePath) (directory name tail : List UInt8) : Prop where
  bytes : p.bytes = directory ++ name ++ tail
  trimmed : FilePath.trimmed p.bytes = directory ++ name
  directory : IsDirectory directory
  name : IsFileName name

/-- A path with a file name is a directory, the name, and slashes and dots. -/
theorem exists_reads_of_fileName? (h : p.fileName? = some name) :
    ∃ directory tail, p.Reads directory name tail := by
  obtain ⟨hn, directory, hd, htrimmed⟩ := exists_directory_of_fileName? h
  obtain ⟨tail, htail⟩ := trimmed_isPrefix p.bytes
  exact ⟨directory, tail, by rw [← htrimmed, htail], htrimmed, hd, hn⟩

theorem reads_of_isFileName (hd : IsDirectory directory) (hn : IsFileName name) :
    Reads ⟨directory ++ name⟩ directory name [] where
  bytes := (List.append_nil _).symm
  trimmed := trimmed_append directory hn.slash hn.nonempty hn.current
  directory := hd
  name := hn

section Reads

variable {tail : List UInt8}

theorem Reads.fileName? (h : p.Reads directory name tail) : p.fileName? = some name := by
  have hlast := (lastPiece_append h.directory h.name.slash).1
  simp [FilePath.fileName?, h.trimmed, hlast, h.name.nonempty, h.name.current, h.name.parent]

theorem Reads.namesDirectory_eq_false_iff (h : p.Reads directory name tail) :
    p.namesDirectory = false ↔ tail = [] := by
  rw [namesDirectory, bne_eq_false_iff_eq, h.trimmed, h.bytes]
  simp

/-- The directory that a path lies in is told by the bytes before its last piece. -/
theorem parent?_of_trimmed {piece : List UInt8} (hbytes : p.bytes = directory ++ piece ++ tail)
    (htrimmed : FilePath.trimmed p.bytes = directory ++ piece) (hd : IsDirectory directory)
    (hp : slash ∉ piece) (hne : piece ≠ []) : p.parent? =
      some ⟨if trimmed directory = [] ∧ directory.head? = some slash then [slash]
        else trimmed directory⟩ := by
  have hbody : directory ++ piece ≠ [] := fun hnil => hne (List.append_eq_nil_iff.mp hnil).2
  have habsolute : p.isAbsolute = true ↔ directory.head? = some slash := by
    rw [isAbsolute, hbytes, beq_iff_eq]
    cases directory with
    | cons b directory => rfl
    | nil =>
      obtain ⟨b, rest, rfl⟩ := List.exists_cons_of_ne_nil hne
      rw [List.mem_cons, not_or] at hp
      simpa using Ne.symm hp.1
  simp only [FilePath.parent?, htrimmed, hbody, if_false, (lastPiece_append hd hp).2, habsolute]

/-- A path lies in its directory, without what follows the last part of that. -/
theorem Reads.parent? (h : p.Reads directory name tail) : p.parent? =
    some ⟨if FilePath.trimmed directory = [] ∧ directory.head? = some FilePath.slash then
      [FilePath.slash] else FilePath.trimmed directory⟩ :=
  parent?_of_trimmed h.bytes h.trimmed h.directory h.name.slash h.name.nonempty

/-- A path lies in the directory in which it is changed into the directory above. -/
theorem Reads.parent?_above (h : p.Reads directory name tail) :
    FilePath.parent? ⟨directory ++ [dot, dot]⟩ = p.parent? := by
  have hslash : FilePath.slash ∉ [dot, dot] := by decide
  have htrimmed := trimmed_append directory hslash (by simp) (by decide)
  rw [h.parent?, parent?_of_trimmed (List.append_nil _).symm htrimmed h.directory hslash (by simp)]

/-- Another extension is put behind the stem, whatever follows the name. -/
theorem Reads.setExtension (h : p.Reads directory name tail) (he : extension ≠ []) :
    p.setExtension extension = ⟨directory ++ ((splitName name).1 ++ dot :: extension)⟩ := by
  rw [FilePath.setExtension, h.fileName?]
  simp only [h.trimmed, (lastPiece_append h.directory h.name.slash).2, he, if_false, List.append_assoc]

/-- With something behind the name, taking off the old extension by its length leaves the dot behind the
stem and something more. -/
theorem Reads.cut (h : p.Reads directory (stem ++ dot :: old) tail) (hs : stem ≠ []) (ho : dot ∉ old)
    (ht : tail ≠ []) : ∃ left tail', dot ∉ left ∧
      Reads ⟨p.bytes.take (p.bytes.length - old.length)⟩ directory (stem ++ dot :: left) tail' := by
  by_cases hshort : old.length ≤ tail.length
  · -- only what follows the name gets shorter
    have hcut : p.bytes.length - old.length =
        (directory ++ (stem ++ dot :: old)).length + (tail.length - old.length) := by
      rw [h.bytes, List.length_append]
      omega
    refine ⟨old, tail.take (tail.length - old.length), ho, ?_, ?_, h.directory, h.name⟩
    · rw [hcut, h.bytes, List.take_length_add_append]
    · rw [hcut, trimmed_take (by simp [h.trimmed]), h.trimmed]
  · -- the name gets shorter, but not by all of its extension
    have hcut : p.bytes.take (p.bytes.length - old.length) =
        directory ++ (stem ++ dot :: old.take tail.length) := by
      have hbytes : p.bytes = (directory ++ stem ++ [dot]) ++ (old ++ tail) := by
        rw [h.bytes]
        simp
      have hlength : p.bytes.length - old.length =
          (directory ++ stem ++ [dot]).length + tail.length := by
        rw [hbytes]
        simp only [List.length_append]
        omega
      rw [hlength, hbytes, List.take_length_add_append,
        List.take_append_of_le_length (Nat.le_of_not_le hshort)]
      simp
    have hslash := h.name.slash
    rw [List.mem_append, List.mem_cons, not_or, not_or] at hslash
    have hrest : old.take tail.length ≠ [] := by
      intro hnil
      rcases List.take_eq_nil_iff.mp hnil with hnil | hnil
      · exact ht (List.length_eq_zero_iff.mp hnil)
      · exact hshort (by simp [hnil])
    have hn := isFileName_append hslash.1 hs (fun hm => hslash.2.2 (List.mem_of_mem_take hm)) hrest
    rw [hcut]
    exact ⟨_, [], fun hm => ho (List.mem_of_mem_take hm), reads_of_isFileName h.directory hn⟩

/-- With something behind the name the new extension takes the place of the old one and of that. -/
theorem Reads.withExtension (h : p.Reads directory name tail) (ht : tail ≠ []) (he : extension ≠ []) :
    p.withExtension extension = ⟨directory ++ ((splitName name).1 ++ dot :: extension)⟩ := by
  rw [FilePath.withExtension, extension?, h.fileName?, Option.bind_some]
  rcases splitName_cases name with hname | ⟨stem, old, rfl, hs, ho, hname⟩
  · simp only [hname, h.setExtension he]
  · obtain ⟨left, tail', hleft, hcut⟩ := h.cut hs ho ht
    simp only [hname, hcut.setExtension he, splitName_append hs hleft]

end Reads

end FilePath

namespace Settings

open FilePath (IsDirectory IsFileName Reads dot splitName)

variable {settings : Settings} {project : FilePath} {directory name tail : List UInt8}

theorem dot_not_mem_of_isBareExtension {extension : String} (h : isBareExtension extension = true) :
    dot ∉ Utf8.encode extension :=
  fun hdot => (isBareExtension_iff.mp h).2.2.2 (Utf8.mem_of_mem_encode (by decide) hdot)

/-- The script stands where the name of the project does, and only with nothing behind that name a stem
that is a dot leads to the directory above. -/
theorem scriptPath_of_reads (hbare : isBareExtension settings.scriptExtension = true)
    (h : project.Reads directory name tail) : settings.scriptPath project =
      ⟨directory ++ if (splitName name).1 = [dot] ∧ tail = [] then [dot, dot]
        else (splitName name).1 ++ dot :: Utf8.encode settings.scriptExtension⟩ := by
  by_cases ht : tail = []
  · subst ht
    have hproject : project = ⟨directory ++ name⟩ :=
      congrArg FilePath.mk (h.bytes.trans (List.append_nil _))
    rw [hproject, scriptPath_append hbare h.directory h.name, FilePath.renamed_eq h.name]
    simp only [and_true]
  · simp only [ht, and_false, if_false]
    exact h.withExtension ht (bytes_of_isBareExtension hbare).1

theorem stem?_of_reads (h : project.Reads directory name tail) :
    project.stem? = some (splitName name).1 := by
  rw [FilePath.stem?, h.fileName?, Option.map_some]

/-- A script in the directory of its project, with the stem of the project and the extension of the
settings. -/
structure Beside (settings : Settings) (project script : FilePath) : Prop where
  parent : script.parent? = project.parent?
  stem : script.stem? = project.stem?
  extension : script.extension? = some (Utf8.encode settings.scriptExtension)

/-- The path at which a script belongs. -/
theorem beside_of_reads (hbare : isBareExtension settings.scriptExtension = true)
    (h : project.Reads directory name tail) :
    Beside settings project
      ⟨directory ++ ((splitName name).1 ++ dot :: Utf8.encode settings.scriptExtension)⟩ ∧
    Reads ⟨directory ++ ((splitName name).1 ++ dot :: Utf8.encode settings.scriptExtension)⟩
      directory ((splitName name).1 ++ dot :: Utf8.encode settings.scriptExtension) [] := by
  obtain ⟨hempty, hslash⟩ := bytes_of_isBareExtension hbare
  have hstem := FilePath.splitName_fst_ne_nil h.name
  have hsplit := FilePath.splitName_append hstem (dot_not_mem_of_isBareExtension hbare)
  have hn : IsFileName ((splitName name).1 ++ dot :: Utf8.encode settings.scriptExtension) :=
    FilePath.isFileName_append (FilePath.slash_not_mem_stem h.name) hstem hslash hempty
  have hscript := FilePath.reads_of_isFileName h.directory hn
  refine ⟨⟨?_, ?_, ?_⟩, hscript⟩
  · rw [hscript.parent?, h.parent?]
  · rw [stem?_of_reads hscript, stem?_of_reads h, hsplit]
  · rw [FilePath.extension?, hscript.fileName?, Option.bind_some, hsplit]

/-- The directory above has no stem and no extension. -/
theorem not_beside_above (hd : IsDirectory directory) :
    ¬ settings.Beside project ⟨directory ++ [dot, dot]⟩ := by
  intro hbeside
  have hextension := hbeside.extension
  rw [FilePath.extension?, FilePath.fileName?_parent hd] at hextension
  cases hextension

/-- With settings out of a text, the script of a project with a file name lies in the directory of the
project. It takes over the stem, has the extension of the settings and is its own script, unless the
stem is a dot. With such a stem the script is the directory above, or if something follows the name of
the project, its own script is. -/
theorem scriptPath_beside_iff {text : String} (hs : parse text = .ok settings)
    (hname : project.fileName? = some name) :
    (settings.scriptPath project).parent? = project.parent? ∧
    (settings.Beside project (settings.scriptPath project) ∧
      settings.scriptPath (settings.scriptPath project) = settings.scriptPath project ↔
        project.stem? ≠ some [dot]) ∧
    (project.stem? = some [dot] → ∃ directory, FilePath.trimmed project.bytes = directory ++ name ∧
      if project.namesDirectory then settings.Beside project (settings.scriptPath project) ∧
        settings.scriptPath (settings.scriptPath project) = ⟨directory ++ [dot, dot]⟩
      else settings.scriptPath project = ⟨directory ++ [dot, dot]⟩) := by
  have hbare := isBareExtension_of_parse hs
  obtain ⟨directory, tail, h⟩ := FilePath.exists_reads_of_fileName? hname
  have hpath := scriptPath_of_reads hbare h
  obtain ⟨hbeside, hscript⟩ := beside_of_reads hbare h
  have hagain := scriptPath_of_reads hbare hscript
  rw [FilePath.splitName_append (FilePath.splitName_fst_ne_nil h.name)
    (dot_not_mem_of_isBareExtension hbare)] at hagain
  simp only [and_true] at hagain
  have habove : ¬ settings.Beside project ⟨directory ++ [dot, dot]⟩ := not_beside_above h.directory
  rw [stem?_of_reads h, ne_eq, Option.some.injEq]
  by_cases hdot : (splitName name).1 = [dot]
  · simp only [hdot, not_true, iff_false, forall_const]
    by_cases ht : tail = []
    · have hnames := h.namesDirectory_eq_false_iff.mpr ht
      rw [if_pos ⟨hdot, ht⟩] at hpath
      rw [hpath]
      exact ⟨h.parent?_above, fun hboth => habove hboth.1, directory, h.trimmed, by simp [hnames]⟩
    · have hnames : project.namesDirectory = true := by
        rw [← Bool.not_eq_false, h.namesDirectory_eq_false_iff]
        exact ht
      rw [if_neg fun hboth => ht hboth.2] at hpath
      rw [if_pos hdot, ← hpath] at hagain
      rw [← hpath] at hbeside
      refine ⟨hbeside.parent, fun hboth => ?_, directory, h.trimmed, ?_⟩
      · rw [← hagain, hboth.2] at habove
        exact habove hboth.1
      · rw [if_pos hnames]
        exact ⟨hbeside, hagain⟩
  · rw [if_neg fun hboth => hdot hboth.1] at hpath
    rw [if_neg hdot, ← hpath] at hagain
    rw [← hpath] at hbeside
    exact ⟨hbeside.parent, ⟨fun _ => hdot, fun _ => ⟨hbeside, hagain⟩⟩, fun h => absurd h hdot⟩

theorem parse_nothing : parse "" = .ok standard := by
  cbv

/-- A hidden project with several dots in its name and something behind it. -/
def hiddenProject : FilePath := .ofText "work//.cut.v2.json/."

/-- A hidden project with several dots in its name has its script beside it. -/
theorem hiddenProject_beside : parse "" = .ok standard ∧
    hiddenProject.fileName? = some (Utf8.encode ".cut.v2.json") ∧
    standard.scriptPath hiddenProject = .ofText "work//.cut.v2.vpy" ∧
    standard.Beside hiddenProject (.ofText "work//.cut.v2.vpy") ∧
    standard.scriptPath (.ofText "work//.cut.v2.vpy") = .ofText "work//.cut.v2.vpy" := by
  have hname : hiddenProject.fileName? = some (Utf8.encode ".cut.v2.json") := by decide +kernel
  have hstem : hiddenProject.stem? ≠ some [dot] := by decide +kernel
  have hpath : standard.scriptPath hiddenProject = .ofText "work//.cut.v2.vpy" := by decide +kernel
  obtain ⟨-, hbeside, -⟩ := scriptPath_beside_iff parse_nothing hname
  obtain ⟨hscript, hagain⟩ := hbeside.mpr hstem
  rw [hpath] at hscript hagain
  exact ⟨parse_nothing, hname, hpath, hscript, hagain⟩

/-- A project with a file name whose script would be the directory above. -/
theorem dotted_not_beside : parse "" = .ok standard ∧
    FilePath.fileName? (.ofText "..foo") = some (Utf8.encode "..foo") ∧
    standard.scriptPath (.ofText "..foo") = .ofText ".." ∧
    ¬ standard.Beside (.ofText "..foo") (standard.scriptPath (.ofText "..foo")) := by
  have hpath : standard.scriptPath (.ofText "..foo") = .ofText ".." := by decide +kernel
  refine ⟨parse_nothing, by decide +kernel, hpath, ?_⟩
  rw [hpath]
  exact not_beside_above (.inl rfl)

end Settings
end ClipGraph
