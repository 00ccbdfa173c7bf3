import Mathlib
import ClipGraph.Proofs.Beside
import ClipGraph.Proofs.Saves
import ClipGraph.Proofs.TomlQuotes
import ClipGraph.Proofs.Valid

/-!
# Settings read back

A document of settings has one line for each pair, so it is read line by line and the pairs gather in
the table in their order. What was chosen is then found under its key again, and what was left out is
not there. Only the extension can still be refused, because a save does not look at it.
-/

namespace ClipGraph
namespace Toml

variable {key : String} {value rest : List Char} {v : Toml} {c : Char}

/-- A key that needs no quotes. -/
structure IsBareKey (key : String) : Prop where
  nonempty : key.toList ≠ []
  bare : ∀ c ∈ key.toList, isBareKey c = true

theorem IsBareKey.exists_cons (hk : IsBareKey key) :
    ∃ c more, key.toList = c :: more ∧ isBareKey c = true := by
  obtain ⟨c, more, h⟩ := List.exists_cons_of_ne_nil hk.nonempty
  exact ⟨c, more, h, hk.bare c (h ▸ List.mem_cons_self)⟩

theorem ne_of_isBareKey (h : isBareKey c = true) {d : Char} (hd : isBareKey d = false) : c ≠ d := by
  rintro rfl
  rw [h] at hd
  cases hd

theorem isBlank_of_isBareKey (h : isBareKey c = true) : isBlank c = false := by
  rw [isBlank, Bool.or_eq_false_iff, beq_eq_false_iff_ne, beq_eq_false_iff_ne]
  exact ⟨ne_of_isBareKey h rfl, ne_of_isBareKey h rfl⟩

theorem skipBlanks_of_stops (h : Stops isBlank rest) : skipBlanks rest = rest := by
  cases rest with
  | nil => rfl
  | cons c rest => rw [skipBlanks, List.dropWhile_cons_of_neg (by simp [h c rfl])]

theorem lineEnd?_of_isBareKey (h : isBareKey c = true) : lineEnd? (c :: rest) = none := by
  have hhash : c ≠ '#' := ne_of_isBareKey h rfl
  have hline : c ≠ '\n' := ne_of_isBareKey h rfl
  have hreturn : c ≠ '\r' := ne_of_isBareKey h rfl
  simp [lineEnd?, skipBlanks_of_stops (stops_cons (isBlank_of_isBareKey h)), hhash, lineBreak?, hline,
    hreturn]

/-- A bare key is read up to where it ends. -/
theorem readKey_bare (hk : IsBareKey key) (hr : Stops isBareKey rest) :
    readKey (key.toList ++ rest) = some (key, rest) := by
  obtain ⟨c, more, hkey, hc⟩ := hk.exists_cons
  have hquoted : Quoted.readLine? (key.toList ++ rest) = none := by
    have hquote : c ≠ '"' := ne_of_isBareKey hc rfl
    have htick : c ≠ '\'' := ne_of_isBareKey hc rfl
    simp [hkey, Quoted.readLine?, hquote, htick]
  rw [readKey, hquoted]
  simp only [takeWhile_run hk.bare hr, dropWhile_run hk.bare hr]
  split
  · next h => exact absurd h hk.nonempty
  · rw [String.ofList_toList]

theorem readKeys_bare (hk : IsBareKey key) (rest : List Char) :
    readKeys (key.toList ++ ' ' :: '=' :: rest) = some ([key], '=' :: rest) := by
  obtain ⟨c, more, hkey, hc⟩ := hk.exists_cons
  have hblanks : Stops isBlank (key.toList ++ ' ' :: '=' :: rest) := by
    rw [hkey]
    exact stops_cons (isBlank_of_isBareKey hc)
  rw [readKeys, skipBlanks_of_stops hblanks, readKey_bare hk (stops_cons rfl)]
  rfl

/-- The text is one whole line of a document, whatever follows it. -/
structure IsLine (text : List Char) (line : Line) : Prop where
  nonempty : text ≠ []
  reads : ∀ rest, readWholeLine (text ++ rest) = some (line, rest)

/-- A pair on a line is read as that pair. -/
theorem readStatement_pair (hk : IsBareKey key) (hblank : Stops isBlank (value ++ '\n' :: rest))
    (hv : readValue nestingLimit (value ++ '\n' :: rest) = some (v, '\n' :: rest)) :
    readStatement (key.toList ++ ' ' :: '=' :: ' ' :: (value ++ '\n' :: rest)) =
      some (.pair ⟨[], key⟩ v, '\n' :: rest) := by
  obtain ⟨c, more, hkey, hc⟩ := hk.exists_cons
  have hbracket : c ≠ '[' := ne_of_isBareKey hc rfl
  have hpath : readPath (key.toList ++ ' ' :: '=' :: ' ' :: (value ++ '\n' :: rest)) =
      some (⟨[], key⟩, '=' :: ' ' :: (value ++ '\n' :: rest)) := by
    rw [readPath, readKeys_bare hk]
    rfl
  have hvalue : skipBlanks (' ' :: (value ++ '\n' :: rest)) = value ++ '\n' :: rest :=
    skipBlanks_of_stops hblank
  have hpair : readPair (readValue nestingLimit)
      (key.toList ++ ' ' :: '=' :: ' ' :: (value ++ '\n' :: rest)) =
      some ((⟨[], key⟩, v), '\n' :: rest) := by
    simp [readPair, hpath, expect, hvalue, hv]
  rw [hkey, List.cons_append] at hpair ⊢
  rw [readStatement, hpair]
  all_goals simp [hbracket]

theorem isLine_line (hk : IsBareKey key) (hblank : ∀ rest, Stops isBlank (value ++ '\n' :: rest))
    (hv : ∀ rest, readValue nestingLimit (value ++ '\n' :: rest) = some (v, '\n' :: rest)) :
    IsLine (Settings.line key value) (.pair ⟨[], key⟩ v) := by
  obtain ⟨c, more, hkey, hc⟩ := hk.exists_cons
  refine ⟨by simp [Settings.line], fun rest => ?_⟩
  have hline : Settings.line key value ++ rest =
      key.toList ++ ' ' :: '=' :: ' ' :: (value ++ '\n' :: rest) := by
    simp [Settings.line]
  have hstart : Stops isBlank (key.toList ++ ' ' :: '=' :: ' ' :: (value ++ '\n' :: rest)) := by
    rw [hkey]
    exact stops_cons (isBlank_of_isBareKey hc)
  have hend : lineEnd? (key.toList ++ ' ' :: '=' :: ' ' :: (value ++ '\n' :: rest)) = none := by
    rw [hkey]
    exact lineEnd?_of_isBareKey hc
  rw [hline, readWholeLine, hend, skipBlanks_of_stops hstart]
  simp [readStatement_pair hk (hblank rest) (hv rest), lineEnd?, skipBlanks, isBlank, lineBreak?]

/-- The lines of a document are read one by one. -/
theorem readLines_flatten {texts : List (List Char)} {lines : List Line}
    (h : List.Forall₂ IsLine texts lines) : readLines texts.flatten = some lines := by
  induction h with
  | nil =>
    rw [readLines]
    rfl
  | @cons text line texts lines hline _ ih =>
    have hpos := List.length_pos_iff.mpr hline.nonempty
    rw [List.flatten_cons, readLines, if_neg (by simp [hline.nonempty]), hline.reads]
    simp [ih, hpos]

/-- Pairs under keys that are not there yet are put behind the others. -/
theorem Draft.foldlM_take_pairs {entries pairs : Entries}
    (h : ((entries ++ pairs).map Prod.fst).Nodup) :
    (pairs.map fun p => Line.pair ⟨[], p.1⟩ p.2).foldlM Draft.take ⟨entries, []⟩ =
      some ⟨entries ++ pairs, []⟩ := by
  induction pairs generalizing entries with
  | nil => simp
  | cons p pairs ih =>
    have hnew : entries.has p.1 = false := by
      simp only [List.map_append, List.map_cons, List.nodup_append] at h
      rw [Entries.has, List.any_eq_false]
      intro e he hkey
      exact h.2.2 _ (List.mem_map_of_mem he) _ List.mem_cons_self (by simpa using hkey)
    have hstep : Draft.take ⟨entries, []⟩ (.pair ⟨[], p.1⟩ p.2) = some ⟨entries.add p.1 p.2, []⟩ := by
      simp [Draft.take, Entries.changeAt, Entries.addAt, hnew]
    have hrest : ((entries.add p.1 p.2 ++ pairs).map Prod.fst).Nodup := by
      simpa [Entries.add] using h
    rw [List.map_cons, List.foldlM_cons, hstep, Option.bind_eq_bind, Option.bind_some, ih hrest,
      Entries.add, List.append_assoc, List.singleton_append]

end Toml

namespace Settings

open Toml

/-- A text is read back from the form that it is written in. -/
theorem readValue_write (text : String) (rest : List Char) :
    readValue nestingLimit (Quoted.write text.toList ++ '\n' :: rest) =
      some (.scalar (.string text), '\n' :: rest) := by
  have hread : Quoted.read? (Quoted.write text.toList ++ '\n' :: rest) =
      some (text.toList, '\n' :: rest) :=
    Quoted.read?_write text.toList (by simp) (by simp)
  obtain ⟨c, more, hc, hwrite⟩ := Quoted.write_eq_cons text.toList
  have hscalar : readScalar (Quoted.write text.toList ++ '\n' :: rest) =
      some (.string text, '\n' :: rest) := by
    rw [readScalar, hread]
    · simp
    all_goals rcases hc with rfl | rfl <;> simp [hwrite]
  rw [nestingLimit, readValue, hscalar]
  · rfl
  all_goals rcases hc with rfl | rfl <;> simp [hwrite]

theorem isLine_textLine {key : String} (hk : IsBareKey key) (text : String) :
    IsLine (textLine key text) (.pair ⟨[], key⟩ (.scalar (.string text))) := by
  obtain ⟨c, more, hc, hwrite⟩ := Quoted.write_eq_cons text.toList
  refine isLine_line hk (fun rest => ?_) (readValue_write text)
  rw [hwrite]
  rcases hc with rfl | rfl <;> exact stops_cons rfl

theorem isLine_booleanLine {key : String} (hk : IsBareKey key) (b : Bool) :
    IsLine (booleanLine key b) (.pair ⟨[], key⟩ (.scalar (.boolean b))) := by
  refine isLine_line hk (fun rest => ?_) (fun rest => ?_)
  · cases b <;> exact stops_cons rfl
  · cases b <;> rfl

def pairs (s : Settings) (directory : Option String) : Entries :=
  (s.logFilter.toList.map fun filter => (logFilterKey, .scalar (.string filter))) ++
  (directory.toList.map fun text => (logDirectoryKey, .scalar (.string text))) ++
  [(scriptExtensionKey, .scalar (.string s.scriptExtension)),
    (overwriteKey, .scalar (.boolean s.overwrite))]

/-- The lines of settings. -/
def lines (s : Settings) (directory : Option String) : List (List Char) :=
  s.logFilter.toList.map (textLine logFilterKey) ++
  directory.toList.map (textLine logDirectoryKey) ++
  [textLine scriptExtensionKey s.scriptExtension, booleanLine overwriteKey s.overwrite]

theorem isBareKey_of_mem : ∀ key ∈ [logFilterKey, logDirectoryKey, scriptExtensionKey, overwriteKey],
    IsBareKey key := by
  intro key hkey
  simp only [List.mem_cons, List.not_mem_nil, or_false] at hkey
  rcases hkey with rfl | rfl | rfl | rfl <;>
    refine ⟨by simp [logFilterKey, logDirectoryKey, scriptExtensionKey, overwriteKey], ?_⟩ <;>
    simp [logFilterKey, logDirectoryKey, scriptExtensionKey, overwriteKey, isBareKey]

theorem forall₂_lines (s : Settings) (directory : Option String) :
    List.Forall₂ IsLine (s.lines directory)
      ((s.pairs directory).map fun p => Line.pair ⟨[], p.1⟩ p.2) := by
  have hfilter := isLine_textLine (isBareKey_of_mem logFilterKey (by simp))
  have hdirectory := isLine_textLine (isBareKey_of_mem logDirectoryKey (by simp))
  have hextension := isLine_textLine (isBareKey_of_mem scriptExtensionKey (by simp)) s.scriptExtension
  have hoverwrite := isLine_booleanLine (isBareKey_of_mem overwriteKey (by simp)) s.overwrite
  cases hf : s.logFilter <;> cases directory <;>
    simp [lines, pairs, hf, hfilter, hdirectory, hextension, hoverwrite]

theorem nodup_pairs (s : Settings) (directory : Option String) :
    ((s.pairs directory).map Prod.fst).Nodup := by
  cases hf : s.logFilter <;> cases directory <;>
    simp [pairs, hf, logFilterKey, logDirectoryKey, scriptExtensionKey, overwriteKey]

/-- The pairs of settings are read as those settings. -/
theorem ofEntries?_pairs (s : Settings) (directory : Option String) :
    ofEntries? (s.pairs directory) =
      some { s with logDirectory := directory.map FilePath.ofText } := by
  obtain ⟨logFilter, logDirectory, extension, overwrite⟩ := s
  cases logFilter <;> cases directory <;> rfl

theorem skipByteOrderMark_lines (s : Settings) (directory : Option String) :
    skipByteOrderMark (s.lines directory).flatten = (s.lines directory).flatten := by
  cases hf : s.logFilter <;> cases directory <;> simp only [lines, hf] <;> rfl

variable {s : Settings} {directory : Option String}

/-- A document of settings is its lines one after another. -/
theorem write_eq (h : s.logDirectory = directory.map .ofText) :
    s.write = .ok (.ofList (s.lines directory).flatten) := by
  obtain ⟨logFilter, logDirectory, extension, overwrite⟩ := s
  simp only at h
  subst h
  cases logFilter <;> cases directory <;> simp [write, lines]

/-- Everything that was written is read, and then the extension is looked at. -/
theorem parse_lines (h : s.logDirectory = directory.map .ofText) :
    parse (.ofList (s.lines directory).flatten) =
      if isBareExtension s.scriptExtension then .ok s
      else .error (.badExtension s.scriptExtension) := by
  have hentries : Entries.ofText? (.ofList (s.lines directory).flatten) =
      some (s.pairs directory) := by
    have htaken : ((s.pairs directory).map fun p => Line.pair ⟨[], p.1⟩ p.2).foldlM Draft.take
        ⟨[], []⟩ = some ⟨s.pairs directory, []⟩ :=
      Draft.foldlM_take_pairs (s.nodup_pairs directory)
    rw [Entries.ofText?, String.toList_ofList, skipByteOrderMark_lines,
      readLines_flatten (s.forall₂_lines directory)]
    simp [htaken]
  have hsettings : ofEntries? (s.pairs directory) = some s := by
    rw [ofEntries?_pairs, ← h]
  rw [parse, hentries, Option.bind_some, hsettings]

/-- Settings whose directory for logs is a text, if there is one, are written. A save succeeds in just the
trees that take that text, and then the text stands in the file. It gives the same settings again just if
their extension is one, and is refused for its extension alone otherwise. -/
theorem parse_write_iff (s : Settings) (hdirectory : ∀ path ∈ s.logDirectory, path.text?.isSome) :
    ∃ text, s.write = .ok text ∧
      (∀ (t t' : FileTree) (path : FilePath),
        (t.after (s.save path) = (.ok (), t') ↔ t.Admits path text t') ∧
        (t.after (s.save path) = (.ok (), t') → t'.readBytes path = .ok (Utf8.encode text))) ∧
      (parse text = .ok s ↔ s.scriptExtension ≠ "" ∧ '/' ∉ s.scriptExtension.toList ∧
        '\\' ∉ s.scriptExtension.toList ∧ '.' ∉ s.scriptExtension.toList) ∧
      (parse text = .ok s ∨ parse text = .error (.badExtension s.scriptExtension)) := by
  obtain ⟨directory, hd⟩ : ∃ directory : Option String, s.logDirectory = directory.map .ofText := by
    cases hp : s.logDirectory with
    | none => exact ⟨none, rfl⟩
    | some path =>
      obtain ⟨text, htext⟩ := Option.isSome_iff_exists.mp (hdirectory path hp)
      exact ⟨some text, congrArg some (FilePath.text?_eq_some_iff.mp htext)⟩
  have hparse := parse_lines hd
  refine ⟨_, write_eq hd, fun t t' path => ?_, ?_, ?_⟩
  · have hsave : t.after (s.save path) = (.ok (), t') ↔ t.Admits path _ t' :=
      after_save_eq_ok_iff (write_eq hd)
    exact ⟨hsave, fun h => (hsave.mp h).readBytes⟩
  · rw [← isBareExtension_iff, hparse]
    cases isBareExtension s.scriptExtension <;> simp
  · rw [hparse]
    cases isBareExtension s.scriptExtension
    · exact .inr rfl
    · exact .inl rfl

/-- Settings full of what a text over several lines or on one must not hold as it is. -/
def knottySettings (extension : String) : Settings :=
  ⟨some "\"\"\"a'''=\r\nb\\\"\n", some (.ofText "'logs'''\t"), extension, true⟩

theorem knottySettings_parse :
    (∀ extension, ∀ path ∈ (knottySettings extension).logDirectory, path.text?.isSome) ∧
    (∃ text t', (knottySettings "v'\"\"\"\n").write = .ok text ∧
      FileTree.shelf.after ((knottySettings "v'\"\"\"\n").save (.ofText "work/c.toml")) = (.ok (), t') ∧
      t'.readBytes (.ofText "work/c.toml") = .ok (Utf8.encode text) ∧
      parse text = .ok (knottySettings "v'\"\"\"\n")) ∧
    ∃ text, (knottySettings "tar.gz").write = .ok text ∧
      parse text = .error (.badExtension "tar.gz") := by
  have hdirectory : ∀ extension, ∀ path ∈ (knottySettings extension).logDirectory,
      path.text?.isSome := by
    intro extension path hpath
    obtain rfl := Option.some.inj hpath
    rw [FilePath.text?_ofText]
    rfl
  obtain ⟨text, hwrite, hsaved, hbare, -⟩ := parse_write_iff _ (hdirectory "v'\"\"\"\n")
  obtain ⟨text', hwrite', -, hbare', hread'⟩ := parse_write_iff _ (hdirectory "tar.gz")
  have hparent : FileTree.shelf.HasParent (.ofText "work/c.toml") :=
    FileTree.shelf_hasParent (by decide +kernel)
  have hfind : FileTree.shelf.find (.ofText "work/c.toml") =
      .ok [Utf8.encode "work", Utf8.encode "c.toml"] := by decide +kernel
  have hadmits := hparent.admits hfind (by decide +kernel) (by decide +kernel) (by decide +kernel) text
  obtain ⟨hsave, hread⟩ := hsaved _ _ (.ofText "work/c.toml")
  have hdone := hsave.mpr hadmits
  refine ⟨hdirectory, ⟨text, _, hwrite, hdone, hread hdone, hbare.mpr ?_⟩, text', hwrite',
    hread'.resolve_left ?_⟩
  · simp [knottySettings]
  · rw [hbare']
    simp [knottySettings]

end Settings
end ClipGraph
