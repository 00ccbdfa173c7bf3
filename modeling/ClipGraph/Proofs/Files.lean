import ClipGraph.FileTree
import ClipGraph.Proofs.Results

/-!
# Files that are read again

A path leads to a file through directories only, and a file that is written replaces no directory. So
after writing the path still leads to the same place, and what is read there is what was written. An
action on a tree has an answer and leaves a tree behind, and one that only reads leaves the same tree.
-/

namespace ClipGraph.FileTree

variable {t : FileTree} {place : Location}

theorem at?_put_self (content : Content) (h : place ≠ []) :
    (t.put place content).at? place = some content := by
  simp [at?, put, h]

theorem lookup_filter_ne {other : Location} (h : other ≠ place)
    (entries : List (Location × Content)) :
    (entries.filter (·.1 ≠ place)).lookup other = entries.lookup other := by
  induction entries with
  | nil => rfl
  | cons e rest ih =>
    obtain ⟨key, content⟩ := e
    by_cases hkey : key = place
    · have hother : (other == key) = false := by simpa [hkey] using h
      rw [List.filter_cons_of_neg (by simp [hkey]), ih, List.lookup_cons, hother]
    · rw [List.filter_cons_of_pos (by simp [hkey]), List.lookup_cons, List.lookup_cons, ih]

theorem at?_put_of_ne (content : Content) {other : Location} (h : other ≠ place) :
    (t.put place content).at? other = t.at? other := by
  have hother : (other == place) = false := beq_eq_false_iff_ne.mpr h
  rw [at?, at?, put]
  simp only [List.lookup_cons, hother, lookup_filter_ne h]

/-- All that one step can do: it leads on from a directory, to where its part says. -/
theorem step_eq_ok_iff {start next : Location} {part : FilePath.Part} :
    t.step start part = .ok next ↔ t.at? start = some .directory ∧
      match part with
      | .root => next = []
      | .current => next = start
      | .parent => next = start.dropLast
      | .name bytes => bytes.length ≤ nameLimit ∧ next = start ++ [bytes] := by
  unfold step
  rcases t.at? start with _ | bytes | _
  · simp
  · simp
  · cases part with
    | name bytes =>
      by_cases hlimit : nameLimit < bytes.length
      · simp [hlimit, Nat.not_le.mpr hlimit]
      · simp [hlimit, Nat.not_lt.mp hlimit, eq_comm]
    | _ => simp [eq_comm]

/-- A path that is no text for the system leads nowhere, any other one as far as its parts lead. -/
theorem find_eq_ok_iff {path : FilePath} {place : Location} :
    t.find path = .ok place ↔ (0 ∉ path.bytes ∧ path.bytes ≠ [] ∧ path.bytes.length < pathLimit) ∧
      path.parts.foldlM t.step t.home = .ok place := by
  rw [find]
  by_cases hzero : 0 ∈ path.bytes
  · simp [hzero]
  by_cases hempty : path.bytes = []
  · simp [hempty]
  by_cases hlimit : path.bytes.length < pathLimit
  · simp [hzero, hempty, hlimit, Nat.not_le.mpr hlimit]
  · simp [hzero, hempty, hlimit, Nat.not_lt.mp hlimit]

/-- Paths lead where they did before as long as no directory is gone. -/
theorem find_of_keeps {t' : FileTree} {path : FilePath} {found : Location} (hhome : t'.home = t.home)
    (hkeeps : ∀ place, t.at? place = some .directory → t'.at? place = some .directory)
    (h : t.find path = .ok found) : t'.find path = .ok found := by
  have hsteps : ∀ (parts : List FilePath.Part) (start : Location),
      parts.foldlM t.step start = .ok found → parts.foldlM t'.step start = .ok found := by
    intro parts
    induction parts with
    | nil => exact fun _ => id
    | cons part rest ih =>
      intro start hstart
      rw [List.foldlM_cons, bind_eq_ok_iff] at hstart ⊢
      obtain ⟨next, hnext, hrest⟩ := hstart
      obtain ⟨hdirectory, hpart⟩ := step_eq_ok_iff.mp hnext
      exact ⟨next, step_eq_ok_iff.mpr ⟨hkeeps _ hdirectory, hpart⟩, ih next hrest⟩
  rw [find_eq_ok_iff] at h ⊢
  rw [hhome]
  exact ⟨h.1, hsteps _ _ h.2⟩

/-- Where no directory is put a file in place of, the directories stay the same. -/
theorem isDirectory_put_file (bytes : List UInt8) {other : Location}
    (h : t.at? place ≠ some .directory) :
    (t.put place (.file bytes)).at? other = some .directory ↔ t.at? other = some .directory := by
  by_cases hother : other = place
  · subst hother
    have hplace : other ≠ [] := by
      rintro rfl
      exact h rfl
    simp [at?_put_self _ hplace, h]
  · rw [at?_put_of_ne _ hother]

/-- Paths lead where they did before, if a file is put where no directory is. -/
theorem find_put_file (bytes : List UInt8) {path : FilePath} {found : Location}
    (h : t.at? place ≠ some .directory) :
    (t.put place (.file bytes)).find path = .ok found ↔ t.find path = .ok found :=
  ⟨find_of_keeps rfl fun _ => (isDirectory_put_file bytes h).mp,
    find_of_keeps rfl fun _ => (isDirectory_put_file bytes h).mpr⟩

theorem contentAt_eq_ok_iff {path : FilePath} {content : Content} :
    t.contentAt path = .ok content ↔ ∃ place, t.find path = .ok place ∧
      t.at? place = some content ∧ (content = .directory ∨ path.namesDirectory = false) := by
  rw [contentAt, bind_eq_ok_iff]
  refine exists_congr fun place => and_congr_right fun _ => ?_
  rcases t.at? place with _ | bytes | _
  · simp
  · cases path.namesDirectory
    · simp
    · simp only [if_true, reduceCtorEq, Option.some.injEq, Bool.true_eq_false, or_false, false_iff]
      rintro ⟨rfl, h⟩
      cases h
  · simp only [Except.ok.injEq, Option.some.injEq, iff_self_and]
    exact fun h => .inl h.symm

/-- A file is read just if its path leads to it. -/
theorem readBytes_eq_ok_iff {path : FilePath} {bytes : List UInt8} :
    t.readBytes path = .ok bytes ↔ t.contentAt path = .ok (.file bytes) := by
  rw [readBytes, bind_eq_ok_iff]
  constructor
  · rintro ⟨content, hcontent, hbytes⟩
    cases content with
    | file other =>
      rw [hcontent, Except.ok.inj hbytes]
    | directory => cases hbytes
  · intro hcontent
    exact ⟨_, hcontent, rfl⟩

/-- Bytes are written wherever a path leads to no directory and does not end like one. -/
theorem writeBytes_eq_ok_iff {t' : FileTree} {path : FilePath} {bytes : List UInt8} :
    t.writeBytes path bytes = .ok t' ↔ ∃ place, t.find path = .ok place ∧
      t.at? place ≠ some .directory ∧ path.endsInDot = false ∧ path.namesDirectory = false ∧
      t' = t.put place (.file bytes) := by
  rw [writeBytes, bind_eq_ok_iff]
  refine exists_congr fun place => and_congr_right fun _ => ?_
  split
  · next hdirectory => simp [hdirectory]
  · next hother =>
    have hne : t.at? place ≠ some .directory := hother
    cases path.endsInDot <;> cases path.namesDirectory <;> simp [hne, eq_comm (a := t')]

/-- Just the file that a path leads to is another one than before. -/
structure Replaced (t : FileTree) (path : FilePath) (bytes : List UInt8) (t' : FileTree) : Prop where
  content : t'.readBytes path = .ok bytes
  home : t'.home = t.home
  places : ∃ place, t.find path = .ok place ∧ ∀ other, other ≠ place → t'.at? other = t.at? other
  paths : ∀ other, t.find other ≠ t.find path →
    ∀ content, t'.contentAt other = .ok content ↔ t.contentAt other = .ok content

/-- Writing a file replaces it and nothing else. -/
theorem replaced_of_writeBytes {t' : FileTree} {path : FilePath} {bytes : List UInt8}
    (h : t.writeBytes path bytes = .ok t') : t.Replaced path bytes t' := by
  obtain ⟨place, hfind, hplace, -, hnames, rfl⟩ := writeBytes_eq_ok_iff.mp h
  have hroot : place ≠ [] := by
    rintro rfl
    exact hplace rfl
  refine ⟨?_, rfl, ⟨place, hfind, fun other => at?_put_of_ne _⟩, ?_⟩
  · rw [readBytes_eq_ok_iff, contentAt_eq_ok_iff]
    exact ⟨place, (find_put_file bytes hplace).mpr hfind, at?_put_self _ hroot, .inr hnames⟩
  · intro other hother content
    simp only [contentAt_eq_ok_iff, find_put_file bytes hplace]
    refine exists_congr fun found => and_congr_right fun hfound => ?_
    have hne : found ≠ place := by
      rintro rfl
      exact hother (hfound.trans hfind.symm)
    rw [at?_put_of_ne _ hne]

/-- What an action answers in a tree, and the tree after it. -/
def after {α : Type} (t : FileTree) (action : StateM FileTree α) : α × FileTree :=
  Id.run (action.run t)

def ReadOnly {α : Type} (action : StateM FileTree α) : Prop := ∀ t : FileTree, (t.after action).2 = t

/-- An action that leaves a tree as it was if it fails. -/
def CleanFailure {ε α : Type} (action : StateM FileTree (Except ε α)) : Prop :=
  ∀ (t : FileTree) (fault : ε), (t.after action).1 = .error fault → (t.after action).2 = t

variable {α β ε : Type}

@[simp] theorem after_pure (t : FileTree) (a : α) : t.after (pure a) = (a, t) := rfl

/-- What one action after another comes to in a tree. -/
theorem after_bind (t : FileTree) (action : StateM FileTree α) (next : α → StateM FileTree β) :
    t.after (action >>= next) = (t.after action).2.after (next (t.after action).1) := rfl

theorem ReadOnly.after_eq {action : StateM FileTree α} (h : ReadOnly action) (t : FileTree) :
    t.after action = ((t.after action).1, t) := Prod.ext rfl (h t)

theorem ReadOnly.after_bind {action : StateM FileTree α} (h : ReadOnly action) (t : FileTree)
    (next : α → StateM FileTree β) : t.after (action >>= next) = t.after (next (t.after action).1) := by
  rw [FileTree.after_bind, h t]

theorem readOnly_pure (a : α) : ReadOnly (pure a) := fun _ => rfl

/-- Reading and then reading is only reading. -/
theorem ReadOnly.bind {action : StateM FileTree α} {next : α → StateM FileTree β}
    (h : ReadOnly action) (hnext : ∀ a, ReadOnly (next a)) : ReadOnly (action >>= next) := by
  intro t
  rw [h.after_bind, hnext]

theorem ReadOnly.cleanFailure {action : StateM FileTree (Except ε α)} (h : ReadOnly action) :
    CleanFailure action := fun t _ _ => h t

/-- Reading may come in front of whatever fails without leaving anything behind. -/
theorem CleanFailure.bind {action : StateM FileTree α} {next : α → StateM FileTree (Except ε β)}
    (h : ReadOnly action) (hnext : ∀ a, CleanFailure (next a)) : CleanFailure (action >>= next) := by
  intro t fault
  rw [h.after_bind]
  exact hnext _ t fault

theorem readOnly_get : ReadOnly (get : StateM FileTree FileTree) := fun _ => rfl

theorem readOnly_readText (path : FilePath) :
    ReadOnly (Disk.readText path : StateM FileTree _) := by
  refine readOnly_get.bind fun t => ?_
  split
  · exact readOnly_pure _
  · split <;> exact readOnly_pure _

theorem readOnly_pathExists (path : FilePath) :
    ReadOnly (Disk.pathExists path : StateM FileTree _) := fun _ => rfl

theorem after_writeText (t : FileTree) (path : FilePath) (text : String) :
    t.after (Disk.writeText path text) = match t.writeBytes path (Utf8.encode text) with
      | .error cause => (.error cause, t)
      | .ok t' => (.ok (), t') := by
  cases hbytes : t.writeBytes path (Utf8.encode text) <;> simp [after, Disk.writeText, hbytes]

end ClipGraph.FileTree
