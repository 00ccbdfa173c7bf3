import ClipGraph.Project.File
import ClipGraph.Proofs.Files
import ClipGraph.Settings

/-!
# What a save leaves behind

A save makes the directory of its target, then it has the text, and then it writes. The text may be
refused and so may the write, but the directory is there by then. So a save that fails has touched no
file and taken nothing away, and what it may have made are the directories that its target lies in.
-/

namespace ClipGraph

/-- The chain of a path starts with the path. -/
theorem FilePath.exists_chain (path : FilePath) : ∃ rest, path.chain = path :: rest := by
  rw [chain]
  split
  · exact ⟨_, rfl⟩
  · split <;> exact ⟨_, rfl⟩

namespace FileTree

variable {t t' t'' : FileTree} {path : FilePath} {paths more : List FilePath} {place : Location}

/-- A tree that has only got directories, where nothing was and some of the paths lead. -/
structure Grown (t : FileTree) (paths : List FilePath) (t' : FileTree) : Prop where
  home : t'.home = t.home
  keeps : ∀ place content, t.at? place = some content → t'.at? place = some content
  makes : ∀ place, t.at? place = none → t'.at? place = none ∨
    t'.at? place = some .directory ∧ ∃ path ∈ paths, t'.find path = .ok place

/-- What was found in a tree is found in the same place once it has grown. -/
theorem Grown.find (h : t.Grown paths t') (hfind : t.find path = .ok place) :
    t'.find path = .ok place :=
  find_of_keeps h.home (fun place => h.keeps place .directory) hfind

theorem Grown.refl (t : FileTree) (paths : List FilePath) : t.Grown paths t where
  home := rfl
  keeps _ _ h := h
  makes _ h := .inl h

theorem Grown.mono (h : t.Grown paths t') (hsubset : paths ⊆ more) : t.Grown more t' where
  home := h.home
  keeps := h.keeps
  makes place hnone := (h.makes place hnone).imp_right fun ⟨hat, path, hpath, hfind⟩ =>
    ⟨hat, path, hsubset hpath, hfind⟩

theorem Grown.trans (h : t.Grown paths t') (h' : t'.Grown paths t'') : t.Grown paths t'' where
  home := h'.home.trans h.home
  keeps place content hat := h'.keeps place content (h.keeps place content hat)
  makes place hnone := by
    rcases h.makes place hnone with hnone' | ⟨hat, path, hpath, hfind⟩
    · exact h'.makes place hnone'
    · exact .inr ⟨h'.keeps _ _ hat, path, hpath, h'.find hfind⟩

/-- All that making one directory can do. -/
theorem makeDirectory_eq_ok_iff : t.makeDirectory path = .ok t' ↔ ∃ place,
    t.find path = .ok place ∧ t.at? place = none ∧ path.endsInDot = false ∧
      t' = t.put place .directory := by
  rw [makeDirectory, bind_eq_ok_iff]
  refine exists_congr fun place => and_congr_right fun _ => ?_
  rcases t.at? place with _ | bytes | _
  · cases path.endsInDot <;> simp [eq_comm (a := t')]
  · cases path.endsInDot <;> simp
  · simp

theorem grown_makeDirectory (h : t.makeDirectory path = .ok t') : t.Grown [path] t' := by
  obtain ⟨place, hfind, hnone, -, rfl⟩ := makeDirectory_eq_ok_iff.mp h
  have hroot : place ≠ [] := by
    rintro rfl
    cases hnone
  have hkeeps : ∀ other content, t.at? other = some content →
      (t.put place .directory).at? other = some content := by
    intro other content hat
    have hother : other ≠ place := by
      rintro rfl
      rw [hnone] at hat
      cases hat
    rw [at?_put_of_ne _ hother, hat]
  refine ⟨rfl, hkeeps, fun other hother => ?_⟩
  by_cases hplace : other = place
  · subst hplace
    refine .inr ⟨at?_put_self _ hroot, path, List.mem_singleton_self path, ?_⟩
    exact find_of_keeps (t := t) rfl (fun place => hkeeps place .directory) hfind
  · exact .inl (by rw [at?_put_of_ne _ hplace, hother])

/-- Making directories along a chain makes some of them and nothing else, even if it fails. -/
theorem grown_makeChain (t : FileTree) (chain : List FilePath) :
    t.Grown chain (t.makeChain chain).1 := by
  induction chain with
  | nil => exact .refl t []
  | cons path rest ih =>
    have hone : ∀ {t t' : FileTree}, t.makeDirectory path = .ok t' → t.Grown (path :: rest) t' :=
      fun h => (grown_makeDirectory h).mono (List.cons_subset_cons path (List.nil_subset rest))
    have hrest : t.Grown (path :: rest) (t.makeChain rest).1 := ih.mono (List.subset_cons_self path rest)
    rw [makeChain]
    split
    · exact .refl t _
    split
    · next h => exact hone h
    · split
      · next hchain =>
        rw [hchain] at hrest
        exact hrest
      · next hchain =>
        rw [hchain] at hrest
        split
        · next h => exact hrest.trans (hone h)
        · exact hrest
    · exact .refl t _

theorem makeDirectories_of_empty (h : path.bytes = []) : t.makeDirectories path = (t, .ok ()) := by
  obtain ⟨rest, hchain⟩ := path.exists_chain
  rw [makeDirectories, hchain, makeChain, if_pos h]

/-- A directory that is there is not made again. -/
theorem makeDirectories_of_isDirectory (h : t.isDirectory path = true) :
    t.makeDirectories path = (t, .ok ()) := by
  have hcontent : t.contentAt path = .ok .directory := by
    rw [isDirectory] at h
    split at h
    · assumption
    · cases h
  obtain ⟨place, hfind, hat, -⟩ := contentAt_eq_ok_iff.mp hcontent
  have hmade : t.makeDirectory path = .error .exists := by
    rw [makeDirectory, hfind, ok_bind, hat]
  obtain ⟨rest, hchain⟩ := path.exists_chain
  rw [makeDirectories, hchain, makeChain]
  simp only [hmade, h, if_true]
  split <;> rfl

end FileTree

/-- The directory that a path lies in and those that it lies in itself, nearest first. -/
def FilePath.above (path : FilePath) : List FilePath :=
  match path.parent? with
  | none => []
  | some parent => parent.chain

namespace FileTree

variable {t t' : FileTree} {path : FilePath}

/-- Making the directory of a path is making its parent and the directories around that. -/
theorem after_makeParent (t : FileTree) (path : FilePath) :
    t.after (Disk.makeParent path) = match path.parent? with
      | none => (.ok (), t)
      | some parent => ((t.makeDirectories parent).2, (t.makeDirectories parent).1) := by
  unfold Disk.makeParent
  cases path.parent? <;> rfl

theorem grown_makeParent (t : FileTree) (path : FilePath) :
    t.Grown path.above (t.after (Disk.makeParent path)).2 := by
  rw [after_makeParent, FilePath.above]
  cases path.parent? with
  | none => exact .refl t []
  | some parent => exact grown_makeChain t parent.chain

/-- A path lies in a directory that is there, if it lies in one at all. -/
def HasParent (t : FileTree) (path : FilePath) : Prop :=
  ∀ parent, path.parent? = some parent → parent.bytes = [] ∨ t.isDirectory parent = true

theorem HasParent.after_makeParent (h : t.HasParent path) :
    t.after (Disk.makeParent path) = (.ok (), t) := by
  rw [FileTree.after_makeParent]
  cases hparent : path.parent? with
  | none => rfl
  | some parent =>
    have hmade : t.makeDirectories parent = (t, .ok ()) := by
      rcases h parent hparent with hempty | hthere
      · exact makeDirectories_of_empty hempty
      · exact makeDirectories_of_isDirectory hthere
    simp only [hmade]

/-- Makes the directory of a path and puts a text there, if there is one. -/
def store (role : FileRole) (text : Except Failure String) (path : FilePath) :
    StateM FileTree (Except Failure Unit) := do
  match ← Disk.makeParent path with
  | .error cause => return .error (.config (.noDirectory role cause))
  | .ok () =>
    match text with
    | .error failure => return .error failure
    | .ok text =>
      match ← Disk.writeText path text with
      | .error cause => return .error (.config (.unwritable role path cause))
      | .ok () => return .ok ()

/-- What storing a text comes to: the directory is refused, or it is there and then the text is
missing, refused or stored. -/
theorem after_store (t : FileTree) (role : FileRole) (text : Except Failure String)
    (path : FilePath) : t.after (store role text path) =
      match t.after (Disk.makeParent path) with
      | (.error cause, made) => (.error (.config (.noDirectory role cause)), made)
      | (.ok _, made) => match text with
        | .error failure => (.error failure, made)
        | .ok text => match made.writeBytes path (Utf8.encode text) with
          | .error cause => (.error (.config (.unwritable role path cause)), made)
          | .ok t' => (.ok (), t') := by
  unfold store
  rw [after_bind]
  rcases t.after (Disk.makeParent path) with ⟨_ | _, made⟩
  · rfl
  · cases text with
    | error failure => rfl
    | ok text =>
      simp only [after_bind, after_writeText]
      cases made.writeBytes path (Utf8.encode text) <;> rfl

/-- A tree that takes a text at a path once the directory is there, and the tree after that. -/
def Admits (t : FileTree) (path : FilePath) (text : String) (t' : FileTree) : Prop :=
  ∃ made, t.after (Disk.makeParent path) = (.ok (), made) ∧
    made.writeBytes path (Utf8.encode text) = .ok t'

/-- What has been admitted is read back. -/
theorem Admits.readBytes {text : String} (h : t.Admits path text t') :
    t'.readBytes path = .ok (Utf8.encode text) := by
  obtain ⟨made, -, hbytes⟩ := h
  exact (replaced_of_writeBytes hbytes).content

/-- A directory that is there takes any text, wherever no directory is in the way. -/
theorem HasParent.admits {place : Location} (h : t.HasParent path) (hfind : t.find path = .ok place)
    (hplace : t.at? place ≠ some .directory) (hdot : path.endsInDot = false)
    (hname : path.namesDirectory = false) (text : String) :
    t.Admits path text (t.put place (.file (Utf8.encode text))) :=
  ⟨t, h.after_makeParent, writeBytes_eq_ok_iff.mpr ⟨place, hfind, hplace, hdot, hname, rfl⟩⟩

/-- A text is stored in just the trees that take it. -/
theorem after_store_eq_ok_iff {role : FileRole} {text : String} :
    t.after (store role (.ok text) path) = (.ok (), t') ↔ t.Admits path text t' := by
  rw [after_store, Admits]
  rcases t.after (Disk.makeParent path) with ⟨cause | _, made⟩
  · simp
  · cases hbytes : made.writeBytes path (Utf8.encode text) <;> simp [hbytes]

/-- A text that is not stored was refused by the disk. -/
theorem cause_of_after_store {role : FileRole} {text : String} {failure : Failure}
    (h : t.after (store role (.ok text) path) = (.error failure, t')) :
    (∃ cause, failure = .config (.noDirectory role cause)) ∨
      ∃ cause, failure = .config (.unwritable role path cause) := by
  rw [after_store] at h
  split at h
  · next cause made _ => exact .inl ⟨cause, (Except.error.inj (Prod.mk.inj h).1).symm⟩
  · dsimp only at h
    split at h
    · next cause _ => exact .inr ⟨cause, (Except.error.inj (Prod.mk.inj h).1).symm⟩
    · cases (Prod.mk.inj h).1

/-- A tree that a failed attempt to store something at a path has left behind. -/
structure LeftBehind (t : FileTree) (path : FilePath) (t' : FileTree) : Prop where
  grown : t.Grown path.above t'
  made : t' = (t.after (Disk.makeParent path)).2
  unchanged : t.HasParent path → t' = t

/-- A failed attempt to store makes directories at most. -/
theorem leftBehind_store {role : FileRole} {text : Except Failure String} {failure : Failure}
    (h : t.after (store role text path) = (.error failure, t')) : t.LeftBehind path t' := by
  have hmade : t' = (t.after (Disk.makeParent path)).2 := by
    rw [after_store] at h
    generalize t.after (Disk.makeParent path) = made at h ⊢
    split at h
    · exact (Prod.mk.inj h).2.symm
    split at h
    · exact (Prod.mk.inj h).2.symm
    split at h
    · exact (Prod.mk.inj h).2.symm
    · cases (Prod.mk.inj h).1
  refine ⟨?_, hmade, fun hparent => ?_⟩
  · rw [hmade]
    exact grown_makeParent t path
  · rw [hmade, hparent.after_makeParent]

end FileTree

theorem Project.save_eq_store (p : Project) (path : FilePath) : (p.save path : StateM FileTree _) =
    FileTree.store .project (p.write.mapError fun fault => .document (.json fault)) path := by
  unfold save FileTree.store
  cases p.write <;> rfl

theorem Settings.save_eq_store (s : Settings) (path : FilePath) : (s.save path : StateM FileTree _) =
    FileTree.store .config (s.write.mapError .config) path := by
  unfold save FileTree.store
  cases s.write <;> rfl

section Written

variable {t t' : FileTree} {path : FilePath} {text : String} {failure : Failure}

/-- A project that has a text is saved in just the trees that take that text. -/
theorem Project.after_save_eq_ok_iff {p : Project} (h : p.write = .ok text) :
    t.after (p.save path) = (.ok (), t') ↔ t.Admits path text t' := by
  rw [p.save_eq_store path, h]
  exact FileTree.after_store_eq_ok_iff

/-- Saving a project that can be written fails for its directory or its file only. -/
theorem Project.cause_of_save {p : Project} (h : p.write = .ok text)
    (hsave : t.after (p.save path) = (.error failure, t')) :
    (∃ cause, failure = .config (.noDirectory .project cause)) ∨
      ∃ cause, failure = .config (.unwritable .project path cause) := by
  rw [p.save_eq_store path, h] at hsave
  exact FileTree.cause_of_after_store hsave

/-- Settings that have a text are saved in just the trees that take that text. -/
theorem Settings.after_save_eq_ok_iff {s : Settings} (h : s.write = .ok text) :
    t.after (s.save path) = (.ok (), t') ↔ t.Admits path text t' := by
  rw [s.save_eq_store path, h]
  exact FileTree.after_store_eq_ok_iff

end Written

namespace FileTree

/-- A save that fails, whatever it is that fails, leaves what making the directory of its target has made
of the tree. So every file and every directory is still as it was, only directories that the target lies
in can have been made, and nothing has been if the target lies in a directory that was there. -/
theorem leftBehind_of_failed_save (t : FileTree) (path : FilePath) :
    (∀ (p : Project) failure t', t.after (p.save path) = (.error failure, t') → t.LeftBehind path t') ∧
    ∀ (s : Settings) failure t', t.after (s.save path) = (.error failure, t') → t.LeftBehind path t' := by
  constructor
  · intro p failure t' hsave
    rw [p.save_eq_store path] at hsave
    exact leftBehind_store hsave
  · intro s failure t' hsave
    rw [s.save_eq_store path] at hsave
    exact leftBehind_store hsave

/-- A tree with a directory and a file in it. -/
def shelf : FileTree :=
  ⟨[], [([Utf8.encode "work"], .directory), ([Utf8.encode "work", Utf8.encode "p.json"], .file [])]⟩

theorem shelf_hasParent {path : FilePath} (h : path.parent? = some (.ofText "work")) :
    shelf.HasParent path := by
  intro parent hparent
  obtain rfl := Option.some.inj (h.symm.trans hparent)
  exact .inr (by decide +kernel)

/-- Settings whose directory for logs is no text. -/
def unwritableSettings : Settings := { Settings.standard with logDirectory := some ⟨[0xff]⟩ }

/-- One save is refused by its path, which leaves a directory behind, and one by its settings. -/
theorem shelf_leftBehind :
    (∃ t', shelf.after ((Project.new "cut").save (.ofText "new/sub/..")) =
        (.error (.config (.unwritable .project (.ofText "new/sub/..") .isDirectory)), t') ∧
      shelf.LeftBehind (.ofText "new/sub/..") t') ∧
    shelf.after (unwritableSettings.save (.ofText "work/c.toml")) =
      (.error (.config .unwritableLogDir), shelf) := by
  have hproject : (shelf.after ((Project.new "cut").save (.ofText "new/sub/.."))).1 =
      .error (.config (.unwritable .project (.ofText "new/sub/..") .isDirectory)) := by
    decide +kernel
  have hsettings : (shelf.after (unwritableSettings.save (.ofText "work/c.toml"))).1 =
      .error (.config .unwritableLogDir) := by
    decide +kernel
  have hparent : shelf.HasParent (.ofText "work/c.toml") := shelf_hasParent (by decide +kernel)
  refine ⟨⟨_, Prod.ext hproject rfl, ?_⟩, Prod.ext hsettings ?_⟩
  · exact (leftBehind_of_failed_save shelf _).1 _ _ _ (Prod.ext hproject rfl)
  · exact ((leftBehind_of_failed_save shelf _).2 _ _ _ (Prod.ext hsettings rfl)).unchanged hparent

/-- Saves that fail and have changed something: one whose target turns out to be a directory, and one
that has no text to write. -/
theorem shelf_changed :
    (shelf.after ((Project.new "cut").save (.ofText "new/sub/.."))).1 =
      .error (.config (.unwritable .project (.ofText "new/sub/..") .isDirectory)) ∧
    (shelf.after (unwritableSettings.save (.ofText "new/c.toml"))).1 =
      .error (.config .unwritableLogDir) ∧
    shelf.hasPath (.ofText "new") = false ∧
    (shelf.after ((Project.new "cut").save (.ofText "new/sub/.."))).2.hasPath (.ofText "new") = true ∧
    (shelf.after (unwritableSettings.save (.ofText "new/c.toml"))).2.hasPath (.ofText "new") = true := by
  decide +kernel

end FileTree
end ClipGraph
