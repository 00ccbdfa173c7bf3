import Mathlib
import ClipGraph.FilePath

/-!
# Paths and their last pieces

A path is what stands before its last piece and that piece. Only the last piece decides the file name,
the extension and the last part, and a path with another extension has another last piece behind the
same directory.
-/

namespace ClipGraph.FilePath

variable {directory piece name extension : List UInt8} {p : FilePath}

/-- Bytes that a piece may follow: none, or such that end with a slash. -/
def IsDirectory (directory : List UInt8) : Prop :=
  directory = [] ∨ ∃ above, directory = above ++ [slash]

theorem beforeLastPiece_append_lastPiece (bytes : List UInt8) :
    beforeLastPiece bytes ++ lastPiece bytes = bytes := by
  rw [beforeLastPiece, lastPiece, ← List.reverse_append, List.takeWhile_append_dropWhile,
    List.reverse_reverse]

theorem slash_not_mem_lastPiece (bytes : List UInt8) : slash ∉ lastPiece bytes := by
  intro h
  rw [lastPiece, List.mem_reverse] at h
  simpa using List.mem_takeWhile_imp h

theorem isDirectory_beforeLastPiece (bytes : List UInt8) : IsDirectory (beforeLastPiece bytes) := by
  rw [beforeLastPiece]
  cases h : bytes.reverse.dropWhile (· ≠ slash) with
  | nil => exact .inl rfl
  | cons b above =>
    have hb := List.head_dropWhile_not (p := fun b => decide (b ≠ slash)) (l := bytes.reverse)
      (by rw [h]; exact List.cons_ne_nil b above)
    simp only [h, List.head_cons, decide_eq_false_iff_not, not_not] at hb
    exact .inr ⟨above.reverse, by rw [List.reverse_cons, hb]⟩

/-- A piece behind a directory is the last piece. -/
theorem lastPiece_append (hd : IsDirectory directory) (hp : slash ∉ piece) :
    lastPiece (directory ++ piece) = piece ∧ beforeLastPiece (directory ++ piece) = directory := by
  have hrun : ∀ b ∈ piece.reverse, decide (b ≠ slash) = true := by
    intro b hb
    rw [decide_eq_true_eq]
    rintro rfl
    exact hp (List.mem_reverse.mp hb)
  rw [lastPiece, beforeLastPiece, List.reverse_append, List.takeWhile_append_of_pos hrun,
    List.dropWhile_append_of_pos hrun]
  rcases hd with rfl | ⟨above, rfl⟩ <;> simp

theorem pieces_ne_nil (bytes : List UInt8) : pieces bytes ≠ [] := by
  cases bytes with
  | nil => simp [pieces]
  | cons b rest =>
    simp only [pieces]
    split
    · simp
    · split <;> simp

theorem pieces_append_slash (above below : List UInt8) :
    pieces (above ++ slash :: below) = pieces above ++ pieces below := by
  induction above with
  | nil => simp [pieces]
  | cons b above ih =>
    rw [List.cons_append, pieces, pieces, ih]
    split
    · rfl
    · cases h : pieces above with
      | nil => exact absurd h (pieces_ne_nil above)
      | cons piece more => rfl

theorem pieces_of_not_mem (h : slash ∉ piece) : pieces piece = [piece] := by
  induction piece with
  | nil => rfl
  | cons b rest ih =>
    rw [List.mem_cons, not_or] at h
    rw [pieces, if_neg (Ne.symm h.1), ih h.2]

/-- The last piece adds the part that it stands for, if it is no dot. -/
theorem parts_append (hd : IsDirectory directory) (hp : slash ∉ piece) (hdot : piece ≠ [dot]) :
    parts ⟨directory ++ piece⟩ = parts ⟨directory⟩ ++ (partOf piece).toList := by
  have hpart : [piece].filterMap partOf = (partOf piece).toList := by
    cases h : partOf piece <;> simp [h]
  rcases hd with rfl | ⟨above, rfl⟩
  · have habsolute : isAbsolute ⟨piece⟩ = false := by
      cases piece with
      | nil => rfl
      | cons b rest =>
        rw [List.mem_cons, not_or] at hp
        simpa [isAbsolute] using Ne.symm hp.1
    have hempty : parts ⟨[]⟩ = [] := by decide
    rw [hempty, List.nil_append, List.nil_append, parts]
    simp only [pieces_of_not_mem hp, habsolute, hpart]
    simp [hdot]
  · have habsolute : isAbsolute ⟨above ++ slash :: piece⟩ = isAbsolute ⟨above ++ [slash]⟩ := by
      cases above <;> rfl
    have hhead : ∀ below, (pieces above ++ below).head? = (pieces above).head? := by
      intro below
      cases h : pieces above with
      | nil => exact absurd h (pieces_ne_nil above)
      | cons first more => rfl
    rw [List.append_assoc, List.singleton_append, parts, parts]
    simp only [habsolute, pieces_append_slash, pieces_of_not_mem hp, hhead, List.filterMap_append,
      hpart, List.append_assoc]
    rfl

/-- A byte behind the last part is taken off, and else nothing is. -/
theorem trimmedRev_cons (b : UInt8) (rest : List UInt8) :
    trimmedRev (b :: rest) = trimmedRev rest ∨ trimmedRev (b :: rest) = b :: rest := by
  rw [trimmedRev]
  split
  · exact .inl rfl
  split
  · exact .inl rfl
  · exact .inr rfl

theorem trimmedRev_suffix (bytes : List UInt8) : trimmedRev bytes <:+ bytes := by
  induction bytes with
  | nil => exact List.suffix_refl _
  | cons b rest ih =>
    rcases trimmedRev_cons b rest with h | h
    · rw [h]
      exact ih.trans (List.suffix_cons b rest)
    · rw [h]

/-- Nothing but a slash, or a dot behind one, is taken off the end of a path. -/
theorem trimmed_append (directory : List UInt8) (hp : slash ∉ piece) (hne : piece ≠ [])
    (hdot : piece ≠ [dot]) : trimmed (directory ++ piece) = directory ++ piece := by
  rcases List.eq_nil_or_concat' piece with rfl | ⟨front, b, rfl⟩
  · exact absurd rfl hne
  have hb : b ≠ slash := by
    rintro rfl
    exact hp (by simp)
  have hstays : ¬ (b = dot ∧ (front.reverse ++ directory.reverse).head? = some slash) := by
    rintro ⟨rfl, hhead⟩
    rcases List.eq_nil_or_concat' front with rfl | ⟨front, c, rfl⟩
    · exact hdot rfl
    · simp only [List.reverse_append, List.reverse_cons, List.reverse_nil, List.nil_append,
        List.cons_append, List.head?_cons, Option.some.injEq] at hhead
      exact hp (by simp [hhead])
  rw [trimmed, List.reverse_append, List.reverse_append, List.reverse_singleton,
    List.singleton_append, List.cons_append, trimmedRev, if_neg hb, if_neg hstays]
  simp

/-- Bytes that can name a file in a directory. -/
structure IsFileName (name : List UInt8) : Prop where
  slash : slash ∉ name
  nonempty : name ≠ []
  current : name ≠ [dot]
  parent : name ≠ [dot, dot]

/-- The file name of a path is its last piece. -/
theorem fileName?_append (hd : IsDirectory directory) (hn : IsFileName name) :
    fileName? ⟨directory ++ name⟩ = some name := by
  have hlast := (lastPiece_append hd hn.slash).1
  simp [fileName?, trimmed_append directory hn.slash hn.nonempty hn.current, hlast, hn.nonempty,
    hn.current, hn.parent]

/-- A path that ends in two dots has no file name. -/
theorem fileName?_parent (hd : IsDirectory directory) :
    fileName? ⟨directory ++ [dot, dot]⟩ = none := by
  have hslash : slash ∉ [dot, dot] := by decide
  simp [fileName?, trimmed_append directory hslash, (lastPiece_append hd hslash).1]

/-- A path with a file name is that name behind a directory. -/
theorem exists_directory_of_fileName? (h : p.fileName? = some name) :
    IsFileName name ∧ ∃ directory, IsDirectory directory ∧ trimmed p.bytes = directory ++ name := by
  simp only [fileName?] at h
  split at h
  · cases h
  · next hname =>
    simp only [not_or] at hname
    obtain rfl := Option.some.inj h
    exact ⟨⟨slash_not_mem_lastPiece _, hname.1, hname.2.1, hname.2.2⟩, _,
      isDirectory_beforeLastPiece _, (beforeLastPiece_append_lastPiece _).symm⟩

section Names

variable {stem old : List UInt8}

/-- A name has no dot, or it has a last one. -/
theorem exists_last_dot (name : List UInt8) :
    dot ∉ name ∨ ∃ stem old, name = stem ++ dot :: old ∧ dot ∉ old := by
  by_cases h : dot ∈ name
  · obtain ⟨behind, before, hname, hbehind⟩ := List.eq_append_cons_of_mem (List.mem_reverse.mpr h)
    refine .inr ⟨before.reverse, behind.reverse, ?_, by simpa using hbehind⟩
    simpa using congrArg List.reverse hname
  · exact .inl h

theorem takeWhile_ne_dot (h : dot ∉ old) (before : List UInt8) :
    (old.reverse ++ dot :: before).takeWhile (· ≠ dot) = old.reverse := by
  have hrun : ∀ b ∈ old.reverse, decide (b ≠ dot) = true := by
    intro b hb
    rw [decide_eq_true_eq]
    rintro rfl
    exact h (List.mem_reverse.mp hb)
  rw [List.takeWhile_append_of_pos hrun]
  simp

theorem splitName_of_not_mem (h : dot ∉ name) : splitName name = (name, none) := by
  have hrun : name.reverse.takeWhile (· ≠ dot) = name.reverse := by
    rw [List.takeWhile_eq_self_iff]
    intro b hb
    rw [decide_eq_true_eq]
    rintro rfl
    exact h (List.mem_reverse.mp hb)
  simp only [splitName, hrun, List.reverse_reverse, true_or, if_true]

theorem splitName_append (hs : stem ≠ []) (ho : dot ∉ old) :
    splitName (stem ++ dot :: old) = (stem, some old) := by
  have hreverse : (stem ++ dot :: old).reverse = old.reverse ++ dot :: stem.reverse := by simp
  have hlength : (stem ++ dot :: old).length - old.length - 1 = stem.length := by
    simp only [List.length_append, List.length_cons]
    omega
  have hlonger : old.length ≠ (stem ++ dot :: old).length := by
    simp only [List.length_append, List.length_cons]
    omega
  simp only [splitName, hreverse, takeWhile_ne_dot ho, List.reverse_reverse, hlength, hlonger,
    List.take_left, hs, or_self, if_false]

/-- A dot in front begins no extension. -/
theorem splitName_dot (ho : dot ∉ old) : splitName (dot :: old) = (dot :: old, none) := by
  have hreverse : (dot :: old).reverse = old.reverse ++ dot :: [] := by simp
  simp only [splitName, hreverse, takeWhile_ne_dot ho, List.reverse_reverse]
  simp

end Names

/-- The last piece of a path with another extension. A stem that is a dot leaves a piece without a
file name behind, once the old extension is gone, and there the new one is not put on. -/
def renamed (name extension : List UInt8) : List UInt8 :=
  match splitName name with
  | (stem, none) => stem ++ dot :: extension
  | (stem, some _) => if stem = [dot] then [dot, dot] else stem ++ dot :: extension

/-- A new extension is put behind the stem, in the same directory. -/
theorem setExtension_append (hd : IsDirectory directory) (hn : IsFileName name)
    (he : extension ≠ []) : setExtension ⟨directory ++ name⟩ extension =
      ⟨directory ++ ((splitName name).1 ++ dot :: extension)⟩ := by
  rw [setExtension, fileName?_append hd hn]
  simp only [trimmed_append directory hn.slash hn.nonempty hn.current, (lastPiece_append hd hn.slash).2,
    he, if_false, List.append_assoc]

/-- Another extension takes the place of the old one, in the same directory. -/
theorem withExtension_append (hd : IsDirectory directory) (hn : IsFileName name)
    (he : extension ≠ []) :
    withExtension ⟨directory ++ name⟩ extension = ⟨directory ++ renamed name extension⟩ := by
  rw [withExtension, extension?, fileName?_append hd hn, Option.bind_some]
  rcases exists_last_dot name with hdot | ⟨stem, old, rfl, ho⟩
  · rw [renamed, splitName_of_not_mem hdot]
    simp only [setExtension_append hd hn he, splitName_of_not_mem hdot]
  · by_cases hs : stem = []
    · subst hs
      rw [List.nil_append] at hn ⊢
      rw [renamed, splitName_dot ho]
      simp only [setExtension_append hd hn he, splitName_dot ho]
    · have htake : (directory ++ (stem ++ dot :: old)).take
          ((directory ++ (stem ++ dot :: old)).length - old.length) =
            directory ++ (stem ++ [dot]) := by
        have hsplit : directory ++ (stem ++ dot :: old) = directory ++ (stem ++ [dot]) ++ old := by
          simp
        rw [hsplit, List.length_append, Nat.add_sub_cancel, List.take_left]
      have hslash : slash ∉ stem ++ [dot] := by
        have h := hn.slash
        simp only [List.mem_append, List.mem_cons, not_or] at h ⊢
        exact ⟨h.1, h.2.1, by simp⟩
      rw [renamed, splitName_append hs ho]
      simp only [htake]
      by_cases hone : stem = [dot]
      · subst hone
        rw [setExtension, List.singleton_append, fileName?_parent hd]
        rfl
      · have hparent : stem ++ [dot] ≠ [dot] ++ [dot] := fun h => hone (List.append_cancel_right h)
        have hname : IsFileName (stem ++ [dot]) := ⟨hslash, by simp, by simpa using hs, hparent⟩
        rw [setExtension_append hd hname he, splitName_append hs (by simp), if_neg hone]

/-- A path keeps its name with another extension just if it has that extension already, behind a stem
that is more than a dot. -/
theorem renamed_eq_self_iff (hn : IsFileName name) : renamed name extension = name ↔
    (splitName name).2 = some extension ∧ (splitName name).1 ≠ [dot] := by
  have hlonger : name ++ dot :: extension ≠ name := by simp
  rw [renamed]
  rcases exists_last_dot name with hdot | ⟨stem, old, rfl, ho⟩
  · simpa only [splitName_of_not_mem hdot, reduceCtorEq, false_and, iff_false] using hlonger
  · by_cases hs : stem = []
    · subst hs
      rw [List.nil_append] at hlonger ⊢
      simpa only [splitName_dot ho, reduceCtorEq, false_and, iff_false] using hlonger
    · rw [splitName_append hs ho]
      by_cases hone : stem = [dot]
      · subst hone
        have hold : old ≠ [] := fun h => hn.parent (by rw [h]; rfl)
        simpa using Ne.symm hold
      · simp [hone, eq_comm]

theorem isFileName_append {stem : List UInt8} (hs : slash ∉ stem) (hne : stem ≠ [])
    (hslash : slash ∉ extension) (he : extension ≠ []) : IsFileName (stem ++ dot :: extension) := by
  have hlength : 3 ≤ (stem ++ dot :: extension).length := by
    have hstem := List.length_pos_iff.mpr hne
    have hextension := List.length_pos_iff.mpr he
    simp only [List.length_append, List.length_cons]
    omega
  refine ⟨?_, fun h => ?_, fun h => ?_, fun h => ?_⟩
  · simp only [List.mem_append, List.mem_cons, not_or]
    exact ⟨hs, by decide, hslash⟩
  all_goals
    rw [h] at hlength
    exact absurd hlength (by decide)

/-- A renamed file name is two dots or again a file name. -/
theorem renamed_cases (hn : IsFileName name) (hslash : slash ∉ extension) (he : extension ≠ []) :
    renamed name extension = [dot, dot] ∨ IsFileName (renamed name extension) := by
  rw [renamed]
  rcases exists_last_dot name with hdot | ⟨stem, old, rfl, ho⟩
  · rw [splitName_of_not_mem hdot]
    exact .inr (isFileName_append hn.slash hn.nonempty hslash he)
  · by_cases hs : stem = []
    · subst hs
      rw [List.nil_append] at hn ⊢
      rw [splitName_dot ho]
      exact .inr (isFileName_append hn.slash hn.nonempty hslash he)
    · rw [splitName_append hs ho]
      by_cases hone : stem = [dot]
      · exact .inl (if_pos hone)
      · have hstem : slash ∉ stem := fun h => hn.slash (List.mem_append_left _ h)
        simpa only [hone, if_false] using .inr (isFileName_append hstem hs hslash he)

theorem IsFileName.partOf (hn : IsFileName name) : FilePath.partOf name = some (.name name) := by
  simp [FilePath.partOf, hn.nonempty, hn.current, hn.parent]

end ClipGraph.FilePath
