import ClipGraph.Json.Reader
import ClipGraph.Proofs.JsonTrees
import ClipGraph.Proofs.Results

/-!
# Readers of JSON documents

What the readers for words, lists and records answer on trees that were made from values, and where
an answer comes from: an item of a list from a child of the tree, a field of a record from the member
of its name.
-/

namespace ClipGraph.Json

/-- A tree whose integers fit into words. -/
def Partial.Fits (v : Partial) : Prop := ∀ n, v.Shows (.integer n) → Number.Fits (.integer n)

theorem Partial.Fits.child {v w : Partial} (hv : v.Fits) (hw : w ∈ v.children) : w.Fits :=
  fun n hn => hv n (.child hw hn)

theorem Partial.Fits.member {members : List (Option String × Partial)}
    (hv : (Partial.object members).Fits) {m : Option String × Partial} (hm : m ∈ members) :
    m.2.Fits :=
  hv.child (List.mem_map_of_mem hm)

/-- The tree of any text fits. -/
theorem Document.fits_ofText (cs : List Char) : (Document.ofText cs).root.Fits :=
  fun _ h => Token.fits_of_mem_ofText (Document.mem_tokens_of_shows h)

theorem wholeItems_eq_map (items : List Json) : wholeItems items = items.map whole := by
  induction items with
  | nil => rfl
  | cons v rest ih => rw [wholeItems, ih, List.map_cons]

namespace Reader

variable {α β σ : Type}

@[simp] theorem word_toNat (n : UInt32) : word (.number (.integer n.toNat)) = .ok n := by
  have hlt : (n.toNat : Int) < Nat.pow 2 32 := Int.ofNat_lt.mpr n.toNat_lt
  rw [word, if_pos ⟨Int.natCast_nonneg _, hlt⟩, Int.toNat_natCast, UInt32.ofNat_toNat]

/-- A list is read back if each of its items is. -/
theorem listOf_whole {item : Reader α} {items : List Json} {l : List α}
    (h : List.Forall₂ (fun j a => item (whole j) = .ok a) items l) :
    listOf item (whole (.array items)) = .ok l := by
  rw [whole, listOf, wholeItems_eq_map, mapM_eq_ok_iff, List.forall₂_map_left_iff]
  exact h

theorem mismatch_ne_ok {wanted : String} {v : Partial} {a : α} : mismatch wanted v ≠ .ok a := by
  unfold mismatch
  split <;> simp

/-- Every item of a list comes from a value right inside the array. -/
theorem exists_of_mem_listOf {item : Reader α} {v : Partial} {l : List α}
    (h : listOf item v = .ok l) {a : α} (ha : a ∈ l) : ∃ w ∈ v.children, item w = .ok a := by
  unfold listOf at h
  split at h
  · exact exists_of_mem_mapM h ha
  · exact absurd h mismatch_ne_ok

/-- What every member preserves a whole object preserves. -/
theorem foldMembers_preserves {take : σ → String → Partial → Except Fault (Option σ)}
    {P : σ → Prop} {members : List (Option String × Partial)} {s s' : σ}
    (hstep : ∀ s key v s', (some key, v) ∈ members → P s → take s key v = .ok (some s') → P s')
    (hs : P s) (h : foldMembers take s members = .ok s') : P s' := by
  induction members generalizing s with
  | nil =>
    obtain rfl := Except.ok.inj h
    exact hs
  | cons m rest ih =>
    have hrest := fun s key v s' hm => hstep s key v s' (List.mem_cons_of_mem _ hm)
    match m with
    | (none, v) => cases h
    | (some key, v) =>
      rw [foldMembers, bind_eq_ok_iff] at h
      obtain ⟨next, hnext, h⟩ := h
      cases next with
      | some next => exact ih hrest (hstep s key v next List.mem_cons_self hs hnext) h
      | none =>
        dsimp only at h
        split at h
        · exact ih hrest hs h
        · cases h

/-- A field that is taken holds what its reader answers. -/
theorem exists_of_once {name : String} {old : Option α} {new : Except Fault α} {set : Option α → σ}
    {s : σ} (h : ((once name old new).map fun field => some (set field)) = .ok (some s)) :
    ∃ a, new = .ok a ∧ s = set (some a) := by
  obtain ⟨field, honce, hs⟩ := map_eq_ok_iff.mp h
  unfold once at honce
  split at honce
  · cases honce
  · obtain ⟨a, ha, rfl⟩ := map_eq_ok_iff.mp honce
    exact ⟨a, ha, (Option.some.inj hs).symm⟩

theorem require_eq_ok_iff {name : String} {field : Option α} {a : α} :
    require name field = .ok a ↔ field = some a := by
  cases field <;> simp [require]

section Pair

variable {kept : Bool} {record first second : String} {readFirst : Reader α} {readSecond : Reader β}

/-- A record is read back from its two members. -/
theorem pair_object (hne : second ≠ first) {v w : Partial} {a : α} {b : β}
    (ha : readFirst v = .ok a) (hb : readSecond w = .ok b) :
    pair kept record first second readFirst readSecond
      (.object [(some first, v), (some second, w)]) = .ok (a, b) := by
  simp [pair, foldMembers, ha, hb, hne, once, require]

/-- The fields of a record met so far come from members. -/
structure ComeFrom (members : List (Option String × Partial)) (readFirst : Reader α)
    (readSecond : Reader β) (s : Option α × Option β) : Prop where
  first : ∀ a ∈ s.1, ∃ w ∈ members.map Prod.snd, readFirst w = .ok a
  second : ∀ b ∈ s.2, ∃ w ∈ members.map Prod.snd, readSecond w = .ok b

/-- Both fields of a record come from values right inside it. -/
theorem exists_of_pair {v : Partial} {a : α} {b : β}
    (h : pair kept record first second readFirst readSecond v = .ok (a, b)) :
    (∃ w ∈ v.children, readFirst w = .ok a) ∧ ∃ w ∈ v.children, readSecond w = .ok b := by
  unfold pair at h
  split at h
  · next members =>
    simp only [bind_eq_ok_iff, require_eq_ok_iff, pure_eq_ok_iff, Prod.exists, Prod.mk.injEq] at h
    obtain ⟨x, y, hfold, _, hx, _, hy, rfl, rfl⟩ := h
    have hfrom : ComeFrom members readFirst readSecond (x, y) := by
      refine foldMembers_preserves ?_ ⟨by simp, by simp⟩ hfold
      intro s key w s' hm hs htake
      have hw : w ∈ members.map Prod.snd := List.mem_map_of_mem hm
      split at htake
      · obtain ⟨a, ha, rfl⟩ := exists_of_once htake
        refine ⟨?_, hs.second⟩
        rintro _ ⟨rfl⟩
        exact ⟨w, hw, ha⟩
      split at htake
      · obtain ⟨b, hb, rfl⟩ := exists_of_once htake
        refine ⟨hs.first, ?_⟩
        rintro _ ⟨rfl⟩
        exact ⟨w, hw, hb⟩
      · simp at htake
    exact ⟨hfrom.first _ hx, hfrom.second _ hy⟩
  · cases h
  · next v =>
    simp only [bind_eq_ok_iff, tooShort] at h
    obtain ⟨_, _, h⟩ := h
    cases h
  · next v w rest =>
    simp only [bind_eq_ok_iff] at h
    obtain ⟨a', ha, b', hb, h⟩ := h
    split at h
    · simp only [pure_eq_ok_iff, Prod.mk.injEq] at h
      obtain ⟨rfl, rfl⟩ := h
      exact ⟨⟨v, by simp [Partial.children], ha⟩, ⟨w, by simp [Partial.children], hb⟩⟩
    · simp [tooLong] at h
  · exact absurd h mismatch_ne_ok

end Pair

end Reader
end ClipGraph.Json
