import ClipGraph.Proofs.JsonReaders

/-!
# Edits of a document

A form says which names count in the objects of a document. To change the order of members, and to
put in members whose names do not count, is to edit the document in a way that a reader of that form
should not notice. One edit is made at one place, at any depth. Where a value is kept whole before it
is read, what is put in has to be a value that can be kept: no deeper than the limit, with numbers
that are finite and strings that are text. Elsewhere any JSON will do. An edit leaves a whole tree
whole, and a value that may be kept may still be kept.
-/

namespace ClipGraph.Json

/-- Which names count in the objects of a value. -/
inductive Form where
  /-- None do. -/
  | plain
  | list (item : Form)
  /-- An object with these fields, or an array of them. -/
  | record (fields : List (String × Form))
  /-- A record whose fields depend on its tag, which is a field in front of the others. -/
  | tagged (tag : String) (kinds : List (String × List (String × Form)))

namespace Form

/-- The fields that go with a tag. -/
def variant (kinds : List (String × List (String × Form))) : Option Partial → List (String × Form)
  | some (.string (some kind)) => (kinds.lookup kind).getD []
  | _ => []

def fields : Form → List (Option String × Partial) → List (String × Form)
  | .record fields, _ => fields
  | .tagged tag kinds, members =>
    (tag, .plain) :: variant kinds ((members.find? (·.1 = some tag)).map Prod.snd)
  | _, _ => []

/-- The fields that an array of a form stands for, in order. -/
def row : Form → List Partial → List (String × Form)
  | .record fields, _ => fields
  | .tagged tag kinds, items => (tag, .plain) :: variant kinds items.head?
  | _, _ => []

def named (fields : List (String × Form)) : Option String → Form
  | some key => (fields.lookup key).getD .plain
  | none => .plain

/-- The form of the item at a place of an array of a form. -/
def item (f : Form) (items : List Partial) (i : Nat) : Form :=
  match f with
  | .list item => item
  | f => named (f.row items) ((f.row items)[i]?.map Prod.fst)

/-- Whether what lies in a value is kept whole before it is read. A value with a tag is, because the
tag may stand behind the fields, and what lies in a value that is kept is kept with it. -/
def keeps (kept : Bool) : Form → Bool
  | .tagged .. => true
  | _ => kept

theorem keeps_true (f : Form) : f.keeps true = true := by
  cases f <;> rfl

end Form

open Partial (isWhole value?)

/-- An edit at one place of a value of a form that may be nested `depth` deep, `kept` if a value around
it is kept whole: two neighbours in an object change places, or a member is put in whose name does not
count there. -/
inductive Edit : Bool → Form → Nat → Partial → Partial → Prop
  | swap {kept : Bool} {f : Form} {depth : Nat} {before after : List (Option String × Partial)}
      {m n : Option String × Partial} :
      Edit kept f depth (.object (before ++ m :: n :: after)) (.object (before ++ n :: m :: after))
  | extra {kept : Bool} {f : Form} {depth : Nat} {before after : List (Option String × Partial)}
      {key : String} {v : Partial} (hkey : key ∉ (f.fields (before ++ after)).map Prod.fst)
      (hwhole : v.isWhole = true)
      (hkept : f.keeps kept = true → (v.value? (depth - 1)).isSome = true) :
      Edit kept f depth (.object (before ++ after)) (.object (before ++ (some key, v) :: after))
  | member {kept : Bool} {f : Form} {depth : Nat} {before after : List (Option String × Partial)}
      {key : Option String} {v w : Partial}
      (h : Edit (f.keeps kept) (.named (f.fields (before ++ (key, v) :: after)) key) (depth - 1)
        v w) :
      Edit kept f depth (.object (before ++ (key, v) :: after))
        (.object (before ++ (key, w) :: after))
  | item {kept : Bool} {f : Form} {depth : Nat} {before after : List Partial} {v w : Partial}
      (h : Edit (f.keeps kept) (f.item (before ++ v :: after) before.length) (depth - 1) v w) :
      Edit kept f depth (.array (before ++ v :: after)) (.array (before ++ w :: after))

/-- Two documents are the same up to edits, made in either direction and one after the other. -/
abbrev SameUpToEdits (f : Form) (depth : Nat) : Partial → Partial → Prop :=
  Relation.EqvGen (Edit false f depth)

/-- The edits of an object, as edits of its members. The fields are those of the object, and the
values of the members may be nested `depth` deep. -/
inductive MemberEdit (kept : Bool) (fields : List (String × Form)) (depth : Nat) :
    List (Option String × Partial) → List (Option String × Partial) → Prop
  | swap {before after : List (Option String × Partial)} {m n : Option String × Partial} :
      MemberEdit kept fields depth (before ++ m :: n :: after) (before ++ n :: m :: after)
  | extra {before after : List (Option String × Partial)} {key : String} {v : Partial}
      (hkey : key ∉ fields.map Prod.fst) (hwhole : v.isWhole = true)
      (hkept : kept = true → (v.value? depth).isSome = true) :
      MemberEdit kept fields depth (before ++ after) (before ++ (some key, v) :: after)
  | change {before after : List (Option String × Partial)} {key : Option String} {v w : Partial}
      (h : Edit kept (.named fields key) depth v w) :
      MemberEdit kept fields depth (before ++ (key, v) :: after) (before ++ (key, w) :: after)

namespace Partial

theorem isWhole_object_iff {members : List (Option String × Partial)} :
    (Partial.object members).isWhole = true ↔ ∀ m ∈ members, m.2.isWhole = true := by
  rw [isWhole]
  induction members with
  | nil => simp [allMembersWhole]
  | cons m rest ih => rw [allMembersWhole, Bool.and_eq_true, ih, List.forall_mem_cons]

theorem isWhole_array_iff {items : List Partial} :
    (Partial.array items).isWhole = true ↔ ∀ v ∈ items, v.isWhole = true := by
  rw [isWhole]
  induction items with
  | nil => simp [allWhole]
  | cons v rest ih => rw [allWhole, Bool.and_eq_true, ih, List.forall_mem_cons]

/-- An object may be kept just if it is not too deep, its names are texts and its values may be
kept. -/
theorem isSome_value?_object_iff {members : List (Option String × Partial)} {depth : Nat} :
    ((Partial.object members).value? depth).isSome = true ↔
      depth ≠ 0 ∧ ∀ m ∈ members, m.1.isSome = true ∧ (m.2.value? (depth - 1)).isSome = true := by
  have hmembers : (members? (depth - 1) members).isSome = true ↔
      ∀ m ∈ members, m.1.isSome = true ∧ (m.2.value? (depth - 1)).isSome = true := by
    induction members with
    | nil => simp [members?]
    | cons m rest ih =>
      rw [List.forall_mem_cons, ← ih, members?]
      cases m.1 <;> cases m.2.value? (depth - 1) <;> cases members? (depth - 1) rest <;> simp
  by_cases h : depth = 0
  · simp [value?, h]
  · rw [value?, if_neg h, Option.isSome_map, hmembers, ne_eq, iff_and_self]
    exact fun _ => h

theorem isSome_value?_array_iff {items : List Partial} {depth : Nat} :
    ((Partial.array items).value? depth).isSome = true ↔
      depth ≠ 0 ∧ ∀ v ∈ items, (v.value? (depth - 1)).isSome = true := by
  have hitems : (items? (depth - 1) items).isSome = true ↔
      ∀ v ∈ items, (v.value? (depth - 1)).isSome = true := by
    induction items with
    | nil => simp [items?]
    | cons v rest ih =>
      rw [List.forall_mem_cons, ← ih, items?]
      cases v.value? (depth - 1) <;> cases items? (depth - 1) rest <;> simp
  by_cases h : depth = 0
  · simp [value?, h]
  · rw [value?, if_neg h, Option.isSome_map, hitems, ne_eq, iff_and_self]
    exact fun _ => h

end Partial

namespace Edit

variable {kept : Bool} {f : Form} {depth : Nat} {v w : Partial}

/-- An edit leaves a whole tree whole, and a broken one broken. -/
theorem isWhole_iff (h : Edit kept f depth v w) : v.isWhole = true ↔ w.isWhole = true := by
  induction h with
  | swap =>
    simp only [Partial.isWhole_object_iff, List.forall_mem_append, List.forall_mem_cons]
    tauto
  | extra _ hwhole =>
    simp only [Partial.isWhole_object_iff, List.forall_mem_append, List.forall_mem_cons, hwhole,
      true_and]
  | member h ih =>
    simp only [Partial.isWhole_object_iff, List.forall_mem_append, List.forall_mem_cons, ih]
  | item h ih =>
    simp only [Partial.isWhole_array_iff, List.forall_mem_append, List.forall_mem_cons, ih]

/-- Inside a value that is kept, an edited value may be kept as before. -/
theorem isSome_value?_iff (h : Edit kept f depth v w) (hk : kept = true) :
    (v.value? depth).isSome = true ↔ (w.value? depth).isSome = true := by
  induction h with
  | swap =>
    simp only [Partial.isSome_value?_object_iff, List.forall_mem_append, List.forall_mem_cons]
    tauto
  | extra _ _ hkept =>
    have hvalue := hkept (hk ▸ Form.keeps_true _)
    simp only [Partial.isSome_value?_object_iff, List.forall_mem_append, List.forall_mem_cons,
      hvalue, Option.isSome_some, true_and]
  | member h ih =>
    have hv := ih (hk ▸ Form.keeps_true _)
    simp only [Partial.isSome_value?_object_iff, List.forall_mem_append, List.forall_mem_cons, hv]
  | item h ih =>
    have hv := ih (hk ▸ Form.keeps_true _)
    simp only [Partial.isSome_value?_array_iff, List.forall_mem_append, List.forall_mem_cons, hv]

/-- An edit is made to the members of an object or to one item of an array. -/
theorem cases_container (h : Edit kept f depth v w) :
    (∃ ms ns, v = .object ms ∧ w = .object ns ∧
      MemberEdit (f.keeps kept) (f.fields ms) (depth - 1) ms ns) ∨
    ∃ before after x y, v = .array (before ++ x :: after) ∧ w = .array (before ++ y :: after) ∧
      Edit (f.keeps kept) (f.item (before ++ x :: after) before.length) (depth - 1) x y := by
  cases h with
  | swap => exact .inl ⟨_, _, rfl, rfl, .swap⟩
  | extra hkey hwhole hkept => exact .inl ⟨_, _, rfl, rfl, .extra hkey hwhole hkept⟩
  | member h => exact .inl ⟨_, _, rfl, rfl, .change h⟩
  | item h => exact .inr ⟨_, _, _, _, rfl, rfl, h⟩

end Edit

namespace MemberEdit

variable {kept : Bool} {fields : List (String × Form)} {depth : Nat}
  {ms ns : List (Option String × Partial)}

/-- What is done to the members is an edit of the object. -/
theorem edit (h : MemberEdit kept fields (depth - 1) ms ns) :
    Edit kept (.record fields) depth (.object ms) (.object ns) := by
  cases h with
  | swap => exact .swap
  | extra hkey hwhole hkept => exact .extra hkey hwhole hkept
  | change h => exact .member h

/-- Whether an object may be kept does not change when its members are edited as kept ones. -/
theorem isSome_value?_iff (h : MemberEdit true fields (depth - 1) ms ns) :
    ((Partial.object ms).value? depth).isSome = true ↔
      ((Partial.object ns).value? depth).isSome = true :=
  h.edit.isSome_value?_iff rfl

/-- Among the members of some names there is the same edit, or none. -/
theorem filter (h : MemberEdit kept fields depth ms ns) (p : Option String → Bool) :
    ms.filter (p ·.1) = ns.filter (p ·.1) ∨
      MemberEdit kept fields depth (ms.filter (p ·.1)) (ns.filter (p ·.1)) := by
  cases h with
  | @swap before after m n =>
    simp only [List.filter_append, List.filter_cons]
    by_cases hm : p m.1 = true
    · by_cases hn : p n.1 = true
      · simp only [hm, hn, if_true]
        exact .inr .swap
      · simp [hm, hn]
    · simp [hm]
  | @extra before after key v hkey hwhole hkept =>
    simp only [List.filter_append, List.filter_cons]
    by_cases hp : p (some key) = true
    · simp only [hp, if_true]
      exact .inr (.extra hkey hwhole hkept)
    · simp [hp]
  | @change before after key v w h =>
    simp only [List.filter_append, List.filter_cons]
    by_cases hp : p key = true
    · simp only [hp, if_true]
      exact .inr (.change h)
    · simp [hp]

end MemberEdit

/-- The members of an object may stand in any order. -/
theorem sameUpToEdits_of_perm {f : Form} {depth : Nat} {ms ns : List (Option String × Partial)}
    (h : ms.Perm ns) : SameUpToEdits f depth (.object ms) (.object ns) := by
  -- the members in front of the ones that are put in order stay
  have hbehind : ∀ before, SameUpToEdits f depth (.object (before ++ ms))
      (.object (before ++ ns)) := by
    induction h with
    | nil => exact fun before => .refl _
    | cons m _ ih =>
      intro before
      have hm := ih (before ++ [m])
      rwa [List.append_assoc, List.append_assoc] at hm
    | swap m n rest => exact fun before => .rel _ _ .swap
    | trans _ _ ih₁ ih₂ => exact fun before => (ih₁ before).trans _ _ _ (ih₂ before)
  exact hbehind []

end ClipGraph.Json
