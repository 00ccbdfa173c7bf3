import Mathlib

/-!
# Places of lists

A place of a list is an item with the items before it. To say something about every place is to say it
about every way to split the list at an item, and what does not hold of all places fails at a first one.
-/

namespace ClipGraph

variable {α β : Type}

/-- The places of a list, each with the items before it, behind those in `done`. -/
def cutsFrom (done : List α) : List α → List (List α × α)
  | [] => []
  | a :: rest => (done, a) :: cutsFrom (done ++ [a]) rest

/-- The places of a list, each with the items before it. -/
def cuts (l : List α) : List (List α × α) := cutsFrom [] l

section Cuts

variable {done l before rest : List α} {a : α}

theorem cutsFrom_append (done l rest : List α) :
    cutsFrom done (l ++ rest) = cutsFrom done l ++ cutsFrom (done ++ l) rest := by
  induction l generalizing done with
  | nil => rw [List.nil_append, cutsFrom, List.nil_append, List.append_nil]
  | cons b l ih => simp only [List.cons_append, cutsFrom, ih, List.append_assoc, List.nil_append]

theorem cuts_append_cons (before rest : List α) (a : α) :
    cuts (before ++ a :: rest) = cuts before ++ (before, a) :: cutsFrom (before ++ [a]) rest := by
  rw [cuts, cutsFrom_append, List.nil_append, cutsFrom]
  rfl

theorem cuts_concat (l : List α) (a : α) : cuts (l ++ [a]) = cuts l ++ [(l, a)] :=
  cuts_append_cons l [] a

/-- What stands before a place in the list of places are the places before it. -/
theorem eq_cuts_of_cutsFrom {p q : List (List α × α)}
    (h : cutsFrom done l = p ++ (before, a) :: q) :
    ∃ front rest, before = done ++ front ∧ l = front ++ a :: rest ∧ p = cutsFrom done front := by
  induction l generalizing done p with
  | nil => simp [cutsFrom] at h
  | cons b l ih =>
    rw [cutsFrom] at h
    cases p with
    | nil =>
      obtain ⟨hhead, -⟩ := List.cons.inj h
      obtain ⟨rfl, rfl⟩ := Prod.mk.inj hhead
      exact ⟨[], l, by simp, rfl, rfl⟩
    | cons c p =>
      obtain ⟨rfl, htail⟩ := List.cons.inj h
      obtain ⟨front, rest, rfl, rfl, rfl⟩ := ih htail
      exact ⟨b :: front, rest, by simp, rfl, rfl⟩

/-- In front of a place of a list are the places of the items before it. -/
theorem eq_cuts_of_cuts {p q : List (List α × α)} (h : cuts l = p ++ (before, a) :: q) :
    (∃ rest, l = before ++ a :: rest) ∧ p = cuts before := by
  obtain ⟨front, rest, rfl, rfl, rfl⟩ := eq_cuts_of_cutsFrom h
  exact ⟨⟨rest, rfl⟩, rfl⟩

/-- The places of a list are the ways to cut it in front of an item. -/
theorem mem_cuts : (before, a) ∈ cuts l ↔ ∃ rest, l = before ++ a :: rest := by
  constructor
  · intro h
    obtain ⟨p, q, hsplit⟩ := List.append_of_mem h
    exact (eq_cuts_of_cuts hsplit).1
  · rintro ⟨rest, rfl⟩
    rw [cuts_append_cons]
    simp

theorem map_snd_cutsFrom (done l : List α) : (cutsFrom done l).map Prod.snd = l := by
  induction l generalizing done with
  | nil => rfl
  | cons a l ih => rw [cutsFrom, List.map_cons, ih]

theorem map_snd_filter_cuts (keep : α → Bool) (l : List α) :
    ((cuts l).filter fun cut => keep cut.2).map Prod.snd = l.filter keep := by
  conv_rhs => rw [← map_snd_cutsFrom [] l, List.filter_map]
  rfl

end Cuts

/-- If not all places of a list have a property, there is a first that has not. -/
theorem forall_cuts_or_exists_first (P : List α × α → Prop) (l : List α) :
    (∀ cut ∈ cuts l, P cut) ∨
      ∃ before a rest, l = before ++ a :: rest ∧ (∀ cut ∈ cuts before, P cut) ∧ ¬ P (before, a) := by
  induction l using List.reverseRecOn with
  | nil => exact .inl (by simp [cuts, cutsFrom])
  | append_singleton l a ih =>
    rcases ih with h | ⟨before, b, rest, rfl, hb, hP⟩
    · by_cases ha : P (l, a)
      · rw [cuts_concat]
        exact .inl (List.forall_mem_append.mpr ⟨h, List.forall_mem_singleton.mpr ha⟩)
      · exact .inr ⟨l, a, [], rfl, h, ha⟩
    · exact .inr ⟨before, b, rest ++ [a], by simp, hb, hP⟩

/-- The values of a function on a list are different if each is none of those before it. -/
theorem nodup_map_iff_cuts {f : α → β} {l : List α} :
    (l.map f).Nodup ↔ ∀ cut ∈ cuts l, f cut.2 ∉ cut.1.map f := by
  induction l using List.reverseRecOn with
  | nil => simp [cuts, cutsFrom]
  | append_singleton l a ih =>
    rw [cuts_concat, List.forall_mem_append, ← ih, List.forall_mem_singleton, List.map_append,
      List.nodup_append]
    simp only [List.map_cons, List.map_nil, List.nodup_singleton, List.mem_singleton, true_and,
      forall_eq]
    exact and_congr_right fun _ => ⟨fun h hm => h _ hm rfl, fun h b hb heq => h (heq ▸ hb)⟩

/-- If the values of a function on a list repeat, there is a first that does. -/
theorem nodup_map_or_exists_first (f : α → β) (l : List α) : (l.map f).Nodup ∨
    ∃ before a rest, l = before ++ a :: rest ∧ (before.map f).Nodup ∧ f a ∈ before.map f := by
  rcases forall_cuts_or_exists_first (fun cut => f cut.2 ∉ cut.1.map f) l with
    h | ⟨before, a, rest, hl, hb, ha⟩
  · exact .inl (nodup_map_iff_cuts.mpr h)
  · exact .inr ⟨before, a, rest, hl, nodup_map_iff_cuts.mpr hb, not_not.mp ha⟩

/-- The last place of an item of a list. -/
theorem exists_last_place {l : List α} {a : α} (h : a ∈ l) :
    ∃ before after, l = before ++ a :: after ∧ a ∉ after := by
  obtain ⟨p, q, hsplit, hp⟩ := List.eq_append_cons_of_mem (List.mem_reverse.mpr h)
  refine ⟨q.reverse, p.reverse, ?_, by simpa using hp⟩
  rw [← List.reverse_reverse l, hsplit]
  simp

/-- An item of a list with one more at its end is that one, or has it behind itself. -/
theorem concat_eq_append_cons {l front back : List α} {a b : α}
    (h : l ++ [b] = front ++ a :: back) : (back = [] ∧ a = b ∧ l = front) ∨
      ∃ rest, back = rest ++ [b] ∧ l = front ++ a :: rest := by
  rcases List.eq_nil_or_concat back with rfl | ⟨rest, c, rfl⟩
  · obtain ⟨hl, hb⟩ := List.append_inj' h rfl
    exact .inl ⟨rfl, (List.cons.inj hb).1.symm, hl⟩
  · rw [List.concat_eq_append, ← List.cons_append, ← List.append_assoc] at h
    obtain ⟨hl, hb⟩ := List.append_inj' h rfl
    exact .inr ⟨rest, by rw [List.concat_eq_append, hb], hl⟩

theorem map_eq_map_of_forall₂ {γ : Type} {R : α → β → Prop} {f : α → γ} {g : β → γ} {xs : List α}
    {ys : List β} (h : List.Forall₂ R xs ys) (hR : ∀ x ∈ xs, ∀ y, R x y → f x = g y) :
    xs.map f = ys.map g := by
  induction h with
  | nil => rfl
  | cons hxy _ ih =>
    obtain ⟨hx, hxs⟩ := List.forall_mem_cons.mp hR
    rw [List.map_cons, List.map_cons, hx _ hxy, ih hxs]

theorem forall₂_concat {R : α → β → Prop} {xs : List α} {ys : List β} {x : α} {y : β}
    (h : List.Forall₂ R xs ys) (hxy : R x y) : List.Forall₂ R (xs ++ [x]) (ys ++ [y]) :=
  List.rel_append h (.cons hxy .nil)

end ClipGraph
