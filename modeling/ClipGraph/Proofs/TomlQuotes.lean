import Mathlib
import ClipGraph.Toml.Quoted

/-!
# Quoted text reads back

Every text is written in a form that reads back as the text, and reading stops behind the quotes that
close it. With escapes this holds of all texts, because a quote is only left as it is where it cannot be
taken for a part of the closing quotes. Without escapes it is the choice of the form that sees to it.
-/

namespace ClipGraph.Toml.Quoted

variable {c q : Char} {s rest after more : List Char} {free : Nat} {lines : Bool}

@[simp] theorem isPlain_quote : isPlain '"' = true := rfl

@[simp] theorem isPlain_tick : isPlain '\'' = true := rfl

@[simp] theorem isPlain_backslash : isPlain '\\' = true := rfl

theorem ne_of_isPlain (h : isPlain c = true) : c ≠ '\n' ∧ c ≠ '\r' := by
  constructor <;> rintro rfl <;> cases h

section Escapes

theorem toNat_lt_of_not_isPlain (h : isPlain c = false) : c.toNat < 128 := by
  simp only [isPlain, Bool.or_eq_false_iff, Bool.and_eq_false_iff, decide_eq_false_iff_not,
    bne_eq_false_iff_eq] at h
  omega

theorem numbered?_upperDigit : ∀ n < 128,
    numbered? ['0', '0', upperDigit (n / 16), upperDigit n] = some (Char.ofNat n) := by
  decide +kernel

/-- A character is written as a short escape, as an escape by number, or as itself. -/
theorem escape_cases (lines : Bool) (c : Char) :
    (∃ e, escape lines c = ['\\', e] ∧ shortEscape? e = some c) ∨
    (∃ a b, escape lines c = ['\\', 'u', '0', '0', a, b] ∧ numbered? ['0', '0', a, b] = some c) ∨
    escape lines c = [c] ∧ c ≠ '\\' ∧ (isPlain c = true ∨ lines = true ∧ c = '\n') := by
  unfold escape
  split
  · next h => exact .inl ⟨_, rfl, h ▸ rfl⟩
  split
  · next h => exact .inl ⟨_, rfl, h ▸ rfl⟩
  split
  · next h =>
    subst h
    cases lines
    · exact .inl ⟨_, rfl, rfl⟩
    · exact .inr (.inr ⟨rfl, by decide, .inr ⟨rfl, rfl⟩⟩)
  split
  · next h => exact .inl ⟨_, rfl, h ▸ rfl⟩
  split
  · next h => exact .inl ⟨_, rfl, h ▸ rfl⟩
  split
  · next h => exact .inl ⟨_, rfl, by rw [h]; rfl⟩
  split
  · next hb hp => exact .inr (.inr ⟨rfl, hb, .inl hp⟩)
  · next hp =>
    have hn := numbered?_upperDigit c.toNat (toNat_lt_of_not_isPlain (by simpa using hp))
    rw [Char.ofNat_toNat] at hn
    exact .inr (.inl ⟨_, _, rfl, hn⟩)

theorem ne_of_shortEscape? {e : Char} (h : shortEscape? e = some c) : e ≠ 'u' ∧ e ≠ 'U' := by
  constructor <;> rintro rfl <;> cases h

/-- An escaped character is read back between quotes. -/
theorem readBasic_escape (hq : c ≠ '"') (h : readBasic rest = some (s, after)) :
    readBasic (escape false c ++ rest) = some (c :: s, after) := by
  rcases escape_cases false c with ⟨e, he, hshort⟩ | ⟨a, b, he, hnumber⟩ | ⟨he, hb, hp⟩
  · obtain ⟨hu, hU⟩ := ne_of_shortEscape? hshort
    simp [he, readBasic, hshort, hu, hU, h]
  · simp [he, readBasic, hnumber, h]
  · have hp : isPlain c = true := by simpa using hp
    rw [he, List.singleton_append, readBasic]
    all_goals simp_all

theorem readBasicLines_escape (hq : c ≠ '"') (h : readBasicLines .inside rest = some (s, after)) :
    readBasicLines .inside (escape true c ++ rest) = some (c :: s, after) := by
  rcases escape_cases true c with ⟨e, he, hshort⟩ | ⟨a, b, he, hnumber⟩ | ⟨he, hb, hp⟩
  · obtain ⟨hu, hU⟩ := ne_of_shortEscape? hshort
    simp [he, readBasicLines, hshort, hu, hU, h]
  · simp [he, readBasicLines, hnumber, h]
  · rcases hp with hp | ⟨-, rfl⟩
    · obtain ⟨hn, hr⟩ := ne_of_isPlain hp
      simp [he, readBasicLines, hq, hb, hp, hr, h]
    · simp [he, readBasicLines, h]

@[simp] theorem escapeAll_nil : escapeAll lines free [] = [] := by
  unfold escapeAll
  rfl

@[simp] theorem escapeAll_zero : escapeAll lines 0 ('"' :: s) =
    '\\' :: '"' :: escapeAll lines (if lines then 2 else 0) s := by
  rw [escapeAll]
  rfl

@[simp] theorem escapeAll_succ :
    escapeAll lines (free + 1) ('"' :: s) = '"' :: escapeAll lines free s := by
  rw [escapeAll]
  rfl

theorem escapeAll_of_ne (hc : c ≠ '"') : escapeAll lines free (c :: s) =
    escape lines c ++ escapeAll lines (if lines then 2 else 0) s := by
  conv_lhs => unfold escapeAll
  exact if_neg hc

/-- What is written starts with a quote only if the text does and a quote may stay as it is. -/
theorem escapeAll_ne_quote (hs : s ≠ []) (h : free = 0 ∨ s.head? ≠ some '"') :
    escapeAll lines free s ++ rest ≠ '"' :: more := by
  obtain ⟨c, s, rfl⟩ := List.exists_cons_of_ne_nil hs
  by_cases hc : c = '"'
  · subst hc
    simp only [List.head?_cons, ne_eq, not_true_eq_false, or_false] at h
    simp [h]
  · rw [escapeAll_of_ne hc]
    rcases escape_cases lines c with ⟨e, he, -⟩ | ⟨a, b, he, -⟩ | ⟨he, -, -⟩ <;> simp [he, hc]

/-- A text with escapes is read back on one line. -/
theorem readBasic_escapeAll (s rest : List Char) :
    readBasic (escapeAll false 0 s ++ '"' :: rest) = some (s, rest) := by
  induction s with
  | nil => simp [readBasic]
  | cons c s ih =>
    by_cases hc : c = '"'
    · subst hc
      simp [readBasic, shortEscape?, ih]
    · rw [escapeAll_of_ne hc, List.append_assoc]
      exact readBasic_escape hc ih

end Escapes

section Lines

/-- A quote that no two others follow does not close the text. -/
theorem readBasicLines_quote (hq : ∀ more, rest ≠ '"' :: '"' :: more)
    (h : readBasicLines .inside rest = some (s, after)) :
    readBasicLines .inside ('"' :: rest) = some ('"' :: s, after) := by
  rw [readBasicLines]
  all_goals simp_all

/-- The closing quotes, with up to two more that belong to the text. -/
theorem readBasicLines_closing (hr : ∀ more, rest ≠ '"' :: more) {n : Nat} (hn : n ≤ 2) :
    readBasicLines .inside (List.replicate (n + 3) '"' ++ rest) =
      some (List.replicate n '"', rest) := by
  have h : n = 0 ∨ n = 1 ∨ n = 2 := by omega
  rcases h with rfl | rfl | rfl <;>
    simp only [List.replicate_succ, List.replicate_zero, List.cons_append, List.nil_append] <;>
    rw [readBasicLines]
  all_goals simp_all

/-- A text with escapes is read back over several lines. -/
theorem readBasicLines_escapeAll (hr : ∀ more, rest ≠ '"' :: more) (s : List Char)
    (hf : free ≤ 2) :
    readBasicLines .inside (escapeAll true free s ++ '"' :: '"' :: '"' :: rest) =
      some (s, rest) := by
  induction s generalizing free with
  | nil => simpa using readBasicLines_closing hr (Nat.zero_le 2)
  | cons c s ih =>
    by_cases hc : c = '"'
    · subst hc
      cases free with
      | zero => simp [readBasicLines, shortEscape?, ih]
      | succ free =>
        rw [escapeAll_succ, List.cons_append]
        by_cases hs : s = []
        · simpa [hs] using readBasicLines_closing hr (n := 1) (by decide)
        by_cases hq : free = 0 ∨ s.head? ≠ some '"'
        · exact readBasicLines_quote (fun _ => escapeAll_ne_quote hs hq) (ih (by omega))
        -- A second quote may stay as it is. Then two in a row stay, and the next one does not.
        simp only [not_or, not_not] at hq
        obtain ⟨s, rfl⟩ : ∃ t, s = '"' :: t := List.head?_eq_some_iff.mp hq.2
        obtain rfl : free = 1 := by omega
        by_cases hs : s = []
        · simpa [hs] using readBasicLines_closing hr (n := 2) (by decide)
        · refine readBasicLines_quote (fun more hm => ?_) (ih (by omega))
          rw [escapeAll_succ, List.cons_append, List.cons.injEq] at hm
          exact escapeAll_ne_quote hs (.inl rfl) hm.2
    · rw [escapeAll_of_ne hc, List.append_assoc]
      exact readBasicLines_escape hc (ih (Nat.le_refl 2))

end Lines

section Literally

theorem le_longestRun (q : Char) (s : List Char) (run : Nat) : run ≤ longestRun q s run := by
  induction s generalizing run with
  | nil => exact Nat.le_refl run
  | cons c s ih =>
    rw [longestRun]
    split
    · exact Nat.le_of_succ_le (ih (run + 1))
    · exact Nat.le_max_left _ _

theorem longestRun_eq_zero {run : Nat} : longestRun q s run = 0 ↔ run = 0 ∧ q ∉ s := by
  induction s generalizing run with
  | nil => simp [longestRun]
  | cons c s ih =>
    rw [longestRun]
    split
    · next hc => simp [ih, hc]
    · next hc => simp [ih, Ne.symm hc]

/-- A text without quotes and controls is read back as it stands. -/
theorem readLiteral_append (h : ∀ c ∈ s, isPlain c = true ∧ c ≠ '\'') :
    readLiteral (s ++ '\'' :: rest) = some (s, rest) := by
  induction s with
  | nil => rfl
  | cons c s ih =>
    obtain ⟨hp, hc⟩ := h c List.mem_cons_self
    rw [List.cons_append, readLiteral]
    · simp [hp, ih fun d hd => h d (List.mem_cons_of_mem c hd)]
    · exact hc

/-- A tick that no two others follow does not close the text. -/
theorem readLiteralLines_tick (hq : ∀ more, rest ≠ '\'' :: '\'' :: more)
    (h : readLiteralLines rest = some (s, after)) :
    readLiteralLines ('\'' :: rest) = some ('\'' :: s, after) := by
  rw [readLiteralLines]
  all_goals simp_all

/-- The closing ticks, with up to two more that belong to the text. -/
theorem readLiteralLines_closing (hr : ∀ more, rest ≠ '\'' :: more) {n : Nat} (hn : n ≤ 2) :
    readLiteralLines (List.replicate (n + 3) '\'' ++ rest) = some (List.replicate n '\'', rest) := by
  have h : n = 0 ∨ n = 1 ∨ n = 2 := by omega
  rcases h with rfl | rfl | rfl <;>
    simp only [List.replicate_succ, List.replicate_zero, List.cons_append, List.nil_append] <;>
    rw [readLiteralLines]
  all_goals simp_all

theorem readLiteralLines_cons (hc : c ≠ '\'') (hp : isPlain c = true ∨ c = '\n')
    (h : readLiteralLines rest = some (s, after)) :
    readLiteralLines (c :: rest) = some (c :: s, after) := by
  rcases hp with hp | rfl
  · obtain ⟨hn, hr⟩ := ne_of_isPlain hp
    rw [readLiteralLines]
    all_goals simp_all
  · simp [readLiteralLines, h]

theorem readLiteralLines_append (hr : ∀ more, rest ≠ '\'' :: more)
    (h : ∀ c ∈ s, isPlain c = true ∨ c = '\n') {run : Nat} (hrun : longestRun '\'' s run ≤ 2) :
    readLiteralLines (s ++ '\'' :: '\'' :: '\'' :: rest) = some (s, rest) := by
  induction s generalizing run with
  | nil => exact readLiteralLines_closing hr (Nat.zero_le 2)
  | cons c s ih =>
    have hs : ∀ c ∈ s, isPlain c = true ∨ c = '\n' := fun d hd => h d (List.mem_cons_of_mem c hd)
    rw [longestRun] at hrun
    split at hrun
    next hc =>
      subst hc
      rcases s with _ | ⟨d, s⟩
      · exact readLiteralLines_closing hr (n := 1) (by decide)
      have ih := ih hs hrun
      rw [List.cons_append]
      by_cases hd : d = '\''
      · subst hd
        rw [longestRun, if_pos rfl] at hrun
        rcases s with _ | ⟨e, s⟩
        · exact readLiteralLines_closing hr (n := 2) (by decide)
        · refine readLiteralLines_tick (fun more hm => ?_) ih
          simp only [List.cons_append, List.cons.injEq] at hm
          -- A third tick in a row would be a run that is too long.
          rw [longestRun, if_pos hm.2.1] at hrun
          have := le_longestRun '\'' s (run + 1 + 1 + 1)
          omega
      · exact readLiteralLines_tick (by simp [hd]) ih
    next hc =>
      exact readLiteralLines_cons hc (h c List.mem_cons_self)
        (ih hs (Nat.le_trans (Nat.le_max_right _ _) hrun))

end Literally

section Forms

/-- Nothing is skipped in front of a character that is no part of a line break. -/
theorem skipLineBreak_of_head (h : ∀ c ∈ s.head?, isPlain c = true) : skipLineBreak s = s := by
  cases s with
  | nil => rfl
  | cons c s =>
    obtain ⟨hn, hr⟩ := ne_of_isPlain (h c rfl)
    simp [skipLineBreak, lineBreak?, hn, hr]

theorem isPlain_head_escapeAll (hs : '\n' ∉ s) :
    ∀ c ∈ (escapeAll lines free s ++ '"' :: rest).head?, isPlain c = true := by
  rcases s with _ | ⟨c, s⟩
  · simp
  · by_cases hc : c = '"'
    · subst hc
      cases free <;> simp
    · rw [escapeAll_of_ne hc]
      rcases escape_cases lines c with ⟨e, he, -⟩ | ⟨a, b, he, -⟩ | ⟨he, -, hp | ⟨-, rfl⟩⟩
      · simp [he]
      · simp [he]
      · simpa [he] using hp
      · exact absurd List.mem_cons_self hs

/-- What stands behind the opening of several lines is read from its first character on. -/
theorem skipLineBreak_opening {q : Char} {s written : List Char}
    (h : '\n' ∉ s → ∀ c ∈ written.head?, isPlain c = true) :
    ∃ more, opening q s ++ written = q :: q :: q :: more ∧ skipLineBreak more = written := by
  by_cases hs : '\n' ∈ s
  · exact ⟨'\n' :: written, by simp [opening, hs], rfl⟩
  · exact ⟨written, by simp [opening, hs], skipLineBreak_of_head (h hs)⟩

/-- A text without controls is plain but for its line breaks. -/
theorem isPlain_of_no_control (h : s.any isControl = false) :
    ∀ c ∈ s, isPlain c = true ∨ c = '\n' := by
  intro c hc
  have hn := List.any_eq_false.mp h c hc
  simp only [isControl, Bool.and_eq_true, Bool.not_eq_true', bne_iff_ne, ne_eq, not_and, not_not]
    at hn
  cases hp : isPlain c
  · exact .inr (hn hp)
  · exact .inl rfl

/-- A text is put literally on one line only if that line can hold it. -/
theorem holds_of_formOf_literal (h : formOf s = .literal) :
    ∀ c ∈ s, isPlain c = true ∧ c ≠ '\'' := by
  have hs : s.any isControl = false ∧ longestRun '\'' s 0 = 0 ∧ '\n' ∉ s := by
    simp only [formOf] at h
    split_ifs at h with h₁ h₂
    simpa [and_assoc] using h₂
  obtain ⟨hc, ht, hn⟩ := hs
  intro c hmem
  constructor
  · rcases isPlain_of_no_control hc c hmem with hp | rfl
    · exact hp
    · exact absurd hmem hn
  · rintro rfl
    exact (longestRun_eq_zero.mp ht).2 hmem

/-- A text is put literally over several lines only if they can hold it. -/
theorem holds_of_formOf_literalLines (h : formOf s = .literalLines) :
    (∀ c ∈ s, isPlain c = true ∨ c = '\n') ∧ longestRun '\'' s 0 ≤ 2 := by
  have hs : s.any isControl = false ∧ longestRun '\'' s 0 ≤ 2 := by
    simp only [formOf] at h
    split_ifs at h with h₁ h₂ h₃ h₄
    simpa using h₄
  exact ⟨isPlain_of_no_control hs.1, hs.2⟩

/-- The basic form is read back. -/
theorem read?_basic (s : List Char) (hr : ∀ more, rest ≠ '"' :: more) :
    read? (writeAs .basic s ++ rest) = some (s, rest) := by
  have h := readBasic_escapeAll s rest
  simp only [writeAs, List.cons_append, List.append_assoc, List.nil_append]
  rw [read?]
  · exact h
  · intro more hm
    rw [List.cons.injEq] at hm
    by_cases hs : s = []
    · simp only [hs, escapeAll_nil, List.nil_append, List.cons.injEq, true_and] at hm
      exact hr more hm
    · exact escapeAll_ne_quote hs (.inl rfl) hm.2
  · simp

theorem read?_literal (h : ∀ c ∈ s, isPlain c = true ∧ c ≠ '\'') (hr : ∀ more, rest ≠ '\'' :: more) :
    read? (writeAs .literal s ++ rest) = some (s, rest) := by
  have hread : readLiteral (s ++ '\'' :: rest) = some (s, rest) := readLiteral_append h
  simp only [writeAs, List.cons_append, List.append_assoc, List.nil_append]
  rw [read?]
  · exact hread
  · simp
  · intro more hm
    rw [List.cons.injEq] at hm
    rcases s with _ | ⟨c, s⟩
    · simp only [List.nil_append, List.cons.injEq, true_and] at hm
      exact hr more hm
    · exact (h c List.mem_cons_self).2 (List.cons.inj hm.2).1

theorem read?_basicLines (s : List Char) (hr : ∀ more, rest ≠ '"' :: more) :
    read? (writeAs .basicLines s ++ rest) = some (s, rest) := by
  have hhead : '\n' ∉ s →
      ∀ c ∈ (escapeAll true 2 s ++ '"' :: '"' :: '"' :: rest).head?, isPlain c = true :=
    isPlain_head_escapeAll
  obtain ⟨more, ho, hmore⟩ := skipLineBreak_opening (q := '"') hhead
  simp only [writeAs, List.append_assoc, List.cons_append, List.nil_append]
  rw [ho, read?, hmore]
  exact readBasicLines_escapeAll hr s (Nat.le_refl 2)

theorem read?_literalLines (h : ∀ c ∈ s, isPlain c = true ∨ c = '\n')
    (hrun : longestRun '\'' s 0 ≤ 2) (hr : ∀ more, rest ≠ '\'' :: more) :
    read? (writeAs .literalLines s ++ rest) = some (s, rest) := by
  have hhead : '\n' ∉ s → ∀ c ∈ (s ++ '\'' :: '\'' :: '\'' :: rest).head?, isPlain c = true := by
    intro hs c hc
    rcases s with _ | ⟨d, s⟩
    · obtain rfl : '\'' = c := by simpa using hc
      rfl
    · obtain rfl : d = c := by simpa using hc
      rcases h d List.mem_cons_self with hp | rfl
      · exact hp
      · exact absurd List.mem_cons_self hs
  obtain ⟨more, ho, hmore⟩ := skipLineBreak_opening (q := '\'') hhead
  simp only [writeAs, List.append_assoc, List.cons_append, List.nil_append]
  rw [ho, read?, hmore]
  exact readLiteralLines_append hr h hrun

/-- A written text starts with a quote of either kind. -/
theorem write_eq_cons (s : List Char) : ∃ c more, (c = '"' ∨ c = '\'') ∧ write s = c :: more := by
  unfold write
  cases formOf s with
  | basic => exact ⟨_, _, .inl rfl, rfl⟩
  | literal => exact ⟨_, _, .inr rfl, rfl⟩
  | basicLines => exact ⟨_, _, .inl rfl, rfl⟩
  | literalLines => exact ⟨_, _, .inr rfl, rfl⟩

/-- A text reads back, up to whatever follows that does not look like one more quote. -/
theorem read?_write (s : List Char) (hq : ∀ more, rest ≠ '"' :: more)
    (ht : ∀ more, rest ≠ '\'' :: more) : read? (write s ++ rest) = some (s, rest) := by
  unfold write
  cases hf : formOf s with
  | basic => exact read?_basic s hq
  | literal => exact read?_literal (holds_of_formOf_literal hf) ht
  | basicLines => exact read?_basicLines s hq
  | literalLines =>
    obtain ⟨hp, hrun⟩ := holds_of_formOf_literalLines hf
    exact read?_literalLines hp hrun ht

end Forms

end ClipGraph.Toml.Quoted
