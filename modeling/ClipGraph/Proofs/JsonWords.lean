import ClipGraph.Proofs.JsonLayouts

/-!
# Words and blanks

A JSON text is a row of words with blanks between them. A word is read off the front of a text to
its own end, whatever stands behind it. Only a number must not be followed by what would go on with
it, and behind a number in a tree there is always the end of something. So the blanks say nothing, and
all texts of a tree are read as that tree.
-/

namespace ClipGraph.Json

/-- What may stand behind a word in place of what did: it starts in the same way, or at least it
does not go on with a number. -/
def MayFollow (after rest : List Char) : Prop := rest.head? = after.head? ∨ Stops goesOn rest

theorem MayFollow.append {after rest : List Char} (h : MayFollow after rest) (w : List Char) :
    MayFollow (w ++ after) (w ++ rest) := by
  cases w with
  | nil => exact h
  | cons c w => exact .inl rfl

theorem MayFollow.stops {after rest : List Char} {p : Char → Bool} (h : MayFollow after rest)
    (hp : ∀ c, p c = true → goesOn c = true) (hs : Stops p after) : Stops p rest := by
  rcases h with h | h
  · rwa [Stops, h]
  · exact h.mono hp

namespace Token

open Text (IsWhole spanDigits spanDigits_run)

/-- A string is read to its closing quote. -/
theorem readString_word {cs after : List Char} {s : List Nat}
    (h : readString cs = some (s, after)) :
    ∃ w, cs = w ++ after ∧ ∀ rest, readString (w ++ rest) = some (s, rest) := by
  fun_induction readString cs generalizing s after with
  | case1 => cases h
  | case2 rest =>
    obtain ⟨rfl, rfl⟩ := Prod.mk.inj (Option.some.inj h)
    exact ⟨['"'], rfl, fun rest => by simp [readString]⟩
  | case3 a b c d rest ih =>
    simp only [Option.bind_eq_bind, Option.bind_eq_some_iff, Option.pure_def, Option.some.injEq,
      Prod.mk.injEq] at h
    obtain ⟨n, hn, ⟨s', after'⟩, hr, rfl, rfl⟩ := h
    obtain ⟨w, rfl, hw⟩ := ih hr
    refine ⟨'\\' :: 'u' :: a :: b :: c :: d :: w, rfl, fun rest => ?_⟩
    simp [readString, hn, hw]
  | case4 e rest hu ih =>
    simp only [Option.bind_eq_bind, Option.bind_eq_some_iff, Option.pure_def, Option.some.injEq,
      Prod.mk.injEq] at h
    obtain ⟨c, hc, ⟨s', after'⟩, hr, rfl, rfl⟩ := h
    obtain ⟨w, rfl, hw⟩ := ih hr
    have he : e ≠ 'u' := by
      rintro rfl
      cases hc
    refine ⟨'\\' :: e :: w, rfl, fun rest => ?_⟩
    simp [readString, hc, hw, he]
  | case5 => cases h
  | case6 c rest hq hu hb hc ih =>
    simp only [Option.bind_eq_bind, Option.bind_eq_some_iff, Option.pure_def, Option.some.injEq,
      Prod.mk.injEq] at h
    obtain ⟨⟨s', after'⟩, hr, rfl, rfl⟩ := h
    obtain ⟨w, rfl, hw⟩ := ih hr
    obtain ⟨hlow, hback⟩ := not_or.mp hc
    refine ⟨c :: w, rfl, fun rest => ?_⟩
    rw [List.cons_append, readString_plain hq hback hlow, hw]
    rfl

theorem spanDigits_eq {cs digits after : List Char} (h : spanDigits cs = (digits, after)) :
    cs = digits ++ after ∧ (∀ c ∈ digits, c.isDigit = true) ∧ Stops Char.isDigit after := by
  obtain ⟨rfl, rfl⟩ := Prod.mk.inj h
  refine ⟨List.takeWhile_append_dropWhile.symm, fun c hc => List.mem_takeWhile_imp hc, ?_⟩
  intro c hc
  have hhead := List.head?_dropWhile_not Char.isDigit cs
  rwa [Option.mem_def.mp hc] at hhead

/-- What is read before the point is digits, with no needless zero in front. -/
theorem readWhole_eq {cs whole after : List Char} (h : readWhole cs = some (whole, after)) :
    cs = whole ++ after ∧ IsWhole whole ∧ Stops Char.isDigit after := by
  unfold readWhole at h
  split at h
  · cases h
  · cases h
  · next digits after' hne hzero hspan =>
    obtain ⟨rfl, rfl⟩ := Prod.mk.inj (Option.some.inj h)
    obtain ⟨hcs, hdigits, hstop⟩ := spanDigits_eq hspan
    refine ⟨hcs, ⟨fun h => hne h, hdigits, fun h0 => ?_⟩, hstop⟩
    obtain ⟨more, rfl⟩ := List.head?_eq_some_iff.mp h0
    cases more with
    | nil => rfl
    | cons c more => exact absurd rfl (hzero c more)

theorem readFraction_word {cs after : List Char} {f : Option (List Char)}
    (h : readFraction cs = some (f, after)) :
    ∃ w, cs = w ++ after ∧ ∀ rest, MayFollow after rest →
      readFraction (w ++ rest) = some (f, rest) := by
  unfold readFraction at h
  split at h
  · next cs =>
    split at h
    · cases h
    · next digits after' hne hspan =>
      obtain ⟨rfl, rfl⟩ := Prod.mk.inj (Option.some.inj h)
      obtain ⟨rfl, hdigits, hstop⟩ := spanDigits_eq hspan
      refine ⟨'.' :: digits, rfl, fun rest hrest => ?_⟩
      have hstop' := hrest.stops (fun c hc => by simp [goesOn, hc]) hstop
      simp only [List.cons_append, readFraction, spanDigits_run hdigits hstop']
  · next hpoint =>
    obtain ⟨rfl, rfl⟩ := Prod.mk.inj (Option.some.inj h)
    refine ⟨[], rfl, fun rest hrest => ?_⟩
    rw [List.nil_append, readFraction]
    rintro tail rfl
    rcases hrest with hrest | hrest
    · cases cs with
      | nil => cases hrest
      | cons c cs =>
        obtain rfl : '.' = c := Option.some.inj hrest
        exact hpoint _ rfl
    · exact absurd (hrest '.' rfl) (by decide)

theorem readExponent_of_stops {cs : List Char} (h : Stops (fun c => c == 'e' || c == 'E') cs) :
    readExponent cs = some (none, cs) := by
  cases cs with
  | nil => rfl
  | cons c cs =>
    have hc := h c rfl
    simp only [Bool.or_eq_false_iff, beq_eq_false_iff_ne] at hc
    simp [readExponent, hc]

/-- The sign of an exponent is read in front of whatever starts with a digit. -/
theorem readExponentSign_word (cs : List Char) : ∃ w, cs = w ++ (readExponentSign cs).2 ∧
    ∀ rest, (∃ c ∈ rest.head?, c.isDigit = true) →
      readExponentSign (w ++ rest) = ((readExponentSign cs).1, rest) := by
  have hdigit : ∀ rest : List Char, (∃ c ∈ rest.head?, c.isDigit = true) →
      readExponentSign rest = (false, rest) := by
    rintro rest ⟨c, hc, hd⟩
    unfold readExponentSign
    split
    · obtain rfl : '+' = c := Option.some.inj hc
      cases hd
    · obtain rfl : '-' = c := Option.some.inj hc
      cases hd
    · rfl
  unfold readExponentSign
  split
  · exact ⟨['+'], rfl, fun rest _ => rfl⟩
  · exact ⟨['-'], rfl, fun rest _ => rfl⟩
  · exact ⟨[], rfl, hdigit⟩

theorem readExponent_word {cs after : List Char} {e : Option Int}
    (h : readExponent cs = some (e, after)) :
    ∃ w, cs = w ++ after ∧ ∀ rest, MayFollow after rest →
      readExponent (w ++ rest) = some (e, rest) := by
  have hnone : ∀ {rest}, Stops (fun c => c == 'e' || c == 'E') cs → MayFollow cs rest →
      readExponent rest = some (none, rest) := fun hstop hrest =>
    readExponent_of_stops (hrest.stops (by simp_all [goesOn]) hstop)
  unfold readExponent at h
  split at h
  · obtain ⟨rfl, rfl⟩ := Prod.mk.inj (Option.some.inj h)
    exact ⟨[], rfl, fun rest => hnone (stops_nil _)⟩
  · next c cs =>
    split at h
    · next he =>
      obtain ⟨sign, hcs, hsign⟩ := readExponentSign_word cs
      dsimp only at h
      split at h
      · cases h
      · next digits after' hne hspan =>
        obtain ⟨rfl, rfl⟩ := Prod.mk.inj (Option.some.inj h)
        obtain ⟨hdigits, hall, hstop⟩ := spanDigits_eq hspan
        obtain ⟨d, more, rfl⟩ := List.exists_cons_of_ne_nil fun h => hne h
        refine ⟨c :: (sign ++ d :: more), ?_, fun rest hrest => ?_⟩
        · rw [hdigits] at hcs
          simp [hcs]
        · have hstop' := hrest.stops (fun c hc => by simp [goesOn, hc]) hstop
          have hread := hsign (d :: more ++ rest) ⟨d, rfl, hall d List.mem_cons_self⟩
          simp only [List.cons_append, List.append_assoc, readExponent, if_pos he] at hread ⊢
          rw [hread]
          simp only [← List.cons_append, spanDigits_run hall hstop']
    · next he =>
      obtain ⟨rfl, rfl⟩ := Prod.mk.inj (Option.some.inj h)
      refine ⟨[], rfl, fun rest => hnone (stops_cons ?_)⟩
      simpa using he

theorem readSign_eq (cs : List Char) :
    cs = (if (readSign cs).1 then ['-'] else []) ++ (readSign cs).2 := by
  unfold readSign
  split <;> rfl

/-- A number that is read is a word of the text, whatever may follow it there. -/
theorem readNumber_word {cs after : List Char} {n : Number}
    (h : readNumber cs = some (n, after)) :
    ∃ w, cs = w ++ after ∧ ∀ rest, MayFollow after rest →
      readNumber (w ++ rest) = some (n, rest) := by
  simp only [readNumber, Option.bind_eq_bind, Option.bind_eq_some_iff, Prod.exists, Option.pure_def,
    Option.some.injEq, Prod.mk.injEq] at h
  obtain ⟨whole, behindWhole, hwhole, fraction, behindFraction, hfraction, exponent, _, hexponent,
    rfl, rfl⟩ := h
  obtain ⟨hsign, hw, hstop⟩ := readWhole_eq hwhole
  obtain ⟨w₁, rfl, hf⟩ := readFraction_word hfraction
  obtain ⟨w₂, rfl, he⟩ := readExponent_word hexponent
  refine ⟨(if (readSign cs).1 then ['-'] else []) ++ (whole ++ (w₁ ++ w₂)), ?_,
    fun rest hrest => ?_⟩
  · have hcs := readSign_eq cs
    rw [hsign] at hcs
    simpa using hcs
  · have hrest₂ := hrest.append w₂
    have hrest₁ := hrest₂.append w₁
    have hstop' := hrest₁.stops (fun c hc => by simp [goesOn, hc]) hstop
    simp only [readNumber, List.append_assoc, readSign_append _ hw, readWhole_append hw hstop',
      hf _ hrest₂, he _ hrest, Option.bind_eq_bind, Option.bind_some, Option.pure_def]

/-- A token is read off the front of a text to the end of its word. -/
theorem read?_word {cs after : List Char} {t : Token} (h : read? cs = some (t, after)) :
    ∃ w, cs = w ++ after ∧ ∀ rest, ((∃ n, t = .number n) → MayFollow after rest) →
      read? (w ++ rest) = some (t, rest) := by
  -- a word that is always spelled the same
  have hfixed : ∀ {u : Token} (w : List Char) {tail : List Char},
      (∀ rest, read? (w ++ rest) = some (u, rest)) → some (u, tail) = some (t, after) →
      ∃ w', w ++ tail = w' ++ after ∧ ∀ rest, ((∃ n, t = .number n) → MayFollow after rest) →
        read? (w' ++ rest) = some (t, rest) := by
    rintro u w tail hw heq
    obtain ⟨rfl, rfl⟩ := Prod.mk.inj (Option.some.inj heq)
    exact ⟨w, rfl, fun rest _ => hw rest⟩
  unfold read? at h
  split at h
  case h_1 => exact hfixed "[".toList (fun _ => rfl) h
  case h_2 => exact hfixed "]".toList (fun _ => rfl) h
  case h_3 => exact hfixed ['\x7b'] (fun _ => rfl) h
  case h_4 => exact hfixed ['\x7d'] (fun _ => rfl) h
  case h_5 => exact hfixed ",".toList (fun _ => rfl) h
  case h_6 => exact hfixed ":".toList (fun _ => rfl) h
  case h_7 => exact hfixed "null".toList (fun _ => rfl) h
  case h_8 => exact hfixed "true".toList (fun _ => rfl) h
  case h_9 => exact hfixed "false".toList (fun _ => rfl) h
  case h_10 cs =>
    obtain ⟨⟨s, after'⟩, hs, heq⟩ := Option.map_eq_some_iff.mp h
    obtain ⟨rfl, rfl⟩ := Prod.mk.inj heq
    obtain ⟨w, rfl, hw⟩ := readString_word hs
    exact ⟨'"' :: w, rfl, fun rest _ => by simp [read?, hw]⟩
  case h_11 =>
    obtain ⟨⟨n, after'⟩, hn, heq⟩ := Option.map_eq_some_iff.mp h
    obtain ⟨rfl, rfl⟩ := Prod.mk.inj heq
    obtain ⟨w, rfl, hw⟩ := readNumber_word hn
    exact ⟨w, rfl, fun rest hrest => read?_of_readNumber (hw rest (hrest ⟨n, rfl⟩))⟩

end Token

open Token (read?)

/-- The text has these tokens: each of them is written as a word, and there may be blanks in front
of every word and behind the last one. -/
inductive Worded : List Token → List Char → Prop
  | blank {blanks : List Char} (hb : ∀ c ∈ blanks, Token.isSpace c = true) : Worded [] blanks
  | word {blanks w rest : List Char} {t : Token} {ts : List Token}
      (hb : ∀ c ∈ blanks, Token.isSpace c = true) (hw : read? w = some (t, []))
      (h : Worded ts rest) : Worded (t :: ts) (blanks ++ (w ++ rest))

/-- The words that end a value or a container. -/
def Token.Ends (t : Token) : Prop := t = .comma ∨ t = .arrayClose ∨ t = .objectClose

/-- A number is followed by the end of something. -/
def Token.Parted (t next : Token) : Prop := (∃ n, t = .number n) → next.Ends

theorem Token.stops_isSpace {w after : List Char} {t : Token} (h : read? w = some (t, after)) :
    Stops isSpace w := by
  intro c hc
  unfold read? at h
  split at h
  case h_11 =>
    obtain ⟨⟨n, after'⟩, hn, -⟩ := Option.map_eq_some_iff.mp h
    obtain ⟨d, hd, hnumber⟩ := head_of_readNumber hn
    obtain rfl : c = d := Option.mem_unique hc hd
    rcases hnumber with rfl | hnumber
    · rfl
    · exact isSpace_of_isDigit hnumber
  all_goals
    obtain rfl := Option.some.inj hc
    rfl

theorem stops_of_blanks {blanks : List Char} (hb : ∀ c ∈ blanks, Token.isSpace c = true) :
    Stops goesOn blanks := by
  intro c hc
  have hspace := hb c (List.mem_of_mem_head? hc)
  simp only [Token.isSpace, Bool.or_eq_true, beq_iff_eq] at hspace
  rcases hspace with ((rfl | rfl) | rfl) | rfl <;> rfl

theorem Token.Ends.stops {t : Token} (ht : t.Ends) {w after : List Char}
    (h : read? w = some (t, after)) : Stops goesOn w := by
  unfold read? at h
  split at h
  case h_2 => exact stops_cons rfl
  case h_4 => exact stops_cons rfl
  case h_5 => exact stops_cons rfl
  case h_10 =>
    obtain ⟨_, -, heq⟩ := Option.map_eq_some_iff.mp h
    obtain ⟨rfl, -⟩ := Prod.mk.inj heq
    simp [Ends] at ht
  case h_11 =>
    obtain ⟨_, -, heq⟩ := Option.map_eq_some_iff.mp h
    obtain ⟨rfl, -⟩ := Prod.mk.inj heq
    simp [Ends] at ht
  all_goals
    obtain ⟨rfl, -⟩ := Prod.mk.inj (Option.some.inj h)
    simp [Ends] at ht

theorem Worded.stops {t : Token} {ts : List Token} {cs : List Char} (ht : t.Ends)
    (h : Worded (t :: ts) cs) : Stops goesOn cs := by
  cases h with
  | @word blanks w rest _ _ hb hw h =>
    cases blanks with
    | nil =>
      obtain ⟨c, w, rfl⟩ := List.exists_cons_of_length_pos (Token.length_read? hw)
      exact stops_cons (ht.stops hw c rfl)
    | cons c blanks => exact stops_cons (stops_of_blanks hb c rfl)

/-- A text is taken apart into the tokens that it is written with. -/
theorem Worded.ofText_eq {ts : List Token} {cs : List Char} (h : Worded ts cs)
    (hts : ts.IsChain Token.Parted) : Token.ofText cs = ts := by
  induction h with
  | @blank blanks hb =>
    rw [← List.append_nil blanks, Token.ofText_spaces hb, Token.ofText_nil]
  | @word blanks w rest t ts hb hw h ih =>
    have hrest : (∃ n, t = .number n) → MayFollow [] rest := by
      intro hn
      cases h with
      | blank hb => exact .inr (stops_of_blanks hb)
      | @word blanks w rest next ts hb hw h =>
        exact .inr (Worded.stops ((List.isChain_cons_cons.mp hts).1 hn) (.word hb hw h))
    obtain ⟨w', hw', hread⟩ := Token.read?_word hw
    rw [List.append_nil] at hw'
    subst hw'
    have hread := hread rest hrest
    rw [Token.ofText_spaces hb, Token.ofText_read (Token.stops_isSpace hread) hread,
      ih hts.tail]

theorem Worded.cons_blank {ts : List Token} {c : Char} {cs : List Char}
    (hc : Token.isSpace c = true) (h : Worded ts cs) : Worded ts (c :: cs) := by
  cases h with
  | blank hb => exact .blank (List.forall_mem_cons.mpr ⟨hc, hb⟩)
  | word hb hw h => exact .word (List.forall_mem_cons.mpr ⟨hc, hb⟩) hw h

/-- Every text without a bad token is written with its tokens. -/
theorem worded_ofText {cs : List Char} (h : .bad ∉ Token.ofText cs) :
    Worded (Token.ofText cs) cs := by
  fun_induction Token.ofText cs with
  | case1 => exact .blank (by simp)
  | case2 c rest hc ih => exact (ih h).cons_blank hc
  | case3 c rest hc hread => simp at h
  | case4 c rest hc token after hread ih =>
    obtain ⟨w, hw, hword⟩ := Token.read?_word hread
    have hend := hword [] fun _ => .inr (stops_nil goesOn)
    rw [List.append_nil] at hend
    rw [hw]
    have hrest := ih fun hm => h (List.mem_cons_of_mem _ hm)
    exact .word (List.forall_mem_nil _) hend hrest

namespace Partial

theorem isChain_cons {t : Token} {rest : List Token} (ht : ∀ n, t ≠ .number n)
    (h : rest.IsChain Token.Parted) : (t :: rest).IsChain Token.Parted :=
  List.isChain_cons.mpr ⟨fun _ _ ⟨n, hn⟩ => absurd hn (ht n), h⟩

-- One induction over the tree. What stands behind a tree stays general, because behind a child there
-- stands the rest of its container.
mutual

/-- The words of a tree may stand in front of whatever ends something. -/
theorem isChain_tokens (v : Partial) {rest : List Token} (hr : rest.IsChain Token.Parted)
    (hend : ∀ t ∈ rest.head?, t.Ends) : (v.tokens ++ rest).IsChain Token.Parted := by
  match v with
  | .null => exact isChain_cons (by simp) hr
  | .bool _ => exact isChain_cons (by simp) hr
  | .number _ => exact List.isChain_cons.mpr ⟨fun t ht _ => hend t ht, hr⟩
  | .string _ => exact isChain_cons (by simp) hr
  | .broken => exact isChain_cons (by simp) hr
  | .array items =>
    have hclose : (Token.arrayClose :: rest).IsChain Token.Parted := isChain_cons (by simp) hr
    rw [tokens, List.cons_append, List.append_assoc, List.singleton_append]
    exact isChain_cons (by simp) (isChain_itemTokens items hclose (by simp [Token.Ends]))
  | .object members =>
    have hclose : (Token.objectClose :: rest).IsChain Token.Parted := isChain_cons (by simp) hr
    rw [tokens, List.cons_append, List.append_assoc, List.singleton_append]
    exact isChain_cons (by simp) (isChain_memberTokens members hclose (by simp [Token.Ends]))

theorem isChain_itemTokens (items : List Partial) {rest : List Token}
    (hr : rest.IsChain Token.Parted) (hend : ∀ t ∈ rest.head?, t.Ends) :
    (itemTokens items ++ rest).IsChain Token.Parted := by
  match items with
  | [] => exact hr
  | v :: more =>
    obtain ⟨hmore, hcomma⟩ := isChain_moreItemTokens more hr hend
    rw [itemTokens, List.append_assoc]
    exact isChain_tokens v hmore hcomma

theorem isChain_moreItemTokens (items : List Partial) {rest : List Token}
    (hr : rest.IsChain Token.Parted) (hend : ∀ t ∈ rest.head?, t.Ends) :
    (moreItemTokens items ++ rest).IsChain Token.Parted ∧
      ∀ t ∈ (moreItemTokens items ++ rest).head?, t.Ends := by
  match items with
  | [] => exact ⟨hr, hend⟩
  | v :: more =>
    obtain ⟨hmore, hcomma⟩ := isChain_moreItemTokens more hr hend
    rw [moreItemTokens, List.cons_append, List.append_assoc]
    exact ⟨isChain_cons (by simp) (isChain_tokens v hmore hcomma), by simp [Token.Ends]⟩

theorem isChain_memberTokens (members : List (Option String × Partial))
    {rest : List Token} (hr : rest.IsChain Token.Parted) (hend : ∀ t ∈ rest.head?, t.Ends) :
    (memberTokens members ++ rest).IsChain Token.Parted := by
  match members with
  | [] => exact hr
  | (key, v) :: more =>
    obtain ⟨hmore, hcomma⟩ := isChain_moreMemberTokens more hr hend
    rw [memberTokens, List.cons_append, List.cons_append, List.append_assoc]
    exact isChain_cons (by simp) (isChain_cons (by simp) (isChain_tokens v hmore hcomma))

theorem isChain_moreMemberTokens (members : List (Option String × Partial))
    {rest : List Token} (hr : rest.IsChain Token.Parted) (hend : ∀ t ∈ rest.head?, t.Ends) :
    (moreMemberTokens members ++ rest).IsChain Token.Parted ∧
      ∀ t ∈ (moreMemberTokens members ++ rest).head?, t.Ends := by
  match members with
  | [] => exact ⟨hr, hend⟩
  | (key, v) :: more =>
    obtain ⟨hmore, hcomma⟩ := isChain_moreMemberTokens more hr hend
    rw [moreMemberTokens, List.cons_append, List.cons_append, List.cons_append, List.append_assoc]
    exact ⟨isChain_cons (by simp) (isChain_cons (by simp) (isChain_cons (by simp)
      (isChain_tokens v hmore hcomma))), by simp [Token.Ends]⟩

end

/-- A JSON text of a tree: the words of the tree with blanks between them. -/
structure HasText (v : Partial) (cs : List Char) : Prop where
  whole : v.isWhole = true
  worded : Worded v.tokens cs

/-- Whatever its blanks are, a text of a tree is read as that tree. -/
theorem HasText.ofText_eq {v : Partial} {cs : List Char} (h : v.HasText cs) :
    Document.ofText cs = ⟨v, true⟩ := by
  have hchain : (v.tokens ++ []).IsChain Token.Parted := isChain_tokens v List.isChain_nil (by simp)
  rw [List.append_nil] at hchain
  exact Document.ofText_of_tokens h.whole (h.worded.ofText_eq hchain)

mutual

/-- A whole tree has no bad word. -/
theorem bad_notMem_tokens (v : Partial) (hv : v.isWhole = true) : .bad ∉ v.tokens := by
  match v with
  | .null | .bool _ | .number _ | .string _ => simp [tokens]
  | .broken => cases hv
  | .array items =>
    have hitems := bad_notMem_itemTokens items hv
    simp [tokens, hitems]
  | .object members =>
    have hmembers := bad_notMem_memberTokens members hv
    simp [tokens, hmembers]

theorem bad_notMem_itemTokens (items : List Partial) (hv : allWhole items = true) :
    .bad ∉ itemTokens items := by
  match items with
  | [] => exact List.not_mem_nil
  | v :: more =>
    obtain ⟨hv, hmore⟩ := Bool.and_eq_true_iff.mp hv
    simp [itemTokens, bad_notMem_tokens v hv, bad_notMem_moreItemTokens more hmore]

theorem bad_notMem_moreItemTokens (items : List Partial) (hv : allWhole items = true) :
    .bad ∉ moreItemTokens items := by
  match items with
  | [] => exact List.not_mem_nil
  | v :: more =>
    obtain ⟨hv, hmore⟩ := Bool.and_eq_true_iff.mp hv
    simp [moreItemTokens, bad_notMem_tokens v hv, bad_notMem_moreItemTokens more hmore]

theorem bad_notMem_memberTokens (members : List (Option String × Partial))
    (hv : allMembersWhole members = true) : .bad ∉ memberTokens members := by
  match members with
  | [] => exact List.not_mem_nil
  | (key, v) :: more =>
    obtain ⟨hv, hmore⟩ := Bool.and_eq_true_iff.mp hv
    simp [memberTokens, bad_notMem_tokens v hv, bad_notMem_moreMemberTokens more hmore]

theorem bad_notMem_moreMemberTokens (members : List (Option String × Partial))
    (hv : allMembersWhole members = true) : .bad ∉ moreMemberTokens members := by
  match members with
  | [] => exact List.not_mem_nil
  | (key, v) :: more =>
    obtain ⟨hv, hmore⟩ := Bool.and_eq_true_iff.mp hv
    simp [moreMemberTokens, bad_notMem_tokens v hv, bad_notMem_moreMemberTokens more hmore]

end

/-- A text that is taken apart into the words of a tree is a text of that tree. -/
theorem HasText.of_tokens {v : Partial} {cs : List Char} (hv : v.isWhole = true)
    (h : Token.ofText cs = v.tokens) : v.HasText cs where
  whole := hv
  worded := by
    rw [← h]
    exact worded_ofText (h ▸ bad_notMem_tokens v hv)

end Partial

/-- What is written on one line is a text of what the value says. -/
theorem hasText_compact {j : Json} (hj : (said j).Fits) : (whole (said j)).HasText j.compact := by
  have htokens := tokens_compact j hj (stops_nil goesOn)
  rw [List.append_nil, Token.ofText_nil, List.append_nil] at htokens
  exact .of_tokens (isWhole_whole (said j)) htokens

/-- What is written on many lines is a text of what the value says. -/
theorem hasText_pretty {j : Json} (hj : (said j).Fits) (depth : Nat) :
    (whole (said j)).HasText (j.pretty depth) := by
  have htokens := tokens_pretty depth j hj (stops_nil goesOn)
  rw [List.append_nil, Token.ofText_nil, List.append_nil] at htokens
  exact .of_tokens (isWhole_whole (said j)) htokens

end ClipGraph.Json
