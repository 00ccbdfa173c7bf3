import ClipGraph.Node
import ClipGraph.Proofs.Digits
import ClipGraph.Script.Literal
import ClipGraph.Script.Statement

/-!
# Literals read back

A text between quotes is read back to its last character and whatever follows it is left alone, so
no text can close its own quotes. The reader knows the escapes and ends at the first quote that is not
escaped. Nothing that a literal is made of is a control character. Literals of numbers and truth values
are runs of a few plain characters, calls that make a double apart.
-/

namespace ClipGraph

/-- The ASCII control characters. -/
def Control (c : Char) : Prop := c.toNat < 0x20 ∨ c.toNat = 0x7f

instance (c : Char) : Decidable (Control c) := inferInstanceAs (Decidable (_ ∨ _))

/-- A text without control characters, line ends among them. -/
def Clean (cs : List Char) : Prop := ∀ c ∈ cs, ¬ Control c

instance (cs : List Char) : Decidable (Clean cs) := List.decidableBAll (¬ Control ·) cs

@[simp] theorem clean_cons {c : Char} {cs : List Char} :
    Clean (c :: cs) ↔ ¬ Control c ∧ Clean cs := List.forall_mem_cons

@[simp] theorem clean_append {cs ds : List Char} : Clean (cs ++ ds) ↔ Clean cs ∧ Clean ds :=
  List.forall_mem_append

theorem Clean.not_mem_newline {cs : List Char} (h : Clean cs) : '\n' ∉ cs :=
  fun hm => h '\n' hm (by decide)

theorem not_control_of_isTail {c : Char} (h : Identifier.isTail c = true) : ¬ Control c := by
  simp only [Identifier.isTail, Char.isAlphanum, Char.isAlpha, Char.isUpper, Char.isLower,
    Char.isDigit, Bool.or_eq_true, Bool.and_eq_true, decide_eq_true_eq, beq_iff_eq] at h
  have hrange : 0x30 ≤ c.toNat ∧ c.toNat ≤ 0x7a := by
    rcases h with ((h | h) | h) | rfl
    · change 0x41 ≤ c.toNat ∧ c.toNat ≤ 0x5a at h
      omega
    · change 0x61 ≤ c.toNat ∧ c.toNat ≤ 0x7a at h
      omega
    · change 0x30 ≤ c.toNat ∧ c.toNat ≤ 0x39 at h
      omega
    · decide
  unfold Control
  omega

theorem isDigit_of_mem_decimal {n : Nat} {c : Char} (h : c ∈ decimal n) : c.isDigit = true :=
  Text.isDigit_of_mem_toDigits h

theorem decimal_ne_nil (n : Nat) : decimal n ≠ [] := Nat.toDigits_ne_nil

@[simp] theorem natOf_decimal (n : Nat) : Text.natOf (decimal n) = n := Text.natOf_toDigits n

namespace Text

theorem hexValue?_hexDigit_mod (n : Nat) : hexValue? (hexDigit n) = some (n % 16) := by
  have h := hexValue?_hexDigit (n % 16) (Nat.mod_lt n (by decide))
  rwa [hexDigit, Nat.mod_mod] at h

theorem not_control_hexDigit (n : Nat) : ¬ Control (hexDigit n) := by
  have h : ∀ m < 16, ¬ Control (hexDigit m) := by decide
  have hn := h (n % 16) (Nat.mod_lt n (by decide))
  rwa [hexDigit, Nat.mod_mod] at hn

end Text

namespace Literal

theorem unescape_plain {c : Char} {rest : List Char} (hq : c ≠ '"') (hb : c ≠ '\\') :
    unescape (c :: rest) = (unescape rest).map fun (s, after) => (c :: s, after) := by
  rw [unescape]
  · cases unescape rest <;> rfl
  all_goals simp_all

/-- A character as it may be written between quotes: as itself, by a named escape, or by its number in
two hexadecimal digits. -/
inductive Spells : List Char → Char → Prop where
  | plain {c : Char} (hq : c ≠ '"') (hb : c ≠ '\\') : Spells [c] c
  | backslash : Spells ['\\', '\\'] '\\'
  | quote : Spells ['\\', '"'] '"'
  | newline : Spells ['\\', 'n'] '\n'
  | carriageReturn : Spells ['\\', 'r'] '\r'
  | tab : Spells ['\\', 't'] '\t'
  | hex {high low : Char} {h l : Nat} (hh : Text.hexValue? high = some h)
      (hl : Text.hexValue? low = some l) :
      Spells ['\\', 'x', high, low] (Char.ofNat (16 * h + l))

/-- The inside of a text literal, character by character. -/
inductive Body : List Char → List Char → Prop where
  | nil : Body [] []
  | cons {front body s : List Char} {c : Char} (hc : Spells front c) (hs : Body body s) :
      Body (front ++ body) (c :: s)

/-- Reading takes off one character after the other. -/
theorem unescape_spells {front rest : List Char} {c : Char} (h : Spells front c) :
    unescape (front ++ rest) = (unescape rest).map fun (s, after) => (c :: s, after) := by
  cases h with
  | plain hq hb => exact unescape_plain hq hb
  | hex hh hl => simp [unescape, hh, hl] ; cases unescape rest <;> rfl
  | _ => simp [unescape]; cases unescape rest <;> rfl

/-- Every character is spelled by what is written for it. -/
theorem spells_escape (c : Char) : Spells (escape c) c := by
  unfold escape
  split
  · next hc => exact hc ▸ .backslash
  split
  · next hc => exact hc ▸ .quote
  split
  · next hc => exact hc ▸ .newline
  split
  · next hc => exact hc ▸ .carriageReturn
  split
  · next hc => exact hc ▸ .tab
  split
  · next hc =>
    have hvalue : Char.ofNat (16 * (c.toNat / 16 % 16) + c.toNat % 16) = c := by
      have hsum : 16 * (c.toNat / 16 % 16) + c.toNat % 16 = c.toNat := by omega
      rw [hsum, Char.ofNat_toNat]
    have hspells := Spells.hex (Text.hexValue?_hexDigit_mod (c.toNat / 16))
      (Text.hexValue?_hexDigit_mod c.toNat)
    rwa [hvalue] at hspells
  · next hb hq _ _ _ _ => exact .plain hq hb

/-- A text is the inside of its own literal. -/
theorem body_escape (s : List Char) : Body (s.flatMap escape) s := by
  induction s with
  | nil => exact .nil
  | cons c s ih => exact .cons (spells_escape c) ih

/-- The inside of a literal is read up to the quote that closes it. -/
theorem Body.unescape {body s : List Char} (h : Body body s) (rest : List Char) :
    unescape (body ++ '"' :: rest) = some (s, rest) := by
  induction h with
  | nil => simp [Literal.unescape]
  | cons hc _ ih => rw [List.append_assoc, unescape_spells hc, ih, Option.map_some]

theorem exists_of_map_cons {c : Char} {cs s rest : List Char}
    (h : ((unescape cs).map fun (s, after) => (c :: s, after)) = some (s, rest)) :
    ∃ s', s = c :: s' ∧ unescape cs = some (s', rest) := by
  obtain ⟨⟨s', after⟩, hs, heq⟩ := Option.map_eq_some_iff.mp h
  obtain ⟨rfl, rfl⟩ := Prod.mk.inj heq
  exact ⟨s', rfl, hs⟩

/-- What is read is nothing up to a quote, or one character and what is read behind it. -/
theorem unescape_cases {cs s rest : List Char} (h : unescape cs = some (s, rest)) :
    (s = [] ∧ cs = '"' :: rest) ∨ ∃ front c cs' s', Spells front c ∧ cs = front ++ cs' ∧
      s = c :: s' ∧ unescape cs' = some (s', rest) := by
  -- whatever the first character is written as, reading goes on behind it
  have hgo : ∀ {front c cs'}, Spells front c → cs = front ++ cs' →
      ∃ front c cs' s', Spells front c ∧ cs = front ++ cs' ∧
        s = c :: s' ∧ unescape cs' = some (s', rest) := by
    rintro front c cs' hc rfl
    rw [unescape_spells hc] at h
    obtain ⟨s', hs, hrest⟩ := exists_of_map_cons h
    exact ⟨front, c, cs', s', hc, rfl, hs, hrest⟩
  rw [unescape.eq_def] at h
  split at h
  · cases h
  · obtain ⟨rfl, rfl⟩ := Prod.mk.inj (Option.some.inj h)
    exact .inl ⟨rfl, rfl⟩
  · next high low cs' =>
    cases hh : Text.hexValue? high with
    | none => simp [hh] at h
    | some a =>
      cases hl : Text.hexValue? low with
      | none => simp [hh, hl] at h
      | some b => exact .inr (hgo (.hex hh hl) rfl)
  · next c cs' _ =>
    split at h
    · exact .inr (hgo .backslash rfl)
    · exact .inr (hgo .quote rfl)
    · exact .inr (hgo .newline rfl)
    · exact .inr (hgo .carriageReturn rfl)
    · exact .inr (hgo .tab rfl)
    · cases h
  · cases h
  · next c cs' hq _ hb hend =>
    have hc : c ≠ '\\' := by
      intro hc
      cases cs' with
      | nil => exact hend hc rfl
      | cons d cs' => exact hb d cs' hc rfl
    exact .inr (hgo (.plain hq hc) List.singleton_append.symm)

/-- Whatever is read as the inside of a literal was spelled character by character. -/
theorem exists_body_of_unescape {cs s rest : List Char} (h : unescape cs = some (s, rest)) :
    ∃ body, Body body s ∧ cs = body ++ '"' :: rest := by
  induction s generalizing cs with
  | nil =>
    rcases unescape_cases h with ⟨-, rfl⟩ | ⟨_, _, _, _, -, -, hs, -⟩
    · exact ⟨[], .nil, rfl⟩
    · cases hs
  | cons c s ih =>
    rcases unescape_cases h with ⟨hs, -⟩ | ⟨front, c', cs', s', hc, rfl, hs, hrest⟩
    · cases hs
    · obtain ⟨rfl, rfl⟩ := List.cons.inj hs
      obtain ⟨body, hbody, rfl⟩ := ih hrest
      exact ⟨front ++ body, .cons hc hbody, by rw [List.append_assoc]⟩

/-- A literal is read off a line just if the line starts with a quoted body. -/
theorem unquote_eq_some_iff {cs s rest : List Char} : unquote cs = some (s, rest) ↔
    ∃ body, Body body s ∧ cs = '"' :: (body ++ '"' :: rest) := by
  constructor
  · intro h
    unfold unquote at h
    split at h
    · obtain ⟨body, hbody, rfl⟩ := exists_body_of_unescape h
      exact ⟨body, hbody, rfl⟩
    · cases h
  · rintro ⟨body, hbody, rfl⟩
    exact hbody.unescape rest

/-- A text literal reads back to its text, whatever follows it. -/
theorem unquote_quote (s rest : List Char) : unquote (quote s ++ rest) = some (s, rest) :=
  unquote_eq_some_iff.mpr ⟨s.flatMap escape, body_escape s, by simp [quote]⟩

/-- What is written for a character holds no control character. -/
theorem clean_escape (c : Char) : Clean (escape c) := by
  unfold escape
  split
  · decide
  split
  · decide
  split
  · decide
  split
  · decide
  split
  · decide
  split
  · rw [clean_cons, clean_cons, clean_cons, clean_cons]
    exact ⟨by decide, by decide, Text.not_control_hexDigit _, Text.not_control_hexDigit _, by decide⟩
  · next hc => exact clean_cons.mpr ⟨hc, by decide⟩

/-- No control character stands in a text literal. -/
theorem clean_quote (s : List Char) : Clean (quote s) := by
  have hbody : Clean (s.flatMap escape) := by
    intro d hd
    obtain ⟨c, -, hd⟩ := List.mem_flatMap.mp hd
    exact clean_escape c d hd
  exact clean_cons.mpr ⟨by decide, clean_append.mpr ⟨hbody, by decide⟩⟩

/-- The reader of text literals takes exactly what characters between quotes may be written as, up to the
first quote that is not escaped. From the front of anything it reads a text literal back to its text, and
no control character stands in one. -/
theorem unquote_exact_and_quote_reads_back :
    (∀ cs s rest, unquote cs = some (s, rest) ↔
      ∃ body, Body body s ∧ cs = '"' :: (body ++ '"' :: rest)) ∧
    (∀ s rest, unquote (quote s ++ rest) = some (s, rest)) ∧ ∀ s, Clean (quote s) :=
  ⟨fun _ _ _ => unquote_eq_some_iff, unquote_quote, clean_quote⟩

/-- The characters of numbers: digits, points and minus signs. -/
def isNumeral (c : Char) : Bool := c.isDigit || c == '.' || c == '-'

structure Numeral (cs : List Char) : Prop where
  nonempty : cs ≠ []
  chars : ∀ c ∈ cs, isNumeral c = true

theorem not_control_of_isNumeral {c : Char} (h : isNumeral c = true) : ¬ Control c := by
  simp only [isNumeral, Bool.or_eq_true, beq_iff_eq] at h
  rcases h with (h | rfl) | rfl
  · exact not_control_of_isTail (by simp [Identifier.isTail, Char.isAlphanum, h])
  · decide
  · decide

theorem Numeral.clean {cs : List Char} (h : Numeral cs) : Clean cs :=
  fun c hc => not_control_of_isNumeral (h.chars c hc)

theorem Numeral.minus {cs : List Char} (hc : Numeral cs) : Numeral ('-' :: cs) where
  nonempty := List.cons_ne_nil _ _
  chars := List.forall_mem_cons.mpr ⟨by decide, hc.chars⟩

theorem numeral_decimal (n : Nat) : Numeral (decimal n) where
  nonempty := decimal_ne_nil n
  chars := fun c h => by simp [isNumeral, isDigit_of_mem_decimal h]

theorem numeral_writeInt (n : Int) : Numeral (writeInt n) := by
  unfold writeInt
  split
  · exact (numeral_decimal n.natAbs).minus
  · exact numeral_decimal n.natAbs

theorem isNumeral_of_mem_zeros {n : Nat} {c : Char} (h : c ∈ FloatFormat.zeros n) :
    isNumeral c = true := by
  rw [FloatFormat.zeros] at h
  rw [List.eq_of_mem_replicate h]
  decide

theorem numeral_pointed {digits : List Char} (hd : ∀ d ∈ digits, isNumeral d = true) (point : Int) :
    Numeral (FloatFormat.pointed digits point) := by
  unfold FloatFormat.pointed
  split
  · refine ⟨by simp, ?_⟩
    intro c hc
    simp only [List.mem_append, List.mem_cons, List.not_mem_nil, or_false] at hc
    rcases hc with ((rfl | rfl) | hc) | hc
    · decide
    · decide
    · exact isNumeral_of_mem_zeros hc
    · exact hd c hc
  split
  · refine ⟨by simp, ?_⟩
    intro c hc
    simp only [List.mem_append, List.mem_cons, List.not_mem_nil, or_false] at hc
    rcases hc with (hc | hc) | rfl | rfl
    · exact hd c hc
    · exact isNumeral_of_mem_zeros hc
    · decide
    · decide
  · refine ⟨by simp, ?_⟩
    intro c hc
    simp only [List.mem_append, List.mem_cons, List.not_mem_nil, or_false] at hc
    rcases hc with (hc | rfl) | hc
    · exact hd c (List.mem_of_mem_take hc)
    · decide
    · exact hd c (List.mem_of_mem_drop hc)

/-- A double is written in digits, points and minus signs only. -/
theorem numeral_writeRank (rank : Nat) : Numeral (floatFormat.writeRank rank) := by
  unfold FloatFormat.writeRank
  split
  · exact ⟨by simp, List.all_eq_true.mp (by decide)⟩
  · have hpositional : ∀ n, floatFormat.positional n = true := fun _ => rfl
    simp only [hpositional, if_true]
    exact numeral_pointed (numeral_decimal _).chars _

/-- A double is a call or a run of the characters of numbers. -/
theorem writeFloat_cases (x : Binary64) :
    (∃ word ∈ ["nan", "-inf", "inf"],
      writeFloat x = "float(\"".toList ++ word.toList ++ "\")".toList) ∨
      Numeral (writeFloat x) := by
  unfold writeFloat
  split
  · exact .inl ⟨"nan", by simp, by decide⟩
  split
  · split
    · exact .inl ⟨"-inf", by simp, by decide⟩
    · exact .inl ⟨"inf", by simp, by decide⟩
  · refine .inr ?_
    unfold FloatFormat.write
    split
    · exact (numeral_writeRank x.rank).minus
    · exact numeral_writeRank x.rank

end Literal

theorem clean_decimal (n : Nat) : Clean (decimal n) := (Literal.numeral_decimal n).clean

/-- No control character stands in the literal of a value. -/
theorem Param.clean_literal (value : Param) : Clean value.literal := by
  cases value with
  | bool b => cases b <;> decide
  | int n => exact (Literal.numeral_writeInt _).clean
  | float x =>
    rcases Literal.writeFloat_cases x with ⟨w, hw, hx⟩ | hx
    · have hwords : ∀ w ∈ ["nan", "-inf", "inf"],
          Clean ("float(\"".toList ++ w.toList ++ "\")".toList) := by decide
      rw [Param.literal, hx]
      exact hwords w hw
    · exact hx.clean
  | text s => exact Literal.clean_quote _

end ClipGraph
