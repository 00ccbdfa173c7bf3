import ClipGraph.Json.Token
import ClipGraph.Proofs.Literals
import ClipGraph.Proofs.Scaling

/-!
# The tokens of a written value

A number or a string is read off the front of a text to its last character, whatever follows it. So
both layouts of a value, on one line and on many, come to the tokens of the value, and the blanks
between them are gone.
-/

namespace ClipGraph.Json

/-- The numbers that a text can hold: an integer fits into a word of 64 bits, signed or not, and a
double is finite. -/
def Number.Fits : Number → Prop
  | .integer n => -(2 ^ 63) ≤ n ∧ n < 2 ^ 64
  | .float x => x.isFinite = true

/-- The double that the text of a double is read as. -/
def reread (x : Binary64) : Binary64 :=
  match Token.readNumber (writeNumber (.float x)) with
  | some (.float y, _) => y
  | _ => x

/-- A double that its own text is read as. -/
def ReadsBack (x : Binary64) : Prop :=
  Token.readNumber (writeNumber (.float x)) = some (.float x, [])

/-- The characters that go on with a number. -/
def goesOn (c : Char) : Bool := c.isDigit || c == '.' || c == 'e' || c == 'E'

namespace Token

open Text (IsWhole spanDigits spanDigits_run natOf natOf_toDigits isWhole_toDigits
  isDigit_of_mem_toDigits)

section Numbers

variable {rest : List Char}

theorem readWhole_append {whole : List Char} (hw : IsWhole whole) (hr : Stops Char.isDigit rest) :
    readWhole (whole ++ rest) = some (whole, rest) := by
  unfold readWhole
  rw [spanDigits_run hw.digits hr]
  split
  · next h => exact absurd (congrArg Prod.fst h) hw.nonempty
  · next c cs _ h =>
    have h0 : whole = '0' :: c :: cs := congrArg Prod.fst h
    have hzero := hw.noZero (by rw [h0]; rfl)
    rw [h0] at hzero
    simp at hzero
  · next digits after _ _ h =>
    rw [Prod.mk.injEq] at h
    rw [h.1, h.2]

theorem readFraction_text {fraction : Option (List Char)}
    (hf : ∀ digits ∈ fraction, digits ≠ [] ∧ ∀ c ∈ digits, c.isDigit = true)
    (hr : Stops Char.isDigit rest) (hp : rest.head? ≠ some '.') :
    readFraction (Figure.fractionText fraction ++ rest) = some (fraction, rest) := by
  cases fraction with
  | none =>
    rw [Figure.fractionText, List.nil_append]
    unfold readFraction
    split
    · exact absurd rfl hp
    · rfl
  | some digits =>
    obtain ⟨hne, hdigits⟩ := hf digits rfl
    simp only [Figure.fractionText, List.cons_append, readFraction, spanDigits_run hdigits hr]

theorem readExponent_text {exponent : Option Int} (hr : Stops goesOn rest) :
    readExponent (Figure.exponentText exponent ++ rest) = some (exponent, rest) := by
  cases exponent with
  | none =>
    cases rest with
    | nil => rfl
    | cons c rest =>
      have hc := hr c rfl
      simp only [goesOn, Bool.or_eq_false_iff, beq_eq_false_iff_ne] at hc
      simp [Figure.exponentText, readExponent, hc.1.2, hc.2]
  | some e =>
    have hstop : Stops Char.isDigit rest := hr.mono fun c hc => by simp [goesOn, hc]
    have hspan : spanDigits (Nat.toDigits 10 e.natAbs ++ rest) = (Nat.toDigits 10 e.natAbs, rest) :=
      spanDigits_run (fun _ => isDigit_of_mem_toDigits) hstop
    have hsign : readExponentSign ((if e < 0 then '-' else '+') ::
        (Nat.toDigits 10 e.natAbs ++ rest)) =
        (decide (e < 0), Nat.toDigits 10 e.natAbs ++ rest) := by
      split
      · next he => simp [readExponentSign, he]
      · next he => simp [readExponentSign, he]
    have hvalue : (if e < 0 then -(e.natAbs : Int) else e.natAbs) = e := by split <;> omega
    simp only [Figure.exponentText, List.cons_append, readExponent, true_or, if_true, hsign, hspan]
    split
    · next h => exact absurd (congrArg Prod.fst h) Nat.toDigits_ne_nil
    · next digits after _ h =>
      rw [Prod.mk.injEq] at h
      rw [← h.1, ← h.2, natOf_toDigits]
      simpa using hvalue

theorem readSign_append (negative : Bool) {whole : List Char} (hw : IsWhole whole) :
    readSign ((if negative then ['-'] else []) ++ (whole ++ rest)) = (negative, whole ++ rest) := by
  cases negative with
  | true => rfl
  | false =>
    obtain ⟨c, cs, rfl⟩ := List.exists_cons_of_ne_nil hw.nonempty
    have hc : c ≠ '-' := by
      rintro rfl
      exact absurd (hw.digits '-' List.mem_cons_self) (by decide)
    simp [readSign, hc]

/-- A figure is read to its end. -/
theorem readNumber_figure {f : Figure} (hf : f.WellFormed) (negative : Bool)
    (hr : Stops goesOn rest) :
    readNumber ((if negative then ['-'] else []) ++ (f.text ++ rest)) =
      some (makeNumber negative f.whole f.fraction f.exponent, rest) := by
  have hdigit : ∀ c, c.isDigit = true → goesOn c = true := fun c hc => by simp [goesOn, hc]
  have hexponent : Stops Char.isDigit (Figure.exponentText f.exponent ++ rest) ∧
      (Figure.exponentText f.exponent ++ rest).head? ≠ some '.' := by
    cases f.exponent with
    | none =>
      refine ⟨hr.mono hdigit, ?_⟩
      intro hp
      exact absurd (hr '.' hp) (by decide)
    | some e => exact ⟨stops_cons (by decide), by simp [Figure.exponentText]⟩
  have hfraction : Stops Char.isDigit
      (Figure.fractionText f.fraction ++ (Figure.exponentText f.exponent ++ rest)) := by
    cases f.fraction with
    | none => exact hexponent.1
    | some digits => exact stops_cons (by decide)
  rw [readNumber, Figure.text, List.append_assoc, List.append_assoc,
    readSign_append negative hf.whole]
  simp only [readWhole_append hf.whole hfraction,
    readFraction_text hf.fraction hexponent.1 hexponent.2, readExponent_text hr,
    Option.bind_eq_bind, Option.bind_some, Option.pure_def]

theorem integer?_natAbs {n : Int} (hn : Number.Fits (.integer n)) :
    integer? (decide (n < 0)) n.natAbs = some n := by
  obtain ⟨hlow, hhigh⟩ := hn
  have h63 : Nat.pow 2 63 = 9223372036854775808 := rfl
  have h64 : Nat.pow 2 64 = 18446744073709551616 := rfl
  unfold integer?
  rw [h63, h64]
  split
  · next hneg =>
    have hlt := of_decide_eq_true hneg
    rw [if_pos (by omega), show -(n.natAbs : Int) = n by omega]
  · next hneg =>
    have hge : ¬ n < 0 := fun h => hneg (decide_eq_true h)
    rw [if_pos (by omega), show (n.natAbs : Int) = n by omega]

theorem fits_of_integer? {negative : Bool} {m : Nat} {n : Int} (h : integer? negative m = some n) :
    Number.Fits (.integer n) := by
  have h63 : Nat.pow 2 63 = 9223372036854775808 := rfl
  have h64 : Nat.pow 2 64 = 18446744073709551616 := rfl
  unfold integer? at h
  rw [h63, h64] at h
  simp only [Number.Fits]
  split at h <;> split at h
  · have hn := Option.some.inj h
    omega
  · cases h
  · have hn := Option.some.inj h
    omega
  · cases h

/-- An integer that is read from a text fits into a word. -/
theorem fits_of_makeNumber {negative : Bool} {whole : List Char} {fraction : Option (List Char)}
    {exponent : Option Int} {n : Int}
    (h : makeNumber negative whole fraction exponent = .integer n) : Number.Fits (.integer n) := by
  unfold makeNumber at h
  split at h
  · cases h
  split at h
  · next m hm =>
    obtain rfl := Number.integer.inj h
    exact fits_of_integer? hm
  · cases h

/-- An integer that is read fits into a word. -/
theorem fits_of_readNumber {cs after : List Char} {n : Int}
    (h : readNumber cs = some (.integer n, after)) : Number.Fits (.integer n) := by
  simp only [readNumber, Option.bind_eq_bind, Option.bind_eq_some_iff, Prod.exists, Option.pure_def,
    Option.some.injEq, Prod.mk.injEq] at h
  obtain ⟨_, _, -, _, _, -, _, _, -, hn, -⟩ := h
  exact fits_of_makeNumber hn

/-- An integer is read back from its text. -/
theorem readNumber_writeInteger {n : Int} (hn : Number.Fits (.integer n)) (hr : Stops goesOn rest) :
    readNumber (writeNumber (.integer n) ++ rest) = some (.integer n, rest) := by
  let f : Figure := ⟨Nat.toDigits 10 n.natAbs, none, none⟩
  have hf : f.WellFormed := ⟨isWhole_toDigits _, by simp [f]⟩
  have htext : writeNumber (.integer n) ++ rest =
      (if decide (n < 0) then ['-'] else []) ++ (f.text ++ rest) := by
    simp only [writeNumber, f, Figure.text, Figure.fractionText, Figure.exponentText]
    split <;> simp_all
  rw [htext, readNumber_figure hf _ hr]
  simp [f, makeNumber, natOf_toDigits, integer?_natAbs hn]

theorem makeNumber_of_marked {f : Figure} (hf : f.fraction ≠ none ∨ f.exponent ≠ none)
    (negative : Bool) : makeNumber negative f.whole f.fraction f.exponent =
      .float (.ofRank negative f.scaledRank) := by
  refine if_pos ?_
  rwa [Bool.or_eq_true, Option.isSome_iff_ne_none, Option.isSome_iff_ne_none]

/-- The text of a finite magnitude comes to a finite one. Only the text of the largest has to be looked
at for it, as among the other decimals that spell it there are some that overflow. -/
theorem writeRank_figure {r : Nat} (h : r < Binary64.infiniteRank) :
    ∃ f : Figure, floatFormat.writeRank r = f.text ∧ f.Spells r ∧
      f.scaledRank < Binary64.infiniteRank := by
  by_cases hlast : r = Binary64.infiniteRank - 1
  · let f : Figure := ⟨['1'], some (Nat.toDigits 10 7976931348623157), some 308⟩
    have htext : floatFormat.writeRank (Binary64.infiniteRank - 1) = f.text := by decide +kernel
    have hrank : f.decimal.rank = Binary64.infiniteRank - 1 := by decide +kernel
    have hfinite : f.scaledRank < Binary64.infiniteRank := by decide +kernel
    have hwhole : IsWhole ['1'] := Text.isWhole_of_head (by simp) (by simp) (by simp)
    have hf : f.WellFormed :=
      Figure.wellFormed_pointed hwhole Nat.toDigits_ne_nil fun _ => isDigit_of_mem_toDigits
    rw [hlast]
    exact ⟨f, htext, ⟨hf, .inl (by simp [f]), hrank⟩, hfinite⟩
  · obtain ⟨f, hwrite, hf⟩ := floatFormat.writeRank_spells h
    exact ⟨f, hwrite, hf, hf.scaledRank_lt_infinite (by omega)⟩

/-- The text of a finite double is read to its end, as a finite double. -/
theorem reread_spec {x : Binary64} (hx : x.isFinite = true) :
    (reread x).isFinite = true ∧ ∀ {rest}, Stops goesOn rest →
      readNumber (writeNumber (.float x) ++ rest) = some (.float (reread x), rest) := by
  obtain ⟨f, hwrite, hf, hfinite⟩ := writeRank_figure (Binary64.isFinite_iff.mp hx)
  have hread : ∀ {rest}, Stops goesOn rest → readNumber (writeNumber (.float x) ++ rest) =
      some (.float (.ofRank x.isNegative f.scaledRank), rest) := by
    intro rest hr
    have htext : writeNumber (.float x) ++ rest =
        (if x.isNegative then ['-'] else []) ++ (f.text ++ rest) := by
      simp only [writeNumber, hx, if_true, FloatFormat.write, hwrite]
      split <;> simp
    rw [htext, readNumber_figure hf.wellFormed _ hr, makeNumber_of_marked hf.marked]
  have hsame : reread x = .ofRank x.isNegative f.scaledRank := by
    have hend := hread (stops_nil goesOn)
    rw [List.append_nil] at hend
    rw [reread, hend]
  have hword : Binary64.infiniteRank < Nat.pow 2 63 := by decide
  rw [hsame]
  refine ⟨?_, hread⟩
  rwa [Binary64.isFinite_iff, Binary64.rank_ofRank (Nat.lt_trans hfinite hword)]

/-- A double whose text shows few digits and a small exponent is read back. -/
theorem readsBack_of_spells {x : Binary64} {f : Figure} (hx : x.isFinite = true)
    (htext : floatFormat.writeRank x.rank = f.text) (hf : f.Spells x.rank)
    (hdigits : f.decimal.digits ≤ 2 ^ 53) (hexponent : f.decimal.exponent.natAbs ≤ 22) :
    ReadsBack x := by
  have hwrite : writeNumber (.float x) =
      (if x.isNegative then ['-'] else []) ++ (f.text ++ []) := by
    simp only [writeNumber, hx, if_true, FloatFormat.write, htext, List.append_nil]
    split <;> rfl
  rw [ReadsBack, hwrite, readNumber_figure hf.wellFormed _ (stops_nil goesOn),
    makeNumber_of_marked hf.marked, Figure.scaledRank_eq_rank hdigits hexponent, hf.rank,
    Binary64.ofRank_rank]

/-- Only a finite double is read back. -/
theorem readsBack_iff {x : Binary64} : ReadsBack x ↔ x.isFinite = true ∧ reread x = x := by
  constructor
  · intro h
    refine ⟨?_, by rw [reread, h]⟩
    by_contra hx
    have hnull : readNumber "null".toList = none := rfl
    rw [ReadsBack, writeNumber, if_neg hx, hnull] at h
    cases h
  · rintro ⟨hx, hsame⟩
    have hend := (reread_spec hx).2 (stops_nil goesOn)
    rwa [List.append_nil, hsame] at hend

end Numbers

section Strings

theorem hex4?_control {n : Nat} (h : n < 0x20) :
    hex4? '0' '0' (Text.hexDigit (n / 16)) (Text.hexDigit n) = some n := by
  have hzero : Text.hexValue? '0' = some 0 := by decide
  have hsum : (n / 16 % 16) * 16 + n % 16 = n := by omega
  simp [hex4?, hzero, Text.hexValue?_hexDigit_mod, hsum]

theorem readString_plain {c : Char} {rest : List Char} (hq : c ≠ '"') (hb : c ≠ '\\')
    (hc : ¬ c.toNat < 0x20) : readString (c :: rest) =
      (readString rest).map fun (s, after) => (c.toNat :: s, after) := by
  rw [readString]
  · rw [if_neg (by simp [hc, hb])]
    cases readString rest <;> rfl
  all_goals simp_all

/-- One character more in front of a string that reads back. -/
theorem readString_escape {c : Char} {rest after : List Char} {s : List Nat}
    (h : readString rest = some (s, after)) :
    readString (escape c ++ rest) = some (c.toNat :: s, after) := by
  unfold escape
  split
  · next hc => simp [readString, h, hc, shortEscape?]
  split
  · next hc => simp [readString, h, hc, shortEscape?]
  split
  · next hc => simp [readString, h, hc, shortEscape?]
  split
  · next hc => simp [readString, h, hc, shortEscape?]
  split
  · next hc => simp [readString, h, hc, shortEscape?]
  split
  · next hc => simp [readString, h, hc, shortEscape?]
  split
  · next hc => simp [readString, h, hc, shortEscape?]
  split
  · next hc => simp [readString, h, hex4?_control hc]
  · next hq hb _ _ _ _ _ hc =>
    rw [List.singleton_append, readString_plain hq hb hc, h]
    rfl

/-- A string is read back up to its closing quote. -/
theorem readString_flatMap (cs rest : List Char) :
    readString (cs.flatMap escape ++ '"' :: rest) = some (cs.map Char.toNat, rest) := by
  induction cs with
  | nil => simp [readString]
  | cons c cs ih =>
    rw [List.flatMap_cons, List.append_assoc]
    exact readString_escape ih

/-- Text has no half of a surrogate pair on its own. -/
theorem joinPairs_toNat (cs : List Char) : joinPairs (cs.map Char.toNat) = some cs := by
  induction cs with
  | nil => rfl
  | cons c cs ih =>
    have hvalid : c.toNat < 0xd800 ∨ 0xdfff < c.toNat ∧ c.toNat < 0x110000 := c.valid
    have hfirst : ¬ (0xd800 ≤ c.toNat ∧ c.toNat < 0xdc00) := by omega
    have hsecond : ¬ (0xdc00 ≤ c.toNat ∧ c.toNat < 0xe000) := by omega
    rw [List.map_cons]
    unfold joinPairs
    rw [if_neg hfirst, if_neg hsecond, ih, Char.ofNat_toNat]
    rfl

end Strings

section Tokens

variable {rest : List Char}

@[simp] theorem ofText_nil : ofText [] = [] := by rw [ofText]

theorem ofText_space {c : Char} (hc : isSpace c = true) : ofText (c :: rest) = ofText rest := by
  rw [ofText, if_pos hc]

/-- Blanks in front of a text say nothing. -/
theorem ofText_spaces {blanks : List Char} (hb : ∀ c ∈ blanks, isSpace c = true) :
    ofText (blanks ++ rest) = ofText rest := by
  induction blanks with
  | nil => rfl
  | cons c blanks ih =>
    obtain ⟨hc, hb⟩ := List.forall_mem_cons.mp hb
    rw [List.cons_append, ofText_space hc, ih hb]

/-- A token read off the front of a text. -/
theorem ofText_read {cs after : List Char} {t : Token} (hs : Stops isSpace cs)
    (h : read? cs = some (t, after)) : ofText cs = t :: ofText after := by
  cases cs with
  | nil => exact absurd (length_read? h) (by simp)
  | cons c cs =>
    rw [ofText, if_neg (by simp [hs c rfl])]
    split
    · next hnone => simp [hnone] at h
    · next token after' hsome =>
      rw [hsome, Option.some.injEq, Prod.mk.injEq] at h
      rw [h.1, h.2]

/-- A string comes to its token, whatever is in it. -/
theorem ofText_string (s : String) :
    ofText (writeString s ++ rest) = .string (some s) :: ofText rest := by
  refine ofText_read (stops_cons (by decide)) ?_
  simp only [writeString, List.cons_append, List.append_assoc, List.nil_append, read?,
    readString_flatMap, Option.map_some, joinPairs_toNat, String.ofList_toList]

/-- A number starts with a minus or a digit. -/
theorem head_of_readNumber {cs after : List Char} {n : Number}
    (h : readNumber cs = some (n, after)) : ∃ c ∈ cs.head?, c = '-' ∨ c.isDigit = true := by
  cases cs with
  | nil => simp [readNumber, readSign, readWhole, Text.spanDigits] at h
  | cons c cs =>
    refine ⟨c, rfl, ?_⟩
    by_contra hc
    obtain ⟨hminus, hdigit⟩ := not_or.mp hc
    have hsign : readSign (c :: cs) = (false, c :: cs) := by simp [readSign, hminus]
    have hwhole : readWhole (c :: cs) = none := by simp [readWhole, spanDigits, hdigit]
    simp [readNumber, hsign, hwhole] at h

theorem read?_of_readNumber {cs after : List Char} {n : Number}
    (h : readNumber cs = some (n, after)) : read? cs = some (.number n, after) := by
  obtain ⟨c, hhead, hc⟩ := head_of_readNumber h
  unfold read?
  split
  case h_11 => rw [h, Option.map_some]
  all_goals
    simp only [List.head?_cons, Option.mem_some_iff] at hhead
    subst hhead
    exact absurd hc (by decide)

theorem isSpace_of_isDigit {c : Char} (hc : c.isDigit = true) : isSpace c = false := by
  simp only [isSpace, Bool.or_eq_false_iff, beq_eq_false_iff_ne]
  refine ⟨⟨⟨?_, ?_⟩, ?_⟩, ?_⟩ <;> (rintro rfl; exact absurd hc (by decide))

/-- A number is read off the front of a text that does not go on with it. -/
theorem ofText_of_readNumber {cs after : List Char} {n : Number}
    (h : readNumber cs = some (n, after)) : ofText cs = .number n :: ofText after := by
  refine ofText_read ?_ (read?_of_readNumber h)
  obtain ⟨c, hhead, hc⟩ := head_of_readNumber h
  intro d hd
  obtain rfl : c = d := Option.mem_unique hhead hd
  rcases hc with rfl | hc
  · decide
  · exact isSpace_of_isDigit hc

/-- An integer comes to its token if what follows does not go on with it. -/
theorem ofText_integer {n : Int} (hn : Number.Fits (.integer n)) (hr : Stops goesOn rest) :
    ofText (writeNumber (.integer n) ++ rest) = .number (.integer n) :: ofText rest :=
  ofText_of_readNumber (readNumber_writeInteger hn hr)

/-- A double is read as what its text comes to. -/
theorem ofText_float {x : Binary64} (hx : x.isFinite = true) (hr : Stops goesOn rest) :
    ofText (writeNumber (.float x) ++ rest) = .number (.float (reread x)) :: ofText rest :=
  ofText_of_readNumber ((reread_spec hx).2 hr)

theorem ofText_null : ofText ("null".toList ++ rest) = .null :: ofText rest :=
  ofText_read (stops_cons (by decide)) rfl

theorem ofText_bool (b : Bool) :
    ofText ((if b then "true".toList else "false".toList) ++ rest) = .bool b :: ofText rest := by
  cases b <;> exact ofText_read (stops_cons (by decide)) rfl

@[simp] theorem ofText_comma : ofText (',' :: rest) = .comma :: ofText rest :=
  ofText_read (stops_cons (by decide)) rfl

@[simp] theorem ofText_colon : ofText (':' :: rest) = .colon :: ofText rest :=
  ofText_read (stops_cons (by decide)) rfl

@[simp] theorem ofText_arrayOpen : ofText ('[' :: rest) = .arrayOpen :: ofText rest :=
  ofText_read (stops_cons (by decide)) rfl

@[simp] theorem ofText_arrayClose : ofText (']' :: rest) = .arrayClose :: ofText rest :=
  ofText_read (stops_cons (by decide)) rfl

@[simp] theorem ofText_objectOpen : ofText ('\x7b' :: rest) = .objectOpen :: ofText rest :=
  ofText_read (stops_cons (by decide)) rfl

@[simp] theorem ofText_objectClose : ofText ('\x7d' :: rest) = .objectClose :: ofText rest :=
  ofText_read (stops_cons (by decide)) rfl

@[simp] theorem ofText_newLine (depth : Nat) : ofText (newLine depth ++ rest) = ofText rest := by
  refine ofText_spaces (List.forall_mem_cons.mpr ⟨by decide, ?_⟩)
  intro c hc
  rw [List.eq_of_mem_replicate hc]
  decide

theorem readNumber_of_read? {cs after : List Char} {n : Number}
    (h : read? cs = some (.number n, after)) : readNumber cs = some (n, after) := by
  unfold read? at h
  split at h
  case h_11 =>
    obtain ⟨⟨m, after'⟩, hread, heq⟩ := Option.map_eq_some_iff.mp h
    rw [Prod.mk.injEq, Token.number.injEq] at heq
    rw [hread, heq.1, heq.2]
  all_goals simp at h

/-- Every integer of a text fits into a word. -/
theorem fits_of_mem_ofText {cs : List Char} {n : Int} (h : .number (.integer n) ∈ ofText cs) :
    Number.Fits (.integer n) := by
  fun_induction ofText cs with
  | case1 => cases h
  | case2 c rest hc ih => exact ih h
  | case3 c rest hc hread => simp at h
  | case4 c rest hc token after hread ih =>
    rcases List.mem_cons.mp h with rfl | h
    · exact fits_of_readNumber (readNumber_of_read? hread)
    · exact ih h

end Tokens

end Token
end ClipGraph.Json
