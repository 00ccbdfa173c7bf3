import ClipGraph.Proofs.Grammar
import ClipGraph.Proofs.Rounding

/-!
# Values of literals

A literal says which value it stands for: quotes make a text, two words the truth values, a point between
digits a double, and digits alone a whole number. So values with the same literal are the same, the NaNs
apart, which all have one literal. The digits of a finite double make a number that no other double with
this sign is nearest to.
-/

namespace ClipGraph

namespace Binary64

def nan : Binary64 := .ofRank false (infiniteRank + Nat.pow 2 51)

def infinite (negative : Bool) : Binary64 := .ofRank negative infiniteRank

end Binary64

namespace Text

structure IsDigits (cs : List Char) : Prop where
  nonempty : cs ≠ []
  digits : ∀ c ∈ cs, c.isDigit = true

theorem IsWhole.isDigits {cs : List Char} (h : IsWhole cs) : IsDigits cs := ⟨h.nonempty, h.digits⟩

/-- The exact number that digits with a point between them spell. -/
def pointValue (whole fraction : List Char) : ℚ :=
  natOf whole + natOf fraction / 10 ^ fraction.length

theorem pointValue_eq (whole fraction : List Char) : pointValue whole fraction =
    Decimal.value ⟨natOf (whole ++ fraction), -fraction.length⟩ := by
  rw [pointValue, Decimal.value, natOf_append, zpow_neg, zpow_natCast]
  push_cast
  field_simp

end Text

open Text (IsDigits natOf)

namespace Reading

def sign : List Char → Bool × List Char
  | '-' :: cs => (true, cs)
  | cs => (false, cs)

/-- A whole number, if it fits into a signed word. -/
def integer? (negative : Bool) (n : Nat) : Option Param :=
  let value : Int := if negative then -n else n
  if Int64.minValue.toInt ≤ value ∧ value ≤ Int64.maxValue.toInt then some (.int (.ofInt value))
  else none

/-- The value of a number. Only a point makes it a double. -/
def numeral? (cs : List Char) : Option Param := do
  let (negative, cs) := sign cs
  let (whole, cs) ← span Char.isDigit cs
  match cs with
  | [] => integer? negative (natOf whole)
  | '.' :: cs =>
    let (fraction, cs) ← span Char.isDigit cs
    if cs = [] then
      some (.float (Decimal.toBinary64 negative ⟨natOf (whole ++ fraction), -fraction.length⟩))
    else none
  | _ => none

end Reading

/-- The value that a spelling stands for. -/
def Spelling.value? : Spelling → Option Param
  | .text s => some (.text s)
  | .plain cs =>
    if cs = "True".toList then some (.bool true)
    else if cs = "False".toList then some (.bool false)
    else if cs = "float(\"nan\")".toList then some (.float .nan)
    else if cs = "float(\"inf\")".toList then some (.float (.infinite false))
    else if cs = "float(\"-inf\")".toList then some (.float (.infinite true))
    else Reading.numeral? cs

/-- The value that a literal is read back to: the value itself, with one NaN for all of them. -/
def Param.canonical : Param → Param
  | .float x => .float (if x.isNaN then .nan else x)
  | value => value

namespace Literal

def minus (negative : Bool) : List Char := if negative then ['-'] else []

theorem writeInt_eq (n : Int) : writeInt n = minus (decide (n < 0)) ++ decimal n.natAbs := by
  by_cases h : n < 0 <;> simp [writeInt, minus, decimal, h]

theorem isDigits_decimal (n : Nat) : IsDigits (decimal n) :=
  (Text.isWhole_toDigits n).isDigits

/-- A finite double is digits with a point between them that read back to its rank. -/
theorem writeFloat_of_isFinite {x : Binary64} (hx : x.isFinite = true) :
    ∃ whole fraction, IsDigits whole ∧ IsDigits fraction ∧
      writeFloat x = minus x.isNegative ++ (whole ++ '.' :: fraction) ∧
      Decimal.rank ⟨natOf (whole ++ fraction), -fraction.length⟩ = x.rank := by
  have hlt := Binary64.isFinite_iff.mp hx
  have hpositional : ∀ n, floatFormat.positional n = true := fun _ => rfl
  obtain ⟨whole, fraction, htext, hspells⟩ := FloatFormat.writeRank_pointed hpositional hlt
  have hnan : x.isNaN = false := by simpa [Binary64.isNaN] using hlt.le
  have hinf : x.isInfinite = false := by simpa [Binary64.isInfinite] using hlt.ne
  obtain ⟨hne, hdigits⟩ := hspells.wellFormed.fraction fraction rfl
  refine ⟨whole, fraction, hspells.wellFormed.whole.isDigits, ⟨hne, hdigits⟩, ?_, ?_⟩
  · cases hneg : x.isNegative <;>
      simp [writeFloat, FloatFormat.write, minus, hnan, hinf, hneg, htext]
  · rw [← hspells.rank]
    simp [Figure.decimal]

end Literal

namespace Reading

/-- A minus is told from the digits that follow it. -/
theorem sign_minus {digits : List Char} (hd : IsDigits digits) (negative : Bool)
    (rest : List Char) :
    sign (Literal.minus negative ++ (digits ++ rest)) = (negative, digits ++ rest) := by
  cases negative with
  | true => rfl
  | false =>
    obtain ⟨hne, hdigits⟩ := hd
    cases digits with
    | nil => exact absurd rfl hne
    | cons c digits =>
      have hc : c ≠ '-' := by
        rintro rfl
        exact absurd (hdigits '-' List.mem_cons_self) (by decide)
      simp [Literal.minus, sign, hc]

theorem span_digits {digits rest : List Char} (hd : IsDigits digits)
    (hr : Stops Char.isDigit rest) : span Char.isDigit (digits ++ rest) = some (digits, rest) :=
  span_append hd.nonempty hd.digits hr

theorem numeral?_integer {digits : List Char} (hd : IsDigits digits) (negative : Bool) :
    numeral? (Literal.minus negative ++ digits) = integer? negative (natOf digits) := by
  have hsign := sign_minus hd negative []
  have hspan := span_digits hd (stops_nil _)
  rw [List.append_nil] at hsign hspan
  simp [numeral?, hsign, hspan]

/-- Digits around a point stand for the double that is nearest to them. -/
theorem numeral?_pointed {whole fraction : List Char} (hw : IsDigits whole)
    (hf : IsDigits fraction) (negative : Bool) :
    numeral? (Literal.minus negative ++ (whole ++ '.' :: fraction)) =
      some (.float
        (Decimal.toBinary64 negative ⟨natOf (whole ++ fraction), -fraction.length⟩)) := by
  have hpoint : Stops Char.isDigit ('.' :: fraction) := stops_cons (by decide)
  have hwhole := span_digits hw hpoint
  have hfraction := span_digits hf (stops_nil _)
  rw [List.append_nil] at hfraction
  simp [numeral?, sign_minus hw negative, hwhole, hfraction]

end Reading

namespace Literal

/-- A number is no word and no call. -/
theorem Numeral.value? {cs : List Char} (h : Numeral cs) :
    (Spelling.plain cs).value? = Reading.numeral? cs := by
  have hne : ∀ {word : List Char}, word.all isNumeral = false → cs ≠ word := by
    rintro word hword rfl
    exact absurd (List.all_eq_true.mpr h.chars) (by simp [hword])
  rw [Spelling.value?, if_neg (hne (by decide)), if_neg (hne (by decide)), if_neg (hne (by decide)),
    if_neg (hne (by decide)), if_neg (hne (by decide))]

theorem numeral_pointed_digits {whole fraction : List Char} (hw : IsDigits whole)
    (hf : IsDigits fraction) (negative : Bool) :
    Numeral (minus negative ++ (whole ++ '.' :: fraction)) where
  nonempty := by simp
  chars := by
    have hdigit : ∀ {c : Char}, c.isDigit = true → isNumeral c = true := by
      intro c hc
      simp [isNumeral, hc]
    intro c hc
    simp only [List.mem_append, List.mem_cons] at hc
    rcases hc with hc | hc | rfl | hc
    · cases negative with
      | true =>
        rw [List.mem_singleton.mp hc]
        decide
      | false => cases hc
    · exact hdigit (hw.digits c hc)
    · decide
    · exact hdigit (hf.digits c hc)

end Literal

namespace Param

/-- An integer stands for itself. -/
theorem value?_int (n : Int64) : (int n).spelling.value? = some (.int n) := by
  have hvalue : (if decide (n.toInt < 0) = true then -(n.toInt.natAbs : Int) else n.toInt.natAbs) =
      n.toInt := by
    simp only [decide_eq_true_eq]
    omega
  have hfits : Int64.minValue.toInt ≤ n.toInt ∧ n.toInt ≤ Int64.maxValue.toInt :=
    ⟨Int64.minValue_le_toInt n, Int64.toInt_le n⟩
  have hread : (int n).spelling.value? = Reading.numeral? (Literal.writeInt n.toInt) :=
    (Literal.numeral_writeInt _).value?
  rw [hread, Literal.writeInt_eq, Reading.numeral?_integer (Literal.isDigits_decimal _),
    natOf_decimal, Reading.integer?, hvalue, if_pos hfits, Int64.ofInt_toInt]

/-- A double stands for itself, and a NaN for the one that a call makes. -/
theorem value?_float (x : Binary64) : (float x).spelling.value? = some (float x).canonical := by
  have hspelling : (float x).spelling = .plain (Literal.writeFloat x) := rfl
  rw [hspelling, canonical]
  by_cases hnan : x.isNaN = true
  · rw [Literal.writeFloat, if_pos hnan, if_pos hnan]
    rfl
  by_cases hinf : x.isInfinite = true
  · have hx : x = .infinite x.isNegative := by
      rw [Binary64.infinite, ← beq_iff_eq.mp hinf, Binary64.ofRank_rank]
    rw [Literal.writeFloat, if_neg hnan, if_neg hnan, if_pos hinf, hx]
    cases x.isNegative <;> rfl
  · have hfinite : x.isFinite = true := by
      simp only [Binary64.isNaN, Binary64.isInfinite, Binary64.isFinite, decide_eq_true_eq,
        beq_iff_eq] at *
      omega
    obtain ⟨whole, fraction, hw, hf, htext, hrank⟩ := Literal.writeFloat_of_isFinite hfinite
    rw [htext, (Literal.numeral_pointed_digits hw hf _).value?, Reading.numeral?_pointed hw hf,
      Decimal.toBinary64, hrank, Binary64.ofRank_rank, if_neg hnan]

/-- A literal is read back to its value. -/
theorem value?_spelling (value : Param) : value.spelling.value? = some value.canonical := by
  cases value with
  | bool b => cases b <;> rfl
  | int n => exact value?_int n
  | float x => exact value?_float x
  | text s => rfl

/-- Nothing but NaNs is merged. -/
theorem eq_or_isNaN_of_canonical {a b : Param} (h : a.canonical = b.canonical) :
    a = b ∨ ∃ x y, a = .float x ∧ b = .float y ∧ x.isNaN = true ∧ y.isNaN = true := by
  have hnan : Binary64.nan.isNaN = true := by decide
  cases a <;> cases b <;> simp only [canonical, reduceCtorEq] at h
  case float.float x y =>
    rw [float.injEq] at h
    by_cases hx : x.isNaN = true
    · rw [if_pos hx] at h
      by_cases hy : y.isNaN = true
      · exact .inr ⟨x, y, rfl, rfl, hx, hy⟩
      · rw [if_neg hy] at h
        exact absurd (h ▸ hnan) hy
    · rw [if_neg hx] at h
      by_cases hy : y.isNaN = true
      · rw [if_pos hy] at h
        exact absurd (h ▸ hnan) hx
      · rw [if_neg hy] at h
        exact .inl (congrArg float h)
  all_goals exact .inl h

/-- Two values with one literal are the same or two NaNs. -/
theorem literal_eq_literal_iff {a b : Param} : a.literal = b.literal ↔
    a = b ∨ ∃ x y, a = .float x ∧ b = .float y ∧ x.isNaN = true ∧ y.isNaN = true := by
  constructor
  · intro h
    have ha := Reading.literal_append a (stops_nil _)
    rw [h, Reading.literal_append b (stops_nil _)] at ha
    have hspelling : b.spelling = a.spelling := by simpa using ha
    have hvalue := value?_spelling a
    rw [← hspelling, value?_spelling b, Option.some.injEq] at hvalue
    exact eq_or_isNaN_of_canonical hvalue.symm
  · rintro (rfl | ⟨x, y, rfl, rfl, hx, hy⟩)
    · rfl
    · simp [literal, Literal.writeFloat, hx, hy]

/-- The literal of a finite double is digits with a point between them, and the double is the only one
with this sign that is nearest to the number they spell. -/
theorem literal_float {x : Binary64} (hx : x.isFinite = true) : ∃ whole fraction,
    IsDigits whole ∧ IsDigits fraction ∧
      (float x).literal = Literal.minus x.isNegative ++ (whole ++ '.' :: fraction) ∧
      ∀ y : Binary64, y.isNegative = x.isNegative ∧
        Binary64.Nearest (Text.pointValue whole fraction) y.rank ↔ y = x := by
  obtain ⟨whole, fraction, hw, hf, htext, hrank⟩ := Literal.writeFloat_of_isFinite hx
  refine ⟨whole, fraction, hw, hf, htext, fun y => ?_⟩
  rw [Text.pointValue_eq, Decimal.nearest_value_iff, hrank]
  constructor
  · rintro ⟨hsign, hy⟩
    rw [← Binary64.ofRank_rank y, hsign, hy, Binary64.ofRank_rank]
  · rintro rfl
    exact ⟨rfl, rfl⟩

theorem literal_int (n : Int64) : ∃ digits, IsDigits digits ∧
    (int n).literal = Literal.minus (decide (n.toInt < 0)) ++ digits :=
  ⟨_, Literal.isDigits_decimal _, Literal.writeInt_eq _⟩

/-- A literal determines its value. Values with one literal are the same or two NaNs; a finite double is
digits with a point between them, and no other double of its sign is nearest to the number they spell; an
integer is digits without a point; and from the front of whatever does not go on with a plain character
every literal is read back to its value. -/
theorem literal_determines_value :
    (∀ a b : Param, a.literal = b.literal ↔
      a = b ∨ ∃ x y, a = .float x ∧ b = .float y ∧ x.isNaN = true ∧ y.isNaN = true) ∧
    (∀ x : Binary64, x.isFinite = true → ∃ whole fraction, IsDigits whole ∧ IsDigits fraction ∧
      (float x).literal = Literal.minus x.isNegative ++ (whole ++ '.' :: fraction) ∧
      ∀ y : Binary64, y.isNegative = x.isNegative ∧
        Binary64.Nearest (Text.pointValue whole fraction) y.rank ↔ y = x) ∧
    (∀ n : Int64, ∃ digits, IsDigits digits ∧
      (int n).literal = Literal.minus (decide (n.toInt < 0)) ++ digits) ∧
    ∀ (value : Param) (rest : List Char), Stops Reading.isPlain rest →
      ∃ spelling, Reading.literal (value.literal ++ rest) = some (spelling, rest) ∧
        spelling.value? = some value.canonical :=
  ⟨fun _ _ => literal_eq_literal_iff, fun _ => literal_float, literal_int, fun value _ hrest =>
    ⟨_, Reading.literal_append value hrest, value?_spelling value⟩⟩

end Param
end ClipGraph
