import ClipGraph.Number.Decimal
import ClipGraph.Proofs.Digits

/-!
# Doubles and their decimals

Rounding depends on the value of a quotient alone, and a double is its own rounding. So the two ways in
which the rank of a decimal is cut short agree with rounding its value, zeros may be moved between its
digits and its exponent, and the shortest decimal of a double reads back to it. What is written of that
decimal, with a point or with an exponent, spells the same number.
-/

namespace ClipGraph

namespace Binary64

theorem rank_ofRank {negative : Bool} {r : Nat} (h : r < Nat.pow 2 63) :
    (ofRank negative r).rank = r := by
  have hpow : Nat.pow 2 63 = 9223372036854775808 := rfl
  cases negative <;> simp [rank, ofRank, UInt64.toNat_ofNat'] at * <;> omega

/-- A double is its sign and its rank. -/
theorem ofRank_rank (x : Binary64) : ofRank x.isNegative x.rank = x := by
  obtain ⟨bits⟩ := x
  have hlt := bits.toNat_lt
  have hpow : Nat.pow 2 63 = 9223372036854775808 := rfl
  have hbits : (if Nat.pow 2 63 ≤ bits.toNat then bits.toNat % Nat.pow 2 63 + Nat.pow 2 63
      else bits.toNat % Nat.pow 2 63) = bits.toNat := by
    rw [hpow]
    split <;> omega
  simp only [ofRank, isNegative, rank, decide_eq_true_eq, hbits, UInt64.ofNat_toNat]

/-- A double is finite just if its rank is below that of infinity. -/
theorem isFinite_iff {x : Binary64} : x.isFinite = true ↔ x.rank < infiniteRank := by
  simp [isFinite]

theorem roundHalfEven_mul {k : Nat} (hk : 0 < k) (num den : Nat) :
    roundHalfEven (num * k) (den * k) = roundHalfEven num den := by
  have hlt : ∀ a b, a * k < b * k ↔ a < b := fun a b => Nat.mul_lt_mul_right hk
  simp only [roundHalfEven, Nat.mul_div_mul_right _ _ hk, Nat.mul_mod_mul_right, ← Nat.mul_assoc,
    hlt]

/-- A whole number is its own rounding. -/
theorem roundHalfEven_self {den : Nat} (hd : 0 < den) (n : Nat) :
    roundHalfEven (n * den) den = n := by
  simp [roundHalfEven, Nat.mul_div_cancel _ hd, hd]

/-- The nearest rank depends on the quotient only. -/
theorem nearestRank_mul {k : Nat} (hk : 0 < k) (num den : Nat) :
    nearestRank (num * k) (den * k) = nearestRank num den := by
  simp only [nearestRank, Nat.mul_div_mul_right _ _ hk, Nat.mul_right_comm den k,
    roundHalfEven_mul hk]

/-- Equal quotients have the same nearest rank. -/
theorem nearestRank_congr {a b c d : Nat} (hb : 0 < b) (hd : 0 < d) (h : a * d = c * b) :
    nearestRank a b = nearestRank c d := by
  rw [← nearestRank_mul hd a b, ← nearestRank_mul hb c d, h, Nat.mul_comm d b]

theorem nearestRank_eq_zero {num den : Nat} (h : 2 * num < den) : nearestRank num den = 0 := by
  have hlt : num < den := by omega
  simp [nearestRank, roundHalfEven, Nat.div_eq_of_lt hlt, Nat.mod_eq_of_lt hlt, h]

theorem nearestRank_eq_infinite {num size : Nat} (hs : 2099 ≤ size) (h : 2 ^ size ≤ num) :
    nearestRank num 1 = infiniteRank := by
  have hlog : size ≤ num.log2 := (Nat.le_log2 (by have := Nat.two_pow_pos size; omega)).mpr h
  refine Nat.min_eq_left ?_
  rw [Nat.div_one]
  exact le_trans (Nat.mul_le_mul_right _ (by omega)) (Nat.le_add_right _ _)

theorem log2_le_of_lt {n k : Nat} (h : n < 2 ^ (k + 1)) : n.log2 ≤ k := by
  by_cases h0 : n = 0
  · simp [h0]
  · exact Nat.le_of_lt_succ ((Nat.log2_lt h0).mpr h)

theorem roundHalfEven_le (num den : Nat) : roundHalfEven num den ≤ num / den + 1 := by
  simp only [roundHalfEven]
  split
  · omega
  split
  · omega
  · omega

/-- What is far below the largest double is not rounded to infinity. -/
theorem nearestRank_lt_infinite {num : Nat} (size : Nat) (hs : size < 2000)
    (h : num < 2 ^ (size + 1)) : nearestRank num 1 < infiniteRank := by
  have hlog := log2_le_of_lt h
  have hquotient : num / 2 ^ (num.log2 - 52) < 2 ^ 53 := by
    apply Nat.div_lt_of_lt_mul
    rw [← Nat.pow_add]
    exact lt_of_lt_of_le Nat.lt_log2_self (Nat.pow_le_pow_right (by decide) (by omega))
  have hround : roundHalfEven num (Nat.pow 2 (num.log2 - 52)) ≤ 2 ^ 53 :=
    le_trans (roundHalfEven_le num _) hquotient
  have hdoublings : (num.log2 - 52) * Nat.pow 2 52 ≤ 1948 * Nat.pow 2 52 :=
    Nat.mul_le_mul_right _ (by omega)
  rw [nearestRank, Nat.div_one, Nat.one_mul]
  refine lt_of_le_of_lt (Nat.min_le_right _ _) ?_
  exact lt_of_le_of_lt (Nat.add_le_add hdoublings hround) (by decide)

theorem log2_units (r : Nat) : (units r).log2 - 52 = binade r := by
  have hpow : Nat.pow 2 52 = 4503599627370496 := rfl
  by_cases hb : binade r = 0
  -- the two lowest binades: a rank counts units
  · have hr : r < 2 ^ 53 := by
      rw [binade, hpow] at hb
      omega
    have hlog := log2_le_of_lt hr
    simp only [units, hb, Nat.zero_mul, Nat.sub_zero, Nat.pow_zero, Nat.pow_eq, Nat.mul_one]
    omega
  -- above them the significand has its leading bit, so it fixes the size of the magnitude
  · have hlow : 2 ^ 52 ≤ r - binade r * Nat.pow 2 52 := by
      rw [binade, hpow] at *
      omega
    have hhigh : r - binade r * Nat.pow 2 52 < 2 ^ 53 := by
      rw [binade, hpow] at *
      omega
    have hpos := Nat.two_pow_pos (binade r)
    have hge : 2 ^ (52 + binade r) ≤ units r := by
      rw [Nat.pow_add]
      exact Nat.mul_le_mul_right _ hlow
    have hlt : units r < 2 ^ (53 + binade r) := by
      rw [Nat.pow_add]
      exact Nat.mul_lt_mul_of_pos_right hhigh hpos
    have h0 : units r ≠ 0 := by
      have := Nat.two_pow_pos (52 + binade r)
      omega
    have hlog := (Nat.le_log2 h0).mpr hge
    have hlog' := (Nat.log2_lt h0).mpr hlt
    omega

/-- The magnitude at a finite rank is nearest to that rank. -/
theorem nearestRank_units {r : Nat} (h : r < infiniteRank) : nearestRank (units r) 1 = r := by
  have hsplit : binade r * Nat.pow 2 52 + (r - binade r * Nat.pow 2 52) = r := by
    have hle : binade r * Nat.pow 2 52 ≤ r :=
      le_trans (Nat.mul_le_mul_right _ (Nat.sub_le _ _)) (Nat.div_mul_le_self r _)
    omega
  have hround : roundHalfEven (units r) (1 * Nat.pow 2 (binade r)) =
      r - binade r * Nat.pow 2 52 := by
    rw [Nat.one_mul]
    exact roundHalfEven_self (Nat.two_pow_pos _) _
  simp only [nearestRank, Nat.div_one, log2_units, hround, hsplit]
  exact Nat.min_eq_right (Nat.le_of_lt h)

end Binary64

namespace Decimal

open Binary64

theorem eight_pow_le (k : Nat) : 2 ^ (3 * k) ≤ 10 ^ k := by
  rw [Nat.pow_mul]
  exact Nat.pow_le_pow_left (by decide) k

theorem two_mul_lt_of_log2 {n k : Nat} (scale : Nat) (hs : scale ≤ 1074) (h : n.log2 + 400 < k) :
    2 * (n * Nat.pow 2 scale) < 10 ^ k :=
  calc 2 * (n * 2 ^ scale) < 2 * (2 ^ (n.log2 + 1) * 2 ^ scale) := by
        gcongr
        exact Nat.lt_log2_self
    _ = 2 ^ (n.log2 + scale + 2) := by ring
    _ ≤ 2 ^ (3 * k) := Nat.pow_le_pow_right (by decide) (by omega)
    _ ≤ 10 ^ k := eight_pow_le k

theorem two_pow_le_of_exponent {n k : Nat} (hn : n ≠ 0) (scale : Nat) :
    2 ^ (3 * k + scale) ≤ n * 10 ^ k * Nat.pow 2 scale := by
  rw [Nat.pow_add]
  have h10 : 10 ^ k ≤ n * 10 ^ k := Nat.le_mul_of_pos_left _ (Nat.pos_of_ne_zero hn)
  exact Nat.mul_le_mul_right _ (le_trans (eight_pow_le k) h10)

/-- Both ways in which the rank of a decimal is cut short agree with rounding its value. -/
theorem rank_eq (d : Decimal) : d.rank = nearestRank
    (d.digits * 10 ^ d.exponent.toNat * Nat.pow 2 1074) (10 ^ (-d.exponent).toNat) := by
  unfold rank
  split
  · next h =>
    symm
    apply nearestRank_eq_zero
    rcases h with h | h
    · simp [h]
    · have hexp : d.exponent.toNat = 0 := by omega
      rw [hexp, Nat.pow_zero, Nat.mul_one]
      exact two_mul_lt_of_log2 1074 (Nat.le_refl 1074) (by omega)
  split
  · next hn h =>
    have hden : (-d.exponent).toNat = 0 := by omega
    rw [hden, Nat.pow_zero]
    have hle := two_pow_le_of_exponent (k := d.exponent.toNat) (fun h0 => hn (.inl h0)) 1074
    exact (nearestRank_eq_infinite (by omega) hle).symm
  · rfl

theorem rank_eq_zero {d : Decimal} (h : d.digits = 0) : d.rank = 0 := if_pos (.inl h)

/-- Zeros may be moved from the digits of a decimal to its exponent. -/
theorem rank_shift (n k : Nat) (e : Int) : rank ⟨n * 10 ^ k, e⟩ = rank ⟨n, e + k⟩ := by
  rw [rank_eq, rank_eq]
  refine nearestRank_congr (Nat.pow_pos (by decide)) (Nat.pow_pos (by decide)) ?_
  have hexp : k + e.toNat + (-(e + k)).toNat = (e + k).toNat + (-e).toNat := by omega
  generalize Nat.pow 2 1074 = scale
  calc n * 10 ^ k * 10 ^ e.toNat * scale * 10 ^ (-(e + k)).toNat
      = n * 10 ^ (k + e.toNat + (-(e + k)).toNat) * scale := by ring
    _ = n * 10 ^ (e + k).toNat * scale * 10 ^ (-e).toNat := by
        rw [hexp]
        ring

/-- Trailing zeros do not change what a decimal is read as. -/
@[simp] theorem rank_normalize (d : Decimal) : d.normalize.rank = d.rank := by
  fun_induction normalize d with
  | case1 d h ih =>
    have hdigits : d.digits / 10 * 10 ^ 1 = d.digits := by omega
    rw [ih]
    have hs := rank_shift (d.digits / 10) 1 d.exponent
    rw [hdigits] at hs
    exact hs.symm
  | case2 => rfl

/-- A decimal that was chosen because it reads back does. -/
theorem rank_of_readingBack? {r : Nat} {below above d : Decimal} {prefersAbove : Bool}
    (h : readingBack? r below above prefersAbove = some d) : d.rank = r := by
  unfold readingBack? at h
  split at h
  · next hbelow habove =>
    obtain rfl := Option.some.inj h
    split
    · exact beq_iff_eq.mp habove
    · exact beq_iff_eq.mp hbelow
  · next hbelow _ =>
    obtain rfl := Option.some.inj h
    exact beq_iff_eq.mp hbelow
  · next _ habove =>
    obtain rfl := Option.some.inj h
    exact beq_iff_eq.mp habove
  · cases h

theorem rank_of_ofLength? {tie : Tie} {r length : Nat} {d : Decimal}
    (h : ofLength? tie r length = some d) : d.rank = r := rank_of_readingBack? h

/-- The exact value of a finite rank reads back to it. -/
theorem rank_exact {r : Nat} (h : r < infiniteRank) : (exact r).rank = r := by
  have hvalue : ∀ size, units r * Nat.pow 5 size * 10 ^ 0 * Nat.pow 2 size * 1 =
      units r * 10 ^ size := by
    intro size
    rw [Nat.pow_zero, Nat.mul_one, Nat.mul_one, Nat.mul_assoc]
    exact congrArg (units r * ·) (Nat.mul_pow 5 2 size).symm
  have hexponent : (-(exact r).exponent).toNat = 1074 := rfl
  have hpositive : (exact r).exponent.toNat = 0 := rfl
  rw [rank_eq, hexponent, hpositive]
  refine Eq.trans (nearestRank_congr ?_ Nat.one_pos (hvalue 1074)) (nearestRank_units h)
  exact Nat.pow_pos (by decide)

/-- A double read from an integer of 64 bits is finite. -/
theorem isFinite_toBinary64 {n : Nat} (hn : n < 2 ^ 64) (negative : Bool) :
    (toBinary64 negative ⟨n, 0⟩).isFinite = true := by
  have hlt : rank ⟨n, 0⟩ < infiniteRank := by
    have hvalue : ∀ scale, n * 10 ^ 0 * Nat.pow 2 scale < 2 ^ (63 + scale + 1) := by
      intro scale
      rw [Nat.pow_zero, Nat.mul_one, Nat.add_right_comm, Nat.pow_add]
      exact Nat.mul_lt_mul_of_pos_right hn (Nat.two_pow_pos scale)
    rw [rank_eq]
    exact nearestRank_lt_infinite (63 + 1074) (by decide) (hvalue 1074)
  have hword : infiniteRank < Nat.pow 2 63 := by decide
  rw [isFinite_iff, toBinary64, rank_ofRank (Nat.lt_trans hlt hword)]
  exact hlt

/-- The shortest decimal of a rank reads back to it. -/
theorem rank_shortest {r : Nat} (h : r < infiniteRank) (tie : Tie) : (shortest tie r).rank = r := by
  rw [shortest, rank_normalize]
  cases hf : (List.range 17).findSome? fun n => ofLength? tie r (n + 1) with
  | none => exact rank_exact h
  | some d =>
    obtain ⟨n, -, hn⟩ := List.exists_of_findSome?_eq_some hf
    exact rank_of_ofLength? hn

end Decimal
/-- A magnitude as it is spelled: the digits before the point, those behind it and the exponent. -/
structure Figure where
  whole : List Char
  fraction : Option (List Char)
  exponent : Option Int

namespace Figure

open Text (natOf IsWhole isWhole_zero isWhole_toDigits)

def fractionText : Option (List Char) → List Char
  | none => []
  | some digits => '.' :: digits

def exponentText : Option Int → List Char
  | none => []
  | some e => 'e' :: (if e < 0 then '-' else '+') :: Nat.toDigits 10 e.natAbs

def text (f : Figure) : List Char := f.whole ++ (fractionText f.fraction ++ exponentText f.exponent)

def decimal (f : Figure) : Decimal :=
  ⟨natOf (f.whole ++ f.fraction.getD []), f.exponent.getD 0 - (f.fraction.getD []).length⟩

structure WellFormed (f : Figure) : Prop where
  whole : IsWhole f.whole
  fraction : ∀ digits ∈ f.fraction, digits ≠ [] ∧ ∀ c ∈ digits, c.isDigit = true

/-- A figure that spells a double: it is well formed, shows a point or an exponent, and reads back
to the rank. -/
structure Spells (f : Figure) (r : Nat) : Prop where
  wellFormed : f.WellFormed
  marked : f.fraction ≠ none ∨ f.exponent ≠ none
  rank : f.decimal.rank = r

theorem wellFormed_pointed {whole fraction : List Char} {exponent : Option Int}
    (hw : IsWhole whole) (hf : fraction ≠ []) (hd : ∀ c ∈ fraction, c.isDigit = true) :
    WellFormed ⟨whole, some fraction, exponent⟩ := by
  refine ⟨hw, ?_⟩
  intro digits hdigits
  obtain rfl := Option.mem_some_iff.mp hdigits
  exact ⟨hf, hd⟩

end Figure

namespace FloatFormat

open Figure (wellFormed_pointed)
open Text (IsWhole natOf natOf_append natOf_zeros natOf_toDigits isWhole_zero isWhole_of_head
  isWhole_toDigits head?_toDigits)

theorem isDigit_of_mem_zeros {n : Nat} {c : Char} (h : c ∈ zeros n) : c.isDigit = true := by
  rw [List.eq_of_mem_replicate h]
  decide

section Digits

variable {digits : List Char} (hw : IsWhole digits) (h0 : digits.head? ≠ some '0') (e : Int)

include hw h0

/-- A point among digits, before or behind them spells the number they make with an exponent. -/
theorem pointed_spells : ∃ whole fraction, pointed digits (e + digits.length) =
    whole ++ '.' :: fraction ∧
      Figure.Spells ⟨whole, some fraction, none⟩ (Decimal.rank ⟨natOf digits, e⟩) := by
  have hlen := List.length_pos_iff.mpr hw.nonempty
  unfold pointed
  split
  -- the point stands before the digits, behind a zero of its own
  · next hpoint =>
    let fraction := zeros (-(e + digits.length)).toNat ++ digits
    have hvalue : Figure.decimal ⟨['0'], some fraction, none⟩ = ⟨natOf digits, e⟩ := by
      have hlength : (0 : Int) - fraction.length = e := by
        simp only [fraction, zeros, List.length_append, List.length_replicate]
        omega
      have hnat : natOf (['0'] ++ fraction) = natOf digits := by
        simp only [fraction, zeros, natOf_append, natOf_zeros]
        simp [natOf]
      simp only [Figure.decimal, Option.getD_some, Option.getD_none, hnat, hlength]
    refine ⟨['0'], fraction, by simp [fraction], ?_, .inl (by simp), by rw [hvalue]⟩
    refine wellFormed_pointed isWhole_zero (by simp [fraction, hw.nonempty]) ?_
    exact List.forall_mem_append.mpr ⟨fun _ => isDigit_of_mem_zeros, hw.digits⟩
  split
  -- behind the digits, filled up with zeros that a larger exponent stands for
  · next hpoint hfits =>
    let whole := digits ++ zeros ((e + digits.length).toNat - digits.length)
    have hvalue : Figure.decimal ⟨whole, some ['0'], none⟩ =
        ⟨natOf digits * 10 ^ (e.toNat + 1), -1⟩ := by
      have hcount : (e + digits.length).toNat - digits.length = e.toNat := by omega
      have hzero : natOf ['0'] = 0 := rfl
      simp only [Figure.decimal, whole, Option.getD_some, Option.getD_none, natOf_append, zeros,
        natOf_zeros, hcount, hzero]
      simp [Nat.pow_succ, Nat.mul_assoc]
    refine ⟨whole, ['0'], by simp [whole], ?_, .inl (by simp), ?_⟩
    · refine wellFormed_pointed (isWhole_of_head (by simp [whole, hw.nonempty]) ?_ ?_) (by simp)
        (by simp)
      · exact List.forall_mem_append.mpr ⟨hw.digits, fun _ => isDigit_of_mem_zeros⟩
      · rwa [List.head?_append_of_ne_nil _ hw.nonempty]
    · have hexp : -1 + ((e.toNat + 1 : Nat) : Int) = e := by omega
      rw [hvalue, Decimal.rank_shift, hexp]
  -- among them
  · next hpoint hfits =>
    let place := (e + digits.length).toNat
    have hplace : place ≠ 0 := by omega
    have hvalue : Figure.decimal ⟨digits.take place, some (digits.drop place), none⟩ =
        ⟨natOf digits, e⟩ := by
      have hlength : (0 : Int) - (digits.drop place).length = e := by
        rw [List.length_drop]
        omega
      simp only [Figure.decimal, Option.getD_some, Option.getD_none, List.take_append_drop, hlength]
    refine ⟨digits.take place, digits.drop place, by simp [place], ?_, .inl (by simp),
      by rw [hvalue]⟩
    refine wellFormed_pointed (isWhole_of_head ?_ ?_ ?_) ?_ ?_
    · simp [List.take_eq_nil_iff, hplace, hw.nonempty]
    · exact fun c hc => hw.digits c (List.mem_of_mem_take hc)
    · rwa [List.head?_take, if_neg hplace]
    · simp only [ne_eq, List.drop_eq_nil_iff]
      omega
    · exact fun c hc => hw.digits c (List.mem_of_mem_drop hc)

/-- A point behind the first digit, and an exponent, spell the same number. -/
theorem scientific_spells : ∃ f : Figure, scientific digits (e + digits.length - 1) = f.text ∧
    f.Spells (Decimal.rank ⟨natOf digits, e⟩) := by
  match digits, hw, h0 with
  | [first], hw, _ =>
    refine ⟨⟨[first], none, some e⟩, ?_, ⟨hw, by simp⟩, .inr (by simp), ?_⟩
    · simp [scientific, Figure.text, Figure.fractionText, Figure.exponentText]
    · simp [Figure.decimal]
  | first :: second :: rest, hw, h0 =>
    refine ⟨⟨[first], some (second :: rest), some (e + (second :: rest).length)⟩, ?_, ?_,
      .inl (by simp), ?_⟩
    · have hexp : e + (first :: second :: rest).length - 1 = e + (second :: rest).length := by
        simp only [List.length_cons]
        omega
      rw [hexp]
      simp [scientific, Figure.text, Figure.fractionText, Figure.exponentText]
    · refine wellFormed_pointed (isWhole_of_head (by simp) ?_ (by simpa using h0)) (by simp) ?_
      · exact fun c hc => hw.digits c (by simp_all)
      · exact fun c hc => hw.digits c (List.mem_cons_of_mem _ hc)
    · simp [Figure.decimal]

end Digits

theorem writeRank_of_ne_zero {format : FloatFormat} {r : Nat} {d : Decimal} (hr : r ≠ 0)
    (hd : Decimal.shortest format.tie r = d) : format.writeRank r =
      if format.positional (d.exponent + (Nat.toDigits 10 d.digits).length - 1)
      then pointed (Nat.toDigits 10 d.digits) (d.exponent + (Nat.toDigits 10 d.digits).length)
      else scientific (Nat.toDigits 10 d.digits)
        (d.exponent + (Nat.toDigits 10 d.digits).length - 1) := by
  rw [← hd]
  exact if_neg hr

/-- The shortest decimal of a magnitude, as digits with an exponent. -/
theorem exists_shortest (tie : Tie) {r : Nat} (h : r < Binary64.infiniteRank) (hr : r ≠ 0) :
    ∃ d, Decimal.shortest tie r = d ∧ (Nat.toDigits 10 d.digits).head? ≠ some '0' ∧
      Decimal.rank ⟨natOf (Nat.toDigits 10 d.digits), d.exponent⟩ = r := by
  obtain ⟨d, hshortest⟩ : ∃ d, Decimal.shortest tie r = d := ⟨_, rfl⟩
  have hrank : d.rank = r := hshortest ▸ Decimal.rank_shortest h tie
  have hd : d.digits ≠ 0 := by
    intro h0
    exact hr (by rw [← hrank, Decimal.rank_eq_zero h0])
  exact ⟨d, hshortest, head?_toDigits hd, by rw [natOf_toDigits, hrank]⟩

theorem zero_spells : Figure.Spells ⟨['0'], some ['0'], none⟩ 0 :=
  ⟨wellFormed_pointed isWhole_zero (by simp) (by simp), .inl (by simp), Decimal.rank_eq_zero rfl⟩

/-- The text of a finite magnitude spells it. -/
theorem writeRank_spells (format : FloatFormat) {r : Nat} (h : r < Binary64.infiniteRank) :
    ∃ f : Figure, format.writeRank r = f.text ∧ f.Spells r := by
  by_cases hr : r = 0
  · rw [hr]
    exact ⟨_, rfl, zero_spells⟩
  · obtain ⟨d, hshortest, h0, hvalue⟩ := exists_shortest format.tie h hr
    have hw := isWhole_toDigits d.digits
    rw [writeRank_of_ne_zero hr hshortest, ← hvalue]
    split
    · obtain ⟨whole, fraction, htext, hspells⟩ := pointed_spells hw h0 d.exponent
      exact ⟨_, by simp [htext, Figure.text, Figure.fractionText, Figure.exponentText], hspells⟩
    · exact scientific_spells hw h0 d.exponent

/-- Without exponent marks the text of a finite magnitude is a point between digits. -/
theorem writeRank_pointed {format : FloatFormat} (hformat : ∀ n, format.positional n = true)
    {r : Nat} (h : r < Binary64.infiniteRank) : ∃ whole fraction,
      format.writeRank r = whole ++ '.' :: fraction ∧
        Figure.Spells ⟨whole, some fraction, none⟩ r := by
  by_cases hr : r = 0
  · rw [hr]
    exact ⟨['0'], ['0'], rfl, zero_spells⟩
  · obtain ⟨d, hshortest, h0, hvalue⟩ := exists_shortest format.tie h hr
    rw [writeRank_of_ne_zero hr hshortest, if_pos (hformat _), ← hvalue]
    exact pointed_spells (isWhole_toDigits d.digits) h0 d.exponent

end FloatFormat
end ClipGraph
