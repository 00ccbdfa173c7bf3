import ClipGraph.Number.Scaling
import ClipGraph.Proofs.Rounding

/-!
# Decimals in two roundings, near the exact ones

Rounding never swaps two numbers, so a decimal can be followed through its two roundings by comparing it
with another. Below the largest double two roundings stay in the range of doubles, and a decimal with few
digits and a small exponent comes to the nearest double, as its significand and its power of ten are
doubles already.
-/

namespace ClipGraph
namespace Binary64

/-- Of two numbers the larger one has no lower rank. -/
theorem Nearest.mono {p q : ℚ} {r s : Nat} (hr : Nearest p r) (hs : Nearest q s) (h : p ≤ q) : r ≤ s := by
  by_contra hlt
  have hmagnitude : magnitude s < magnitude r := magnitude_strictMono (Nat.not_le.mp hlt)
  -- each rank is at least as close to its own number as the other rank, so the numbers are the midpoint
  have hp : magnitude s + magnitude r ≤ 2 * p := by
    have hcloser := sq_le_sq.mpr (hr.le hs.bound)
    nlinarith
  have hq : 2 * q ≤ magnitude s + magnitude r := by
    have hcloser := sq_le_sq.mpr (hs.le hr.bound)
    nlinarith
  have heq : p = q := by linarith
  rw [heq] at hr
  exact hlt (hr.unique hs).le

/-- A greater quotient has no smaller rank. -/
theorem nearestRank_mono {a b c d : Nat} (hb : 0 < b) (hd : 0 < d) (h : a * d ≤ c * b) :
    nearestRank a b ≤ nearestRank c d := by
  refine (nearest_nearestRank hb).mono (nearest_nearestRank hd) ?_
  refine mul_le_mul_of_nonneg_right ?_ unit_pos.le
  rw [div_le_div_iff₀ (by exact_mod_cast hb) (by exact_mod_cast hd)]
  exact_mod_cast h

theorem rankOfNat_mono {m n : Nat} (h : m ≤ n) : rankOfNat m ≤ rankOfNat n :=
  nearestRank_mono Nat.one_pos Nat.one_pos (Nat.mul_le_mul_right _ (Nat.mul_le_mul_right _ h))

/-- Rounded products grow with their factors. -/
theorem mulRank_mono {a b c d : Nat} (hab : a ≤ b) (hcd : c ≤ d) : mulRank a c ≤ mulRank b d := by
  have hpos : 0 < Nat.pow 2 1074 := Nat.two_pow_pos 1074
  have hunits := units_strictMono.monotone
  exact nearestRank_mono hpos hpos (Nat.mul_le_mul_right _ (Nat.mul_le_mul (hunits hab) (hunits hcd)))

theorem units_one : units (rankOfNat 1) = Nat.pow 2 1074 := by decide +kernel

/-- No power of ten lies below one. -/
theorem le_units_powerOfTen (n : Nat) : Nat.pow 2 1074 ≤ units (powerOfTen n) := by
  rw [← units_one]
  exact units_strictMono.monotone (rankOfNat_mono (Nat.pow_pos (by decide)))

/-- A division by no less than one does not make a magnitude larger. -/
theorem divRank_le {a b : Nat} (ha : a < infiniteRank) (hb : Nat.pow 2 1074 ≤ units b) :
    divRank a b ≤ a := by
  have hpos : 0 < units b := Nat.lt_of_lt_of_le (Nat.two_pow_pos 1074) hb
  have hle : divRank a b ≤ nearestRank (units a) 1 := by
    refine nearestRank_mono hpos Nat.one_pos ?_
    rw [Nat.mul_one]
    exact Nat.mul_le_mul_left _ hb
  rwa [nearestRank_units ha] at hle

/-- Dividing by a power of ten makes nothing greater. -/
theorem reduce_le {r : Nat} (hr : r < infiniteRank) (n : Nat) : reduce r n ≤ r := by
  fun_induction reduce r n with
  | case1 r n hn => exact divRank_le hr (le_units_powerOfTen n)
  | case2 n hn => exact Nat.le_refl 0
  | case3 r n hn h0 ih =>
    have hstep := divRank_le hr (le_units_powerOfTen maxPower)
    exact (ih (Nat.lt_of_le_of_lt hstep hr)).trans hstep

theorem rankOfNat_lt_infinite {n : Nat} (hn : n < 2 ^ 64) : rankOfNat n < infiniteRank := by
  have hlast : rankOfNat (2 ^ 64) < infiniteRank := by decide +kernel
  exact Nat.lt_of_le_of_lt (rankOfNat_mono hn.le) hlast

/-- The whole number half-way between the two largest doubles. -/
def lastMiddle : Nat := Nat.pow 2 1024 - 3 * Nat.pow 2 970

/-- Every number past the middle is rounded to the largest double or to infinity. -/
theorem le_rankOfNat_of_lastMiddle_lt {n : Nat} (h : lastMiddle < n) :
    infiniteRank - 1 ≤ rankOfNat n := by
  have hnext : rankOfNat (lastMiddle + 1) = infiniteRank - 1 := by decide +kernel
  -- for any number, as none of this size may be worked out
  have hmono : ∀ m, m < n → rankOfNat (m + 1) ≤ rankOfNat n := fun m hm => rankOfNat_mono hm
  rw [← hnext]
  exact hmono lastMiddle h

/-- A word times a power of ten up to 288 is finite. -/
theorem mulRank_lt_infinite_of_le {n e : Nat} (hn : n < 2 ^ 64) (he : e ≤ 288) :
    mulRank (rankOfNat n) (powerOfTen e) < infiniteRank := by
  have hlast : mulRank (rankOfNat (2 ^ 64)) (powerOfTen 288) < infiniteRank := by decide +kernel
  refine Nat.lt_of_le_of_lt (mulRank_mono (rankOfNat_mono hn.le) (rankOfNat_mono ?_)) hlast
  exact Nat.pow_le_pow_right (by decide) he

/-- Below the middle no product overflows, at any power of ten that a word could overflow with. -/
theorem mulRank_lastMiddle : ∀ e ≤ maxPower, 288 < e →
    mulRank (rankOfNat (lastMiddle / Nat.pow 10 e)) (powerOfTen e) < infiniteRank := by
  decide +kernel

/-- A significand and a power of ten whose product is below the middle are multiplied without overflow. -/
theorem enlarge_lt_infinite {n e : Nat} (hn : n < 2 ^ 64) (h : n * 10 ^ e ≤ lastMiddle) :
    enlarge (rankOfNat n) e < infiniteRank := by
  unfold enlarge
  split
  · next he =>
    by_cases hsmall : e ≤ 288
    · exact mulRank_lt_infinite_of_le hn hsmall
    · have hquotient : n ≤ lastMiddle / Nat.pow 10 e :=
        (Nat.le_div_iff_mul_le (Nat.pow_pos (by decide))).mpr h
      have hlast := mulRank_lastMiddle e he (Nat.not_le.mp hsmall)
      exact Nat.lt_of_le_of_lt (mulRank_mono (rankOfNat_mono hquotient) le_rfl) hlast
  split
  · exact Nat.lt_of_le_of_lt (Nat.zero_le _) (by decide : 0 < infiniteRank)
  · next he h0 =>
    have hpos : 0 < n := by
      apply Nat.pos_of_ne_zero
      rintro rfl
      exact h0 (by decide +kernel)
    have hpower : lastMiddle < 10 ^ (maxPower + 1) := by decide +kernel
    have hle : 10 ^ (maxPower + 1) ≤ n * 10 ^ e :=
      (Nat.pow_le_pow_right (by decide) (Nat.not_le.mp he)).trans (Nat.le_mul_of_pos_left _ hpos)
    omega

/-- A whole number up to `2 ^ 53` is a double. -/
theorem units_rankOfNat {n : Nat} (hn : n ≤ 2 ^ 53) : units (rankOfNat n) = n * Nat.pow 2 1074 := by
  by_cases h0 : n = 0
  · rw [h0]
    decide +kernel
  -- shifted up to fill the significand, in the binade that undoes the shift
  let shift := 52 - n.log2
  have hlow : 2 ^ 52 ≤ n * 2 ^ shift :=
    calc 2 ^ 52 ≤ 2 ^ (n.log2 + shift) := Nat.pow_le_pow_right (by decide) (by omega)
      _ = 2 ^ n.log2 * 2 ^ shift := Nat.pow_add 2 _ _
      _ ≤ n * 2 ^ shift := Nat.mul_le_mul_right _ (Nat.log2_self_le h0)
  have hhigh : n * 2 ^ shift ≤ 2 ^ 53 := by
    by_cases hlog : n.log2 ≤ 52
    · calc n * 2 ^ shift ≤ 2 ^ (n.log2 + 1) * 2 ^ shift := Nat.mul_le_mul_right _ Nat.lt_log2_self.le
        _ = 2 ^ (n.log2 + 1 + shift) := (Nat.pow_add 2 _ _).symm
        _ ≤ 2 ^ 53 := Nat.pow_le_pow_right (by decide) (by omega)
    · have hshift : shift = 0 := by omega
      rwa [hshift, Nat.pow_zero, Nat.mul_one]
  have hunits : ∀ top, shift ≤ top →
      units ((top - shift) * Nat.pow 2 52 + n * 2 ^ shift) = n * Nat.pow 2 top := by
    intro top htop
    rw [units_add hhigh (.inr hlow), Nat.mul_assoc, ← Nat.pow_add, Nat.add_sub_cancel' htop]
    rfl
  have hrank : (1074 - shift) * Nat.pow 2 52 + n * 2 ^ shift < infiniteRank := by
    have hpow : Nat.pow 2 52 = 4503599627370496 := rfl
    rw [infiniteRank, hpow]
    omega
  have hvalue := hunits 1074 (by omega)
  rw [← hvalue, rankOfNat, ← hvalue, nearestRank_units hrank]

/-- The powers of ten up to the twenty-second are doubles. -/
theorem units_powerOfTen : ∀ n ≤ 22, units (powerOfTen n) = Nat.pow 10 n * Nat.pow 2 1074 := by
  decide +kernel

end Binary64

namespace Decimal

open Binary64
open Text (natOf natOf_append)

theorem natOf_cons (n : Nat) (c : Char) (rest : List Char) :
    n * 10 ^ (c :: rest).length + natOf (c :: rest) =
      (10 * n + (c.toNat - '0'.toNat)) * 10 ^ rest.length + natOf rest := by
  have hone : natOf [c] = c.toNat - '0'.toNat := by simp [natOf]
  have happend := natOf_append [c] rest
  rw [List.singleton_append, hone] at happend
  rw [happend, List.length_cons]
  ring

/-- The digits that are taken are the front ones, and the next one would be one too many. -/
theorem takeDigits_eq (n : Nat) (cs : List Char) : ∃ taken, cs = taken ++ (takeDigits n cs).2 ∧
    (takeDigits n cs).1 = n * 10 ^ taken.length + natOf taken ∧
    (n < 2 ^ 64 → (takeDigits n cs).1 < 2 ^ 64) ∧
    ∀ c rest, (takeDigits n cs).2 = c :: rest → 2 ^ 64 ≤ 10 * (takeDigits n cs).1 + (c.toNat - '0'.toNat) := by
  fun_induction takeDigits n cs with
  | case1 n => exact ⟨[], rfl, by simp [natOf], id, by simp⟩
  | case2 n c rest next hnext ih =>
    obtain ⟨taken, hcs, hvalue, hlt, hlast⟩ := ih
    refine ⟨c :: taken, by rw [List.cons_append, ← hcs], ?_, fun _ => hlt hnext, hlast⟩
    rw [natOf_cons]
    exact hvalue
  | case3 n c rest next hnext =>
    refine ⟨[], rfl, by simp [natOf], id, ?_⟩
    intro d rest' h
    obtain ⟨rfl, rfl⟩ := List.cons.inj h
    exact Nat.not_lt.mp hnext

theorem takeDigits_mul_le (n : Nat) (cs : List Char) :
    (takeDigits n cs).1 * 10 ^ (takeDigits n cs).2.length ≤ n * 10 ^ cs.length + natOf cs := by
  obtain ⟨taken, hcs, hvalue, -, -⟩ := takeDigits_eq n cs
  generalize takeDigits n cs = m at *
  rw [hcs, natOf_append, List.length_append, hvalue, Nat.pow_add, Nat.add_mul, Nat.mul_assoc]
  omega

/-- What is left of a number stands behind a number that fills a word. -/
theorem le_of_takeDigits_cons {n : Nat} {cs : List Char} {c : Char} {rest : List Char}
    (h : (takeDigits n cs).2 = c :: rest) : 2 ^ 64 * 10 ^ rest.length ≤ n * 10 ^ cs.length + natOf cs := by
  obtain ⟨taken, hcs, hvalue, -, hlast⟩ := takeDigits_eq n cs
  have hfull := hlast c rest h
  rw [h] at hcs
  rw [hcs, natOf_append, List.length_append, Nat.pow_add, ← Nat.mul_assoc, ← Nat.add_assoc, ← Nat.add_mul,
    ← hvalue, natOf_cons]
  exact (Nat.mul_le_mul_right _ hfull).trans (Nat.le_add_right _ _)

/-- Either no digit is taken, or fewer than before are left. -/
theorem takeDigits_fst_or_length_lt (n : Nat) (cs : List Char) :
    takeDigits n cs = (n, cs) ∨ (takeDigits n cs).2.length < cs.length := by
  obtain ⟨taken, hcs, hvalue, -, -⟩ := takeDigits_eq n cs
  cases taken with
  | nil =>
    refine .inl (Prod.ext ?_ hcs.symm)
    simpa [natOf] using hvalue
  | cons c taken =>
    have hlength := congrArg List.length hcs
    rw [List.length_append, List.length_cons] at hlength
    omega

/-- Of two numbers of the same places the greater has no smaller rank. -/
theorem rank_mono {m n : Nat} (h : m ≤ n) (e : Int) : rank ⟨m, e⟩ ≤ rank ⟨n, e⟩ := by
  rw [rank_eq, rank_eq]
  have hpos : 0 < 10 ^ (-e).toNat := Nat.pow_pos (by decide)
  refine nearestRank_mono hpos hpos (Nat.mul_le_mul_right _ ?_)
  exact Nat.mul_le_mul_right _ (Nat.mul_le_mul_right _ h)

/-- Digits of a number that fits into a word are all taken. -/
theorem takeDigits_of_lt {n : Nat} {cs : List Char} (h : n * 10 ^ cs.length + natOf cs < 2 ^ 64) :
    takeDigits n cs = (n * 10 ^ cs.length + natOf cs, []) := by
  obtain ⟨taken, hcs, hvalue, -, -⟩ := takeDigits_eq n cs
  cases hleft : (takeDigits n cs).2 with
  | nil =>
    rw [hleft, List.append_nil] at hcs
    rw [← hcs] at hvalue
    exact Prod.ext hvalue hleft
  | cons c rest =>
    have hword := le_of_takeDigits_cons hleft
    have hpos : 1 ≤ 10 ^ rest.length := Nat.pow_pos (by decide)
    omega

section Digits

variable (whole fraction : List Char) (exponent : Int)

theorem ofDigits_digits_lt : (ofDigits whole fraction exponent).digits < 2 ^ 64 := by
  obtain ⟨-, -, -, hwhole, -⟩ := takeDigits_eq 0 whole
  obtain ⟨-, -, -, hfraction, -⟩ := takeDigits_eq (takeDigits 0 whole).1 fraction
  exact hfraction (hwhole (Nat.two_pow_pos 64))

/-- The digits that are taken, with a place for each one left, make no more than the whole number. -/
theorem takeDigits_takeDigits_mul_le : (takeDigits (takeDigits 0 whole).1 fraction).1 *
      10 ^ ((takeDigits 0 whole).2.length + (takeDigits (takeDigits 0 whole).1 fraction).2.length) ≤
    natOf (whole ++ fraction) := by
  rw [natOf_append]
  have hwhole := takeDigits_mul_le 0 whole
  have hfraction := takeDigits_mul_le (takeDigits 0 whole).1 fraction
  rw [Nat.zero_mul, Nat.zero_add] at hwhole
  cases hleft : (takeDigits 0 whole).2 with
  | nil =>
    rw [hleft, List.length_nil, Nat.pow_zero, Nat.mul_one] at hwhole
    rw [List.length_nil, Nat.zero_add]
    exact hfraction.trans (Nat.add_le_add_right (Nat.mul_le_mul_right _ hwhole) _)
  | cons c rest =>
    refine le_trans ?_ (Nat.le_add_right _ _)
    rcases takeDigits_fst_or_length_lt (takeDigits 0 whole).1 fraction with hnone | hlt
    · rw [hnone, ← hleft, Nat.pow_add, ← Nat.mul_assoc]
      exact Nat.mul_le_mul_right _ hwhole
    · have hword := le_of_takeDigits_cons hleft
      have hdigits := ofDigits_digits_lt whole fraction 0
      rw [Nat.zero_mul, Nat.zero_add] at hword
      calc (takeDigits (takeDigits 0 whole).1 fraction).1 * 10 ^ ((c :: rest).length +
            (takeDigits (takeDigits 0 whole).1 fraction).2.length)
          ≤ 2 ^ 64 * 10 ^ (rest.length + fraction.length) := by
            refine Nat.mul_le_mul hdigits.le (Nat.pow_le_pow_right (by decide) ?_)
            rw [List.length_cons]
            omega
        _ = 2 ^ 64 * 10 ^ rest.length * 10 ^ fraction.length := by rw [Nat.pow_add, Nat.mul_assoc]
        _ ≤ natOf whole * 10 ^ fraction.length := Nat.mul_le_mul_right _ hword

/-- Leaving digits out does not make a number larger. -/
theorem rank_ofDigits_le : (ofDigits whole fraction exponent).rank ≤
    rank ⟨natOf (whole ++ fraction), exponent - fraction.length⟩ := by
  have hexponent : (ofDigits whole fraction exponent).exponent = exponent - fraction.length +
      ((takeDigits 0 whole).2.length + (takeDigits (takeDigits 0 whole).1 fraction).2.length : Nat) := by
    rw [ofDigits]
    push_cast
    ring
  have hsplit : ofDigits whole fraction exponent = ⟨(takeDigits (takeDigits 0 whole).1 fraction).1,
      (ofDigits whole fraction exponent).exponent⟩ := rfl
  rw [hsplit, hexponent, ← rank_shift]
  exact rank_mono (takeDigits_takeDigits_mul_le whole fraction) _

variable {whole fraction} in
/-- No digit of a number that fits into a word is left out. -/
theorem ofDigits_of_lt (h : natOf (whole ++ fraction) < 2 ^ 64) : ofDigits whole fraction exponent =
    ⟨natOf (whole ++ fraction), exponent - fraction.length⟩ := by
  have hfraction : natOf whole * 10 ^ fraction.length + natOf fraction < 2 ^ 64 := by
    rwa [natOf_append] at h
  have hwhole : 0 * 10 ^ whole.length + natOf whole < 2 ^ 64 := by
    have hpos : natOf whole ≤ natOf whole * 10 ^ fraction.length :=
      Nat.le_mul_of_pos_right _ (Nat.pow_pos (by decide))
    omega
  have hall : takeDigits 0 whole = (natOf whole, []) := by
    rw [takeDigits_of_lt hwhole, Nat.zero_mul, Nat.zero_add]
  simp [ofDigits, hall, takeDigits_of_lt hfraction, natOf_append]

end Digits

/-- A decimal whose rank is below that of the largest double comes to a double in two roundings. -/
theorem scaledRank_lt_infinite {d : Decimal} (hd : d.digits < 2 ^ 64)
    (h : d.rank < infiniteRank - 1) : d.scaledRank < infiniteRank := by
  unfold scaledRank scale
  split
  · next he =>
    refine enlarge_lt_infinite hd (Nat.not_lt.mp fun hlast => ?_)
    have hden : (-d.exponent).toNat = 0 := by omega
    have hrank : d.rank = rankOfNat (d.digits * 10 ^ d.exponent.toNat) := by
      rw [rank_eq, hden]
      rfl
    have hle := le_rankOfNat_of_lastMiddle_lt hlast
    rw [← hrank] at hle
    exact absurd hle (Nat.not_le.mpr h)
  · have hfinite := rankOfNat_lt_infinite hd
    exact Nat.lt_of_le_of_lt (reduce_le hfinite _) hfinite

/-- With a significand and a power of ten that are doubles already there is one rounding only. -/
theorem scaledRank_eq_rank {d : Decimal} (hd : d.digits ≤ 2 ^ 53) (he : d.exponent.natAbs ≤ 22) :
    d.scaledRank = d.rank := by
  have hpos : 0 < Nat.pow 2 1074 := Nat.two_pow_pos 1074
  have hsmall : ∀ k ≤ 22, k ≤ maxPower := fun k hk => hk.trans (by decide)
  unfold scaledRank scale
  rw [rank_eq]
  split
  · next h =>
    have hden : (-d.exponent).toNat = 0 := by omega
    rw [enlarge, if_pos (hsmall _ (by omega)), mulRank, units_rankOfNat hd,
      units_powerOfTen _ (by omega), hden]
    generalize Nat.pow 2 1074 = scale at *
    refine nearestRank_congr hpos Nat.one_pos ?_
    rw [Nat.pow_eq]
    ring
  · next h =>
    have hnum : d.exponent.toNat = 0 := by omega
    rw [reduce, if_pos (hsmall _ (by omega)), divRank, units_rankOfNat hd,
      units_powerOfTen _ (by omega), hnum]
    generalize Nat.pow 2 1074 = scale at *
    refine nearestRank_congr (Nat.mul_pos (Nat.pow_pos (by decide)) hpos) (Nat.pow_pos (by decide)) ?_
    rw [Nat.pow_eq]
    ring

end Decimal

namespace Figure

open Binary64

/-- The rank that a figure comes to in two roundings. -/
def scaledRank (f : Figure) : Nat :=
  (Decimal.ofDigits f.whole (f.fraction.getD []) (f.exponent.getD 0)).scaledRank

/-- Whatever is spelled below the largest double comes to a double. -/
theorem Spells.scaledRank_lt_infinite {f : Figure} {r : Nat} (hf : f.Spells r)
    (hr : r < infiniteRank - 1) : f.scaledRank < infiniteRank := by
  refine Decimal.scaledRank_lt_infinite (Decimal.ofDigits_digits_lt _ _ _) (Nat.lt_of_le_of_lt ?_ hr)
  rw [← hf.rank]
  exact Decimal.rank_ofDigits_le _ _ _

/-- Few digits and a small exponent come to the nearest rank. -/
theorem scaledRank_eq_rank {f : Figure} (hdigits : f.decimal.digits ≤ 2 ^ 53)
    (hexponent : f.decimal.exponent.natAbs ≤ 22) : f.scaledRank = f.decimal.rank := by
  have hword : Text.natOf (f.whole ++ f.fraction.getD []) < 2 ^ 64 :=
    Nat.lt_of_le_of_lt hdigits (by decide)
  rw [scaledRank, Decimal.ofDigits_of_lt _ hword]
  exact Decimal.scaledRank_eq_rank hdigits hexponent

end Figure
end ClipGraph
