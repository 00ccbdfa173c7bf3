import ClipGraph.Proofs.Decimals

/-!
# Rounding to the nearest double

A rank is nearest to a number if every other rank is farther from it, or just as far and the first one is
even. Magnitudes grow with the rank, so only the two ranks around a number can be nearest to it, and of
two that are just as far one is even and the other is not. Infinity stands where the next power of two
would, which is where numbers past the largest double begin to be rounded to it.
-/

namespace ClipGraph
namespace Binary64

def unit : ℚ := 1 / 2 ^ 1074

/-- The magnitude at a rank, infinity counted as the power of two behind the largest double. -/
def magnitude (r : Nat) : ℚ := units r * unit

/-- The rank whose magnitude is nearest to a number; of two that are just as far, the even one. -/
structure Nearest (q : ℚ) (r : Nat) : Prop where
  bound : r ≤ infiniteRank
  closer : ∀ s ≤ infiniteRank, s ≠ r → |q - magnitude r| < |q - magnitude s| ∨
    |q - magnitude r| = |q - magnitude s| ∧ Even r

theorem unit_pos : 0 < unit := one_div_pos.mpr (pow_pos two_pos 1074)

theorem cast_pow_mul_unit : ((Nat.pow 2 1074 : Nat) : ℚ) * unit = 1 := by
  -- for any exponent, as none of this size may be worked out
  have hcancel : ∀ n, ((Nat.pow 2 n : Nat) : ℚ) * (1 / 2 ^ n) = 1 := by
    intro n
    rw [Nat.pow_eq, Nat.cast_pow, Nat.cast_ofNat]
    exact mul_one_div_cancel (by positivity)
  exact hcancel 1074

/-- A significand counts steps of its binade, up to the first one of the next. -/
theorem units_add {e m : Nat} (hm : m ≤ 2 ^ 53) (he : e = 0 ∨ 2 ^ 52 ≤ m) :
    units (e * Nat.pow 2 52 + m) = m * 2 ^ e := by
  have hpow : Nat.pow 2 52 = 4503599627370496 := rfl
  rcases hm.lt_or_eq with hlt | rfl
  · have hb : binade (e * Nat.pow 2 52 + m) = e := by
      rw [binade, hpow]
      omega
    rw [units, hb, Nat.add_sub_cancel_left]
    rfl
  · have hb : binade (e * Nat.pow 2 52 + 2 ^ 53) = e + 1 := by
      rw [binade, hpow]
      omega
    have hrest : e * Nat.pow 2 52 + 2 ^ 53 - (e + 1) * Nat.pow 2 52 = 2 ^ 52 := by
      rw [hpow]
      omega
    rw [units, hb, hrest, Nat.pow_eq, ← Nat.pow_add, ← Nat.pow_add]
    congr 1
    omega

/-- The next magnitude is one step of the binade away. -/
theorem units_succ (r : Nat) : units (r + 1) = units r + 2 ^ binade r := by
  have hpow : Nat.pow 2 52 = 4503599627370496 := rfl
  obtain ⟨m, hr⟩ : ∃ m, r = binade r * Nat.pow 2 52 + m := by
    refine ⟨r - binade r * Nat.pow 2 52, ?_⟩
    rw [binade, hpow]
    omega
  have hm : m < 2 ^ 53 ∧ (binade r = 0 ∨ 2 ^ 52 ≤ m) := by
    rw [binade, hpow] at *
    omega
  generalize binade r = e at hr hm ⊢
  rw [hr, Nat.add_assoc, units_add hm.1 (by omega), units_add (by omega) hm.2, Nat.succ_mul]

theorem units_strictMono : StrictMono units := by
  refine strictMono_nat_of_lt_succ fun r => ?_
  rw [units_succ]
  exact Nat.lt_add_of_pos_right (Nat.two_pow_pos _)

/-- A greater rank has a greater magnitude. -/
theorem magnitude_strictMono : StrictMono magnitude := fun r s h =>
  mul_lt_mul_of_pos_right (by exact_mod_cast units_strictMono h) unit_pos

section Between

variable {q : ℚ} {r s : Nat} (hlow : magnitude r ≤ q) (hhigh : q < magnitude (r + 1))

include hlow in
theorem abs_sub_magnitude_of_le (h : s ≤ r) : |q - magnitude s| = q - magnitude s :=
  abs_of_nonneg (sub_nonneg.mpr ((magnitude_strictMono.monotone h).trans hlow))

include hhigh in
theorem abs_sub_magnitude_of_lt (h : r < s) : |q - magnitude s| = magnitude s - q := by
  rw [abs_sub_comm]
  exact abs_of_nonneg (sub_nonneg.mpr (hhigh.le.trans (magnitude_strictMono.monotone h)))

include hlow hhigh

/-- The lower neighbour of a number is nearest if the upper one is farther, or as far and odd. -/
theorem nearest_lower (hr : r < infiniteRank) (h : q - magnitude r < magnitude (r + 1) - q ∨
    q - magnitude r = magnitude (r + 1) - q ∧ Even r) : Nearest q r := by
  refine ⟨hr.le, fun s _ hne => ?_⟩
  rw [abs_sub_magnitude_of_le hlow le_rfl]
  rcases Nat.lt_or_gt_of_ne hne with hs | hs
  · rw [abs_sub_magnitude_of_le hlow hs.le]
    exact .inl (sub_lt_sub_left (magnitude_strictMono hs) q)
  · rw [abs_sub_magnitude_of_lt hhigh hs]
    have hstep : magnitude (r + 1) ≤ magnitude s := magnitude_strictMono.monotone hs
    rcases h with h | ⟨h, heven⟩
    · exact .inl (by linarith)
    · rcases hstep.lt_or_eq with hlt | heq
      · exact .inl (by linarith)
      · exact .inr ⟨by linarith, heven⟩

/-- The upper neighbour of a number is nearest if the lower one is farther, or as far and odd. -/
theorem nearest_upper (hr : r < infiniteRank) (h : magnitude (r + 1) - q < q - magnitude r ∨
    magnitude (r + 1) - q = q - magnitude r ∧ Even (r + 1)) : Nearest q (r + 1) := by
  refine ⟨hr, fun s _ hne => ?_⟩
  rw [abs_sub_magnitude_of_lt hhigh (Nat.lt_succ_self r)]
  rcases Nat.lt_or_gt_of_ne hne with hs | hs
  · rw [abs_sub_magnitude_of_le hlow (Nat.le_of_lt_succ hs)]
    have hstep : magnitude s ≤ magnitude r :=
      magnitude_strictMono.monotone (Nat.le_of_lt_succ hs)
    rcases h with h | ⟨h, heven⟩
    · exact .inl (by linarith)
    · rcases hstep.lt_or_eq with hlt | heq
      · exact .inl (by linarith)
      · exact .inr ⟨by linarith, heven⟩
  · rw [abs_sub_magnitude_of_lt hhigh ((Nat.lt_succ_self r).trans hs)]
    exact .inl (sub_lt_sub_right (magnitude_strictMono hs) q)

end Between

/-- Every number at or past the power of two behind the largest double is rounded to infinity. -/
theorem nearest_infinite {q : ℚ} (h : magnitude infiniteRank ≤ q) : Nearest q infiniteRank := by
  refine ⟨le_rfl, fun s hs hne => .inl ?_⟩
  rw [abs_sub_magnitude_of_le h le_rfl, abs_sub_magnitude_of_le h hs]
  exact sub_lt_sub_left (magnitude_strictMono (lt_of_le_of_ne hs hne)) q

/-- No rank is farther from a number than the nearest one. -/
theorem Nearest.le {q : ℚ} {r s : Nat} (hr : Nearest q r) (hs : s ≤ infiniteRank) :
    |q - magnitude r| ≤ |q - magnitude s| := by
  by_cases h : s = r
  · rw [h]
  · rcases hr.closer s hs h with hlt | ⟨heq, -⟩
    · exact hlt.le
    · exact heq.le

/-- A rank that is not alone in being nearest is even. -/
theorem Nearest.even {q : ℚ} {r s : Nat} (hr : Nearest q r) (hs : Nearest q s) (h : s ≠ r) :
    Even r := by
  rcases hr.closer s hs.bound h with hlt | ⟨-, heven⟩
  · exact absurd (hs.le hr.bound) (not_le.mpr hlt)
  · exact heven

/-- Of two ranks that were nearest the first would not lie below the second: both would be even, and the
rank behind the first one would be closer than both. -/
theorem Nearest.not_lt {q : ℚ} {r s : Nat} (hr : Nearest q r) (hs : Nearest q s) : ¬ r < s := by
  intro h
  have hbetween : r + 1 < s := by
    obtain ⟨a, ha⟩ := hr.even hs h.ne'
    obtain ⟨b, hb⟩ := hs.even hr h.ne
    omega
  have hlow := magnitude_strictMono (Nat.lt_succ_self r)
  have hhigh := magnitude_strictMono hbetween
  have hmid := hr.le (hbetween.le.trans hs.bound)
  have heq := le_antisymm (hr.le hs.bound) (hs.le hr.bound)
  rw [Nat.succ_eq_add_one] at hlow
  rcases abs_eq_abs.mp heq with heq | heq
  · linarith
  · have hlt : |q - magnitude (r + 1)| < q - magnitude r := abs_lt.mpr ⟨by linarith, by linarith⟩
    rw [abs_of_nonneg (by linarith)] at hmid
    linarith

/-- A number has one nearest rank only. -/
theorem Nearest.unique {q : ℚ} {r s : Nat} (hr : Nearest q r) (hs : Nearest q s) : r = s :=
  le_antisymm (Nat.not_lt.mp (hs.not_lt hr)) (Nat.not_lt.mp (hr.not_lt hs))

/-- Rounding to a whole number goes down or up by the larger part of a step, and by half a step to the
even side. -/
theorem roundHalfEven_cases (num den : Nat) :
    (roundHalfEven num den = num / den ∧
      (2 * (num % den) < den ∨ 2 * (num % den) = den ∧ Even (num / den))) ∨
    (roundHalfEven num den = num / den + 1 ∧
      (den < 2 * (num % den) ∨ 2 * (num % den) = den ∧ Even (num / den + 1))) := by
  simp only [roundHalfEven, Nat.even_iff]
  split
  · next hlt => exact .inl ⟨rfl, .inl hlt⟩
  split
  · next hgt => exact .inr ⟨rfl, .inl hgt⟩
  · next hlt hgt =>
    have htie : 2 * (num % den) = den := by omega
    rcases Nat.mod_two_eq_zero_or_one (num / den) with h | h
    · exact .inl ⟨by omega, .inr ⟨htie, h⟩⟩
    · exact .inr ⟨by omega, .inr ⟨htie, by omega⟩⟩

section Quotient

variable (num den : Nat)

/-- How far the step between ranks has doubled at a quotient of units. -/
def doublings : Nat := (num / den).log2 - 52

/-- The step between the ranks around a quotient, times its denominator. -/
def step : Nat := den * 2 ^ doublings num den

/-- The rank at or right below a quotient of units. -/
def floorRank : Nat := doublings num den * Nat.pow 2 52 + num / step num den

theorem nearestRank_eq : nearestRank num den =
    min infiniteRank (doublings num den * Nat.pow 2 52 + roundHalfEven num (step num den)) := rfl

/-- The significand of a quotient fills the binade that the size of the quotient asks for. -/
theorem significand_bounds : num / step num den < 2 ^ 53 ∧
    (doublings num den = 0 ∨ 2 ^ 52 ≤ num / step num den) := by
  unfold step doublings
  rw [← Nat.div_div_eq_div_mul]
  generalize num / den = n
  constructor
  · rw [Nat.div_lt_iff_lt_mul (Nat.two_pow_pos _), ← Nat.pow_add]
    exact Nat.lt_log2_self.trans_le (Nat.pow_le_pow_right (by decide) (by omega))
  · by_cases h : n.log2 ≤ 52
    · exact .inl (by omega)
    · have h0 : n ≠ 0 := by
        rintro rfl
        simp at h
      refine .inr ?_
      rw [Nat.le_div_iff_mul_le (Nat.two_pow_pos _), ← Nat.pow_add]
      exact (Nat.le_log2 h0).mp (by omega)

theorem units_floorRank :
    units (floorRank num den) = num / step num den * 2 ^ doublings num den :=
  units_add (significand_bounds num den).1.le (significand_bounds num den).2

theorem units_floorRank_succ :
    units (floorRank num den + 1) = (num / step num den + 1) * 2 ^ doublings num den := by
  obtain ⟨hlt, hge⟩ := significand_bounds num den
  rw [floorRank, Nat.add_assoc, units_add hlt (hge.imp_right Nat.le_succ_of_le)]

theorem even_floorRank : Even (floorRank num den) ↔ Even (num / step num den) := by
  have heven : Even (doublings num den * Nat.pow 2 52) := Even.mul_left ⟨2251799813685248, rfl⟩ _
  rw [floorRank, Nat.even_add]
  simp only [heven, true_iff]

variable {num den} (hd : 0 < den)

include hd

theorem step_pos : 0 < step num den := Nat.mul_pos hd (Nat.two_pow_pos _)

/-- A quotient lies above its lower neighbour by what the division leaves. -/
theorem sub_magnitude_floorRank : (num / den : ℚ) * unit - magnitude (floorRank num den) =
    (num % step num den : Nat) * (unit / den) := by
  have hdq : (den : ℚ) ≠ 0 := by positivity
  have hdiv : (step num den : ℚ) * (num / step num den : Nat) + (num % step num den : Nat) = num := by
    exact_mod_cast Nat.div_add_mod num (step num den)
  have hstep : (step num den : ℚ) = den * 2 ^ doublings num den := by
    rw [step]
    push_cast
    rfl
  rw [magnitude, units_floorRank, ← hdiv, hstep]
  push_cast
  field_simp
  ring

/-- It lies below its upper neighbour by what is missing for one more step. -/
theorem magnitude_floorRank_succ_sub :
    magnitude (floorRank num den + 1) - (num / den : ℚ) * unit =
      (step num den - (num % step num den : Nat)) * (unit / den) := by
  have hdq : (den : ℚ) ≠ 0 := by positivity
  have hstep : magnitude (floorRank num den + 1) - magnitude (floorRank num den) =
      step num den * (unit / den) := by
    rw [magnitude, magnitude, units_floorRank, units_floorRank_succ, step]
    push_cast
    field_simp
    ring
  have hbelow : (num / den : ℚ) * unit - magnitude (floorRank num den) =
      (num % step num den : Nat) * (unit / den) := sub_magnitude_floorRank hd
  linear_combination hstep - hbelow

theorem scale_pos : 0 < unit / (den : ℚ) := div_pos unit_pos (by exact_mod_cast hd)

/-- The lower neighbour is closer if less than half of a step is left. -/
theorem floorRank_closer_iff : (num / den : ℚ) * unit - magnitude (floorRank num den) <
    magnitude (floorRank num den + 1) - (num / den : ℚ) * unit ↔
      2 * (num % step num den) < step num den := by
  rw [sub_magnitude_floorRank hd, magnitude_floorRank_succ_sub hd,
    mul_lt_mul_iff_left₀ (scale_pos hd), lt_sub_iff_add_lt, ← two_mul]
  norm_cast

/-- The rank above is the nearer one just if more than half a step remains. -/
theorem floorRank_succ_closer_iff : magnitude (floorRank num den + 1) - (num / den : ℚ) * unit <
    (num / den : ℚ) * unit - magnitude (floorRank num den) ↔
      step num den < 2 * (num % step num den) := by
  rw [sub_magnitude_floorRank hd, magnitude_floorRank_succ_sub hd,
    mul_lt_mul_iff_left₀ (scale_pos hd), sub_lt_iff_lt_add, ← two_mul]
  norm_cast

/-- A tie is a remainder of just half a step. -/
theorem floorRank_tie_iff : (num / den : ℚ) * unit - magnitude (floorRank num den) =
    magnitude (floorRank num den + 1) - (num / den : ℚ) * unit ↔
      2 * (num % step num den) = step num den := by
  rw [sub_magnitude_floorRank hd, magnitude_floorRank_succ_sub hd,
    mul_left_inj' (scale_pos hd).ne', eq_sub_iff_add_eq, ← two_mul]
  norm_cast

/-- Rounding a quotient of units takes it to the nearest rank. -/
theorem nearest_nearestRank : Nearest ((num / den : ℚ) * unit) (nearestRank num den) := by
  have hlow : magnitude (floorRank num den) ≤ (num / den : ℚ) * unit := by
    rw [← sub_nonneg, sub_magnitude_floorRank hd]
    exact mul_nonneg (Nat.cast_nonneg _) (scale_pos hd).le
  have hhigh : (num / den : ℚ) * unit < magnitude (floorRank num den + 1) := by
    have hrest : ((num % step num den : Nat) : ℚ) < step num den := by
      exact_mod_cast Nat.mod_lt num (step_pos hd)
    rw [← sub_pos, magnitude_floorRank_succ_sub hd]
    exact mul_pos (sub_pos.mpr hrest) (scale_pos hd)
  rw [nearestRank_eq]
  by_cases hinf : infiniteRank ≤ floorRank num den
  · have hround : floorRank num den ≤
        doublings num den * Nat.pow 2 52 + roundHalfEven num (step num den) := by
      refine Nat.add_le_add_left ?_ _
      rcases roundHalfEven_cases num (step num den) with ⟨h, -⟩ | ⟨h, -⟩ <;> omega
    rw [Nat.min_eq_left (hinf.trans hround)]
    exact nearest_infinite ((magnitude_strictMono.monotone hinf).trans hlow)
  · have hlt : floorRank num den < infiniteRank := Nat.not_le.mp hinf
    rcases roundHalfEven_cases num (step num den) with ⟨hround, h⟩ | ⟨hround, h⟩
    · rw [hround, ← floorRank, Nat.min_eq_right hlt.le]
      refine nearest_lower hlow hhigh hlt ?_
      rwa [floorRank_closer_iff hd, floorRank_tie_iff hd, even_floorRank]
    · rw [hround, ← Nat.add_assoc, ← floorRank, Nat.min_eq_right hlt]
      refine nearest_upper hlow hhigh hlt ?_
      rwa [floorRank_succ_closer_iff hd, eq_comm, floorRank_tie_iff hd, Nat.even_add_one,
        even_floorRank, ← Nat.even_add_one]

end Quotient

end Binary64

namespace Decimal

open Binary64

def value (d : Decimal) : ℚ := d.digits * 10 ^ d.exponent

/-- The exact value as a quotient of units. -/
theorem value_eq (d : Decimal) : d.value =
    ((d.digits * 10 ^ d.exponent.toNat * Nat.pow 2 1074 : Nat) / (10 ^ (-d.exponent).toNat : Nat) : ℚ) *
      unit := by
  have hexp : (10 : ℚ) ^ d.exponent = 10 ^ d.exponent.toNat / 10 ^ (-d.exponent).toNat := by
    rw [← zpow_natCast, ← zpow_natCast, ← zpow_sub₀ (by norm_num), Int.toNat_sub_toNat_neg]
  have hunit := cast_pow_mul_unit
  generalize Nat.pow 2 1074 = scale at hunit ⊢
  rw [value, hexp]
  push_cast
  linear_combination (-(d.digits : ℚ) * 10 ^ d.exponent.toNat / 10 ^ (-d.exponent).toNat) * hunit

/-- The rank of a decimal is the one nearest to its exact value. -/
theorem nearest_value_iff {d : Decimal} {r : Nat} : Nearest d.value r ↔ r = d.rank := by
  have hnearest : Nearest d.value d.rank := by
    rw [value_eq, rank_eq]
    exact nearest_nearestRank (Nat.pow_pos (by decide))
  constructor
  · exact fun h => h.unique hnearest
  · rintro rfl
    exact hnearest

end Decimal
end ClipGraph
