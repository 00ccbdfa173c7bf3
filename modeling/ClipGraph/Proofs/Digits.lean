import Mathlib
import ClipGraph.Text.Classes

/-!
# Runs of characters

A run of characters of one kind ends where a character of another kind follows. Runs of digits spell
numbers: the digits of one run behind those of another count below them, zeros in front count for
nothing, and the decimal digits of a number start with a zero only if they are that zero.
-/

namespace ClipGraph

/-- What follows does not continue a run of characters of one kind. -/
def Stops (p : Char → Bool) (rest : List Char) : Prop := ∀ c ∈ rest.head?, p c = false

theorem stops_cons {p : Char → Bool} {c : Char} {rest : List Char} (h : p c = false) :
    Stops p (c :: rest) := by
  intro d hd
  rw [List.head?_cons, Option.mem_some_iff] at hd
  rwa [← hd]

theorem stops_nil (p : Char → Bool) : Stops p [] := by simp [Stops]

theorem Stops.mono {p q : Char → Bool} {rest : List Char} (hpq : ∀ c, p c = true → q c = true)
    (h : Stops q rest) : Stops p rest := by
  intro c hc
  have hq := h c hc
  exact Bool.eq_false_iff.mpr fun hp => Bool.eq_false_iff.mp hq (hpq c hp)

section Runs

variable {p : Char → Bool} {w rest : List Char}

/-- A run of one kind is taken whole if what follows is of another kind. -/
theorem takeWhile_run (hw : ∀ c ∈ w, p c = true) (hr : Stops p rest) :
    (w ++ rest).takeWhile p = w := by
  rw [List.takeWhile_append_of_pos hw]
  cases rest with
  | nil => simp
  | cons c rest => simp [hr c rfl]

theorem dropWhile_run (hw : ∀ c ∈ w, p c = true) (hr : Stops p rest) :
    (w ++ rest).dropWhile p = rest := by
  rw [List.dropWhile_append_of_pos hw]
  cases rest with
  | nil => rfl
  | cons c rest => simp [hr c rfl]

end Runs

namespace Text

theorem spanDigits_run {digits rest : List Char} (hd : ∀ c ∈ digits, c.isDigit = true)
    (hr : Stops Char.isDigit rest) : spanDigits (digits ++ rest) = (digits, rest) := by
  rw [spanDigits, takeWhile_run hd hr, dropWhile_run hd hr]

/-- Digits spell the same number as in the standard library. -/
theorem natOf_eq (digits : List Char) : natOf digits = Nat.ofDigitChars 10 digits 0 := by
  rw [Nat.ofDigitChars_eq_foldl, natOf]

theorem natOf_append (front back : List Char) :
    natOf (front ++ back) = natOf front * 10 ^ back.length + natOf back := by
  rw [natOf_eq, natOf_eq, natOf_eq, Nat.ofDigitChars_append, Nat.ofDigitChars_eq_ofDigitChars_zero,
    Nat.mul_comm]

@[simp] theorem natOf_zeros (n : Nat) : natOf (List.replicate n '0') = 0 := by
  rw [natOf_eq, Nat.ofDigitChars_replicate_zero, Nat.mul_zero]

/-- The digits of a number spell it. -/
theorem natOf_toDigits (n : Nat) : natOf (Nat.toDigits 10 n) = n := by
  rw [natOf_eq, Nat.ofDigitChars_ten_toDigits]

/-- Digits in front of a point: at least one, and no needless zero in front. -/
structure IsWhole (cs : List Char) : Prop where
  nonempty : cs ≠ []
  digits : ∀ c ∈ cs, c.isDigit = true
  noZero : cs.head? = some '0' → cs = ['0']

theorem isWhole_zero : IsWhole ['0'] := ⟨by simp, by simp, fun _ => rfl⟩

theorem isDigit_of_mem_toDigits {n : Nat} {c : Char} (h : c ∈ Nat.toDigits 10 n) :
    c.isDigit = true :=
  Nat.isDigit_of_mem_toDigits (by decide) (by decide) h

theorem head?_toDigits {n : Nat} (hn : n ≠ 0) : (Nat.toDigits 10 n).head? ≠ some '0' := by
  induction n using Nat.strong_induction_on with
  | h n ih =>
    by_cases hlt : n < 10
    · have hdigits : ∀ m < 10, m ≠ 0 → Nat.digitChar m ≠ '0' := by decide
      rw [Nat.toDigits_of_lt_base hlt]
      simpa using hdigits n hlt hn
    · have htail := ih (n / 10) (by omega) (by omega)
      rw [Nat.toDigits_of_base_le (by decide) (by omega),
        List.head?_append_of_ne_nil _ Nat.toDigits_ne_nil]
      exact htail

/-- The digits of a number have no needless zero in front. -/
theorem isWhole_toDigits (n : Nat) : IsWhole (Nat.toDigits 10 n) where
  nonempty := Nat.toDigits_ne_nil
  digits := fun _ => isDigit_of_mem_toDigits
  noZero := by
    intro h
    by_cases hn : n = 0
    · rw [hn, Nat.toDigits_zero]
    · exact absurd h (head?_toDigits hn)

theorem isWhole_of_head {cs : List Char} (hn : cs ≠ []) (hd : ∀ c ∈ cs, c.isDigit = true)
    (h0 : cs.head? ≠ some '0') : IsWhole cs := ⟨hn, hd, fun h => absurd h h0⟩

end Text
end ClipGraph
