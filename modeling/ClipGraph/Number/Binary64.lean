/-!
# Binary64 numbers

A double is its 64-bit pattern. The patterns without the sign bit are numbered from zero upwards in
the order of their magnitudes, and that number is the *rank*. Every finite magnitude is a whole
number of units of `2 ^ -1074`, so exact arithmetic on doubles is arithmetic on naturals. A quotient
is rounded to the nearest rank, and a tie goes to the even one.
-/

namespace ClipGraph

/-- A floating-point number of 64 bits: one of sign, eleven of exponent, 52 of fraction. -/
structure Binary64 where
  bits : UInt64
  deriving DecidableEq, Repr

namespace Binary64

/-- The pattern without its sign bit. Ranks grow with the magnitude. -/
def rank (x : Binary64) : Nat := x.bits.toNat % Nat.pow 2 63

def isNegative (x : Binary64) : Bool := decide (Nat.pow 2 63 ≤ x.bits.toNat)

/-- The rank of infinity. Finite numbers lie below it and the NaNs above. -/
def infiniteRank : Nat := 2047 * Nat.pow 2 52

def isNaN (x : Binary64) : Bool := decide (infiniteRank < x.rank)

def isInfinite (x : Binary64) : Bool := x.rank == infiniteRank

def isFinite (x : Binary64) : Bool := decide (x.rank < infiniteRank)

def ofRank (negative : Bool) (rank : Nat) : Binary64 :=
  ⟨UInt64.ofNat (if negative then rank + Nat.pow 2 63 else rank)⟩

/-- How often the unit has doubled at a rank. The first two binades share the smallest unit. -/
def binade (rank : Nat) : Nat := rank / Nat.pow 2 52 - 1

/-- The magnitude at a finite rank, in units of `2 ^ -1074`. -/
def units (rank : Nat) : Nat :=
  (rank - binade rank * Nat.pow 2 52) * Nat.pow 2 (binade rank)

/-- The whole number nearest to a quotient; a tie goes to the even one. -/
def roundHalfEven (num den : Nat) : Nat :=
  let q := num / den
  let r := num % den
  if 2 * r < den then q else if den < 2 * r then q + 1 else q + q % 2

/-- The rank nearest to `num / den` units. A significand that rounds up to the next power of two
carries into the next binade by itself. -/
def nearestRank (num den : Nat) : Nat :=
  let doublings := (num / den).log2 - 52
  min infiniteRank (doublings * Nat.pow 2 52 + roundHalfEven num (den * Nat.pow 2 doublings))

/-- Equality of numbers: both zeros are equal and a NaN equals nothing. -/
def sameNumber (x y : Binary64) : Bool :=
  !x.isNaN && !y.isNaN && (x.bits == y.bits || (x.rank == 0 && y.rank == 0))

end Binary64
end ClipGraph
