import ClipGraph.Number.Decimal
import ClipGraph.Text.Classes

/-!
# Decimals in two roundings

A decimal can be read faster than exactly. Its leading digits, as many as fit into a word of 64 bits,
make a significand, which is rounded to a double. The double is multiplied by a power of ten, or
divided by one, and rounded again. Most decimals come to the nearest double in this way, and some to
a neighbour of it, even if they were written to be read back.
-/

namespace ClipGraph

namespace Binary64

def rankOfNat (n : Nat) : Nat := nearestRank (n * Nat.pow 2 1074) 1

/-- The rank nearest to the product of two finite magnitudes. -/
def mulRank (a b : Nat) : Nat := nearestRank (units a * units b) (Nat.pow 2 1074)

def divRank (a b : Nat) : Nat := nearestRank (units a * Nat.pow 2 1074) (units b)

/-- The largest exponent of a power of ten that is in the range of doubles. -/
def maxPower : Nat := 308

def powerOfTen (n : Nat) : Nat := rankOfNat (Nat.pow 10 n)

/-- A magnitude times a power of ten. Only zero stands to be multiplied by one that is out of range. -/
def enlarge (rank n : Nat) : Nat :=
  if n ≤ maxPower then mulRank rank (powerOfTen n) else if rank = 0 then 0 else infiniteRank

/-- A magnitude divided by a power of ten. One that is out of range is divided by in steps, as long
as something is left. -/
def reduce (rank n : Nat) : Nat :=
  if n ≤ maxPower then divRank rank (powerOfTen n)
  else if rank = 0 then 0
  else reduce (divRank rank (powerOfTen maxPower)) (n - maxPower)
termination_by n
decreasing_by exact Nat.sub_lt (by omega) (by decide)

def scale (rank : Nat) (exponent : Int) : Nat :=
  if 0 ≤ exponent then enlarge rank exponent.toNat else reduce rank (-exponent).toNat

end Binary64

namespace Decimal

/-- Takes digits as long as the number that they go on with fits into a word, and leaves the rest. -/
def takeDigits (n : Nat) : List Char → Nat × List Char
  | [] => (n, [])
  | c :: rest =>
    let next := 10 * n + (c.toNat - '0'.toNat)
    if next < Nat.pow 2 64 then takeDigits next rest else (n, c :: rest)

/-- The leading digits of a number, from before and behind its point. Of the digits that are left,
those before the point still count as places. -/
def ofDigits (whole fraction : List Char) (exponent : Int) : Decimal :=
  let (n, left) := takeDigits 0 whole
  let (n, unread) := takeDigits n fraction
  ⟨n, exponent + left.length + unread.length - fraction.length⟩

/-- The rank that a decimal comes to in two roundings. -/
def scaledRank (d : Decimal) : Nat := Binary64.scale (Binary64.rankOfNat d.digits) d.exponent

end Decimal
end ClipGraph
