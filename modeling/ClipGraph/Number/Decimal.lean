import ClipGraph.Number.Binary64

/-!
# Decimals and doubles

Reading takes a decimal to the nearest double. Writing searches, for one significant digit, then
two, and so on, the two decimals of that length around the exact value; the first length at which
one of them reads back is the shortest, and of two that read back the nearer is taken.
-/

namespace ClipGraph

structure Decimal where
  digits : Nat
  exponent : Int
  deriving DecidableEq, Repr

/-- Where an exact tie between two shortest decimals goes. -/
inductive Tie where
  | toEven
  | up
  deriving DecidableEq, Repr

namespace Decimal

/-- The rank of the nearest double. Values past either end of the range are decided by their size
alone, so an exponent of any length is read at once. -/
def rank (d : Decimal) : Nat :=
  if d.digits = 0 ∨ (d.digits.log2 : Int) + d.exponent < -400 then 0
  else if 400 < d.exponent then Binary64.infiniteRank
  else Binary64.nearestRank
    (d.digits * Nat.pow 10 d.exponent.toNat * Nat.pow 2 1074) (Nat.pow 10 (-d.exponent).toNat)

def toBinary64 (negative : Bool) (d : Decimal) : Binary64 := .ofRank negative d.rank

def normalize (d : Decimal) : Decimal :=
  if h : d.digits ≠ 0 ∧ d.digits % 10 = 0 then normalize ⟨d.digits / 10, d.exponent + 1⟩ else d
termination_by d.digits
decreasing_by exact Nat.div_lt_self (Nat.pos_of_ne_zero h.1) (by decide)

def width (n : Nat) : Nat := (Nat.toDigits 10 n).length

/-- The least power of ten above a number of units, as an exponent. The value is scaled up far
enough for its whole part to show the leading digit. -/
def leadingExponent (units : Nat) : Int :=
  (width (units * Nat.pow 10 400 / Nat.pow 2 1074) : Int) - 400

/-- The one of two decimals that reads back to a rank, or the preferred one if both do. -/
def readingBack? (rank : Nat) (below above : Decimal) (prefersAbove : Bool) : Option Decimal :=
  match below.rank == rank, above.rank == rank with
  | true, true => some (if prefersAbove then above else below)
  | true, false => some below
  | false, true => some above
  | false, false => none

/-- The decimal of the given length nearest to a rank among those that read back to it. -/
def ofLength? (tie : Tie) (rank length : Nat) : Option Decimal :=
  let units := Binary64.units rank
  let exponent := leadingExponent units - length
  let num := units * Nat.pow 10 (-exponent).toNat
  let den := Nat.pow 2 1074 * Nat.pow 10 exponent.toNat
  let below : Decimal := ⟨num / den, exponent⟩
  let above : Decimal := ⟨num / den + 1, exponent⟩
  let rest := num % den
  let preferAbove :=
    2 * rest > den || (2 * rest == den && (tie == .up || below.digits % 2 == 1))
  readingBack? rank below above (rest ≠ 0 && preferAbove)

def exact (rank : Nat) : Decimal := ⟨Binary64.units rank * Nat.pow 5 1074, -1074⟩

/-- The shortest decimal that reads back to the rank. Seventeen digits are always enough. -/
def shortest (tie : Tie) (rank : Nat) : Decimal :=
  (((List.range 17).findSome? fun n => ofLength? tie rank (n + 1)).getD (exact rank)).normalize

end Decimal

/-- How a finite double is written: where a tie between two shortest decimals goes, and the range
of exponents of the leading digit that are written without an exponent mark. -/
structure FloatFormat where
  tie : Tie
  positional : Int → Bool

namespace FloatFormat

def zeros (n : Nat) : List Char := List.replicate n '0'

/-- Digits with a decimal point after the first `point` of them, and at least one digit on either
side of it. -/
def pointed (digits : List Char) (point : Int) : List Char :=
  if point ≤ 0 then ['0', '.'] ++ zeros (-point).toNat ++ digits
  else if digits.length ≤ point.toNat then
    digits ++ zeros (point.toNat - digits.length) ++ ['.', '0']
  else digits.take point.toNat ++ ['.'] ++ digits.drop point.toNat

/-- Digits with a point after the first and an exponent with its sign. -/
def scientific (digits : List Char) (exponent : Int) : List Char :=
  let mantissa := match digits with
    | first :: second :: rest => first :: '.' :: second :: rest
    | _ => digits
  let sign := if exponent < 0 then '-' else '+'
  mantissa ++ ['e', sign] ++ Nat.toDigits 10 exponent.natAbs

def writeRank (format : FloatFormat) (rank : Nat) : List Char :=
  if rank = 0 then ['0', '.', '0'] else
  let d := Decimal.shortest format.tie rank
  let digits := Nat.toDigits 10 d.digits
  let point := d.exponent + digits.length
  if format.positional (point - 1) then pointed digits point
  else scientific digits (point - 1)

/-- The text of a finite double. A minus stands before every negative one, zero included. -/
def write (format : FloatFormat) (x : Binary64) : List Char :=
  if x.isNegative then '-' :: format.writeRank x.rank else format.writeRank x.rank

end FloatFormat
end ClipGraph
