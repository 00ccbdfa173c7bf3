import ClipGraph.Number.Decimal
import ClipGraph.Text.Classes
import ClipGraph.Toml.Blank

/-!
# Numbers in TOML

Single underscores may stand between digits. An integer has to fit a signed word of 64 bits; one
that is written to another base has no sign. A double has a point or an exponent, or is named.
-/

namespace ClipGraph.Toml

/-- Reads the digits that follow a digit, without the underscores between them. -/
def readMoreDigits (isDigit : Char → Bool) : Reader (List Char)
  | '_' :: c :: rest =>
    if isDigit c then (readMoreDigits isDigit rest).map fun (ds, after) => (c :: ds, after) else none
  | ['_'] => none
  | c :: rest =>
    if isDigit c then (readMoreDigits isDigit rest).map fun (ds, after) => (c :: ds, after)
    else some ([], c :: rest)
  | [] => some ([], [])

def readDigits (isDigit : Char → Bool) : Reader (List Char)
  | c :: rest =>
    if isDigit c then (readMoreDigits isDigit rest).map fun (ds, after) => (c :: ds, after) else none
  | [] => none

def readSign : List Char → Bool × List Char
  | '+' :: rest => (false, rest)
  | '-' :: rest => (true, rest)
  | cs => (false, cs)

/-- Reads the digits of a whole number. No zero stands in front of others. -/
def readWhole : Reader (List Char)
  | '0' :: rest => some (['0'], rest)
  | cs => readDigits Char.isDigit cs

/-- Whether a character is a digit to a base of at most sixteen. -/
def isDigitTo (base : Nat) (c : Char) : Bool := (Text.hexValue? c).any (· < base)

/-- Reads the digits of a number to another base. -/
def readToBase (base : Nat) (cs : List Char) : Option (Int × List Char) := do
  let (digits, after) ← readDigits (isDigitTo base) cs
  let n := digits.foldl (fun n c => base * n + (Text.hexValue? c).getD 0) 0
  if n < Nat.pow 2 63 then some (n, after) else none

def readInteger : Reader Int
  | '0' :: 'x' :: rest => readToBase 16 rest
  | '0' :: 'o' :: rest => readToBase 8 rest
  | '0' :: 'b' :: rest => readToBase 2 rest
  | cs => do
    let (negative, cs) := readSign cs
    let (digits, after) ← readWhole cs
    let n : Int := Text.natOf digits
    let n := if negative then -n else n
    if -(Nat.pow 2 63 : Int) ≤ n ∧ n < Nat.pow 2 63 then some (n, after) else none

def readFraction : Reader (Option (List Char))
  | '.' :: rest => (readDigits Char.isDigit rest).map fun (ds, after) => (some ds, after)
  | cs => some (none, cs)

def readExponent : Reader (Option Int)
  | [] => some (none, [])
  | c :: rest =>
    if c = 'e' ∨ c = 'E' then do
      let (negative, cs) := readSign rest
      let (digits, after) ← readDigits Char.isDigit cs
      let n : Int := Text.natOf digits
      some (some (if negative then -n else n), after)
    else some (none, c :: rest)

/-- Reads a double. One too large for its format is refused if it is positive. -/
def readFloat (cs : List Char) : Option (Binary64 × List Char) :=
  let (negative, cs) := readSign cs
  match cs with
  | 'i' :: 'n' :: 'f' :: rest => some (.ofRank negative Binary64.infiniteRank, rest)
  | 'n' :: 'a' :: 'n' :: rest => some (.ofRank negative (Binary64.infiniteRank + Nat.pow 2 51), rest)
  | cs => do
    let (whole, cs) ← readWhole cs
    let (fraction, cs) ← readFraction cs
    let (exponent, after) ← readExponent cs
    let digits := fraction.getD []
    let x := Decimal.toBinary64 negative
      ⟨Text.natOf (whole ++ digits), exponent.getD 0 - digits.length⟩
    if (fraction.isNone && exponent.isNone) || (x.isInfinite && !negative) then none
    else some (x, after)

end ClipGraph.Toml
