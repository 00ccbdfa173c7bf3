import ClipGraph.Text.Classes
import ClipGraph.Toml.Blank

/-!
# Dates and times in TOML

A moment is a date, a time of day, or a date with a time behind it, which may then name its offset
from universal time. Dates are those of the calendar, and a minute may have a leap second.
-/

namespace ClipGraph.Toml.Moment

/-- Reads a number of two digits within bounds. -/
def readPair (low high : Nat) : Reader Nat
  | a :: b :: rest =>
    let n := Text.natOf [a, b]
    if a.isDigit && b.isDigit && low ≤ n && n ≤ high then some (n, rest) else none
  | _ => none

def isLeapYear (year : Nat) : Bool := year % 4 == 0 && (year % 100 != 0 || year % 400 == 0)

def daysIn (year month : Nat) : Nat :=
  if month = 2 then if isLeapYear year then 29 else 28
  else if month = 4 ∨ month = 6 ∨ month = 9 ∨ month = 11 then 30
  else 31

def afterDate? : List Char → Option (List Char)
  | a :: b :: c :: d :: '-' :: rest => do
    if [a, b, c, d].all Char.isDigit then
      let (month, rest) ← readPair 1 12 rest
      let rest ← expect '-' rest
      let (day, rest) ← readPair 1 31 rest
      if day ≤ daysIn (Text.natOf [a, b, c, d]) month then some rest else none
    else none
  | _ => none

def afterFraction? : List Char → Option (List Char)
  | '.' :: c :: rest => if c.isDigit then some (rest.dropWhile Char.isDigit) else none
  | ['.'] => none
  | cs => some cs

def afterTime? (cs : List Char) : Option (List Char) := do
  let (_, cs) ← readPair 0 23 cs
  let cs ← expect ':' cs
  let (_, cs) ← readPair 0 59 cs
  let cs ← expect ':' cs
  let (_, cs) ← readPair 0 60 cs
  afterFraction? cs

def afterOffset? : List Char → Option (List Char)
  | [] => none
  | c :: rest =>
    if c = 'Z' ∨ c = 'z' then some rest
    else if c = '+' ∨ c = '-' then do
      let (_, cs) ← readPair 0 23 rest
      let cs ← expect ':' cs
      let (_, cs) ← readPair 0 59 cs
      some cs
    else none

/-- What follows the time behind a date, or all of the text if there is none. -/
def skipTime : List Char → List Char
  | [] => []
  | c :: rest =>
    if c = 'T' ∨ c = 't' ∨ c = ' ' then
      match afterTime? rest with
      | some after => (afterOffset? after).getD after
      | none => c :: rest
    else c :: rest

/-- Reads a moment and keeps it as it is written. -/
def read? (cs : List Char) : Option (String × List Char) := do
  let after ← ((afterDate? cs).map skipTime) <|> afterTime? cs
  return (.ofList (cs.take (cs.length - after.length)), after)

end ClipGraph.Toml.Moment
