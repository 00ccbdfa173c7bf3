import ClipGraph.Number.Decimal
import ClipGraph.Text.Classes

/-!
# JSON values and their text

Objects keep their members in order. A number is an integer or a double, as its text says; written
doubles always show a point or an exponent, so the two never mix. A double that is no finite number
has no text of its own and is written as `null`.
-/

namespace ClipGraph

namespace Json

inductive Number where
  | integer (n : Int)
  | float (x : Binary64)
  deriving DecidableEq, Repr

end Json

inductive Json where
  | null
  | bool (b : Bool)
  | number (n : Json.Number)
  | string (s : String)
  | array (items : List Json)
  | object (members : List (String × Json))
  deriving Repr, Inhabited

namespace Json

/-- Doubles from `0.00001` up to sixteen digits are written without an exponent, and a tie between
two shortest decimals goes to the even one. -/
def floatFormat : FloatFormat := ⟨.toEven, fun e => -5 ≤ e && e ≤ 15⟩

def writeNumber : Number → List Char
  | .integer n => if n < 0 then '-' :: Nat.toDigits 10 n.natAbs else Nat.toDigits 10 n.natAbs
  | .float x => if x.isFinite then floatFormat.write x else "null".toList

/-- A character inside a string. Only what has to be escaped is. -/
def escape (c : Char) : List Char :=
  if c = '"' then ['\\', '"']
  else if c = '\\' then ['\\', '\\']
  else if c = '\x08' then ['\\', 'b']
  else if c = '\x0c' then ['\\', 'f']
  else if c = '\n' then ['\\', 'n']
  else if c = '\r' then ['\\', 'r']
  else if c = '\t' then ['\\', 't']
  else if c.toNat < 0x20 then
    ['\\', 'u', '0', '0', Text.hexDigit (c.toNat / 16), Text.hexDigit c.toNat]
  else [c]

def writeString (s : String) : List Char := '"' :: (s.toList.flatMap escape ++ ['"'])

mutual

def compact : Json → List Char
  | .null => "null".toList
  | .bool true => "true".toList
  | .bool false => "false".toList
  | .number n => writeNumber n
  | .string s => writeString s
  | .array items => '[' :: (compactItems items ++ [']'])
  | .object members => '\x7b' :: (compactMembers members ++ ['\x7d'])

def compactItems : List Json → List Char
  | [] => []
  | [v] => compact v
  | v :: rest => compact v ++ ',' :: compactItems rest

def compactMembers : List (String × Json) → List Char
  | [] => []
  | [(key, v)] => writeString key ++ ':' :: compact v
  | (key, v) :: rest => writeString key ++ ':' :: (compact v ++ ',' :: compactMembers rest)

end

/-- The start of a line at a depth, two blanks to a level. -/
def newLine (depth : Nat) : List Char := '\n' :: List.replicate (2 * depth) ' '

mutual

/-- The text of a value with an item or a member on each line. -/
def pretty (depth : Nat) : Json → List Char
  | .null => "null".toList
  | .bool true => "true".toList
  | .bool false => "false".toList
  | .number n => writeNumber n
  | .string s => writeString s
  | .array [] => "[]".toList
  | .array (v :: rest) =>
    '[' :: (newLine (depth + 1) ++ pretty (depth + 1) v ++ prettyItems (depth + 1) rest ++
      newLine depth ++ [']'])
  | .object [] => ['\x7b', '\x7d']
  | .object ((key, v) :: rest) =>
    '\x7b' :: (newLine (depth + 1) ++ writeString key ++ ": ".toList ++ pretty (depth + 1) v ++
      prettyMembers (depth + 1) rest ++ newLine depth ++ ['\x7d'])

def prettyItems (depth : Nat) : List Json → List Char
  | [] => []
  | v :: rest => ',' :: (newLine depth ++ pretty depth v ++ prettyItems depth rest)

def prettyMembers (depth : Nat) : List (String × Json) → List Char
  | [] => []
  | (key, v) :: rest =>
    ',' :: (newLine depth ++ writeString key ++ ": ".toList ++ pretty depth v ++
      prettyMembers depth rest)

end

end Json
end ClipGraph
