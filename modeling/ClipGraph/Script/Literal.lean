import ClipGraph.Number.Decimal
import ClipGraph.Node
import ClipGraph.Text.Classes

/-!
# Literals of the script language

How a parameter value is written into a script, and how a text literal is read back. Texts stand
between double quotes; quotes, backslashes and ASCII control characters are escaped, so a literal
never leaves its line. Finite doubles always show a decimal point and never an exponent.
-/

namespace ClipGraph
namespace Literal

/-- A character inside a text literal. -/
def escape (c : Char) : List Char :=
  if c = '\\' then ['\\', '\\']
  else if c = '"' then ['\\', '"']
  else if c = '\n' then ['\\', 'n']
  else if c = '\r' then ['\\', 'r']
  else if c = '\t' then ['\\', 't']
  else if c.toNat < 0x20 ∨ c.toNat = 0x7f then
    ['\\', 'x', Text.hexDigit (c.toNat / 16), Text.hexDigit c.toNat]
  else [c]

def quote (s : List Char) : List Char := '"' :: (s.flatMap escape ++ ['"'])

/-- Reads the inside of a text literal up to its closing quote, and answers the rest of the line. -/
def unescape : List Char → Option (List Char × List Char)
  | [] => none
  | '"' :: rest => some ([], rest)
  | '\\' :: 'x' :: high :: low :: rest => do
    let h ← Text.hexValue? high
    let l ← Text.hexValue? low
    let (s, after) ← unescape rest
    return (Char.ofNat (16 * h + l) :: s, after)
  | '\\' :: c :: rest => do
    let named ← match c with
      | '\\' => some '\\'
      | '"' => some '"'
      | 'n' => some '\n'
      | 'r' => some '\r'
      | 't' => some '\t'
      | _ => none
    let (s, after) ← unescape rest
    return (named :: s, after)
  | ['\\'] => none
  | c :: rest => do
    let (s, after) ← unescape rest
    return (c :: s, after)

/-- Reads a text literal at the front of a line. -/
def unquote : List Char → Option (List Char × List Char)
  | '"' :: rest => unescape rest
  | _ => none

/-- Doubles are written in full, and a tie between two shortest decimals goes up. -/
def floatFormat : FloatFormat := ⟨.up, fun _ => true⟩

/-- A double. What is no finite number is written as a call that makes it. -/
def writeFloat (x : Binary64) : List Char :=
  if x.isNaN then "float(\"nan\")".toList
  else if x.isInfinite then
    if x.isNegative then "float(\"-inf\")".toList else "float(\"inf\")".toList
  else floatFormat.write x

def writeInt (n : Int) : List Char :=
  if n < 0 then '-' :: Nat.toDigits 10 n.natAbs else Nat.toDigits 10 n.natAbs

end Literal

def Param.literal : Param → List Char
  | .bool true => "True".toList
  | .bool false => "False".toList
  | .int n => Literal.writeInt n.toInt
  | .float x => Literal.writeFloat x
  | .text s => Literal.quote s.toList

end ClipGraph
