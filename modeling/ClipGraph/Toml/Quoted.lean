import ClipGraph.Text.Classes
import ClipGraph.Toml.Blank

/-!
# Quoted text in TOML

A text has four written forms: on one line or over several, and with escapes or literally. A text
over several lines stands between three quotes, so two quotes in a row may stand inside it, at its
end as well, and a line break right behind its opening does not count.
-/

namespace ClipGraph.Toml.Quoted

inductive Form where
  | basic
  | literal
  | basicLines
  | literalLines
  deriving DecidableEq, Repr

def shortEscape? : Char → Option Char
  | 'b' => some '\x08'
  | 't' => some '\t'
  | 'n' => some '\n'
  | 'f' => some '\x0c'
  | 'r' => some '\r'
  | '"' => some '"'
  | '\\' => some '\\'
  | _ => none

/-- The character with a number in hexadecimal. Halves of surrogate pairs are no characters. -/
def numbered? (digits : List Char) : Option Char := do
  let values ← digits.mapM Text.hexValue?
  let n := values.foldl (fun n d => 16 * n + d) 0
  if n.isValidChar then some (Char.ofNat n) else none

/-- Reads a text with escapes up to the quote that closes it. -/
def readBasic : Reader (List Char)
  | '"' :: rest => some ([], rest)
  | '\\' :: 'u' :: a :: b :: c :: d :: rest => do
    let x ← numbered? [a, b, c, d]
    let (s, after) ← readBasic rest
    return (x :: s, after)
  | '\\' :: 'U' :: a :: b :: c :: d :: e :: f :: g :: h :: rest => do
    let x ← numbered? [a, b, c, d, e, f, g, h]
    let (s, after) ← readBasic rest
    return (x :: s, after)
  | '\\' :: e :: rest => do
    let x ← shortEscape? e
    let (s, after) ← readBasic rest
    return (x :: s, after)
  | c :: rest =>
    if isPlain c && c != '\\' then do
      let (s, after) ← readBasic rest
      return (c :: s, after)
    else none
  | [] => none

def readLiteral : Reader (List Char)
  | '\'' :: rest => some ([], rest)
  | c :: rest =>
    if isPlain c then do
      let (s, after) ← readLiteral rest
      return (c :: s, after)
    else none
  | [] => none

inductive Place where
  | inside
  /-- Behind a backslash that has to be the last of its line. -/
  | lineEnd
  /-- At the blanks and line breaks that such a backslash takes with it. -/
  | folded
  deriving DecidableEq, Repr

/-- Reads lines with escapes up to the three quotes that close them. -/
def readBasicLines : Place → Reader (List Char)
  | .lineEnd, '\n' :: rest => readBasicLines .folded rest
  | .lineEnd, '\r' :: '\n' :: rest => readBasicLines .folded rest
  | .lineEnd, c :: rest => if isBlank c then readBasicLines .lineEnd rest else none
  | .folded, ' ' :: rest => readBasicLines .folded rest
  | .folded, '\t' :: rest => readBasicLines .folded rest
  | .folded, '\n' :: rest => readBasicLines .folded rest
  | .folded, '\r' :: '\n' :: rest => readBasicLines .folded rest
  | _, '"' :: '"' :: '"' :: '"' :: '"' :: rest => some (['"', '"'], rest)
  | _, '"' :: '"' :: '"' :: '"' :: rest => some (['"'], rest)
  | _, '"' :: '"' :: '"' :: rest => some ([], rest)
  | _, '\\' :: 'u' :: a :: b :: c :: d :: rest => do
    let x ← numbered? [a, b, c, d]
    let (s, after) ← readBasicLines .inside rest
    return (x :: s, after)
  | _, '\\' :: 'U' :: a :: b :: c :: d :: e :: f :: g :: h :: rest => do
    let x ← numbered? [a, b, c, d, e, f, g, h]
    let (s, after) ← readBasicLines .inside rest
    return (x :: s, after)
  | _, '\\' :: e :: rest =>
    match shortEscape? e with
    | some x => do
      let (s, after) ← readBasicLines .inside rest
      return (x :: s, after)
    | none => readBasicLines .lineEnd (e :: rest)
  | _, '\n' :: rest => do
    let (s, after) ← readBasicLines .inside rest
    return ('\n' :: s, after)
  | _, '\r' :: '\n' :: rest => do
    let (s, after) ← readBasicLines .inside rest
    return ('\n' :: s, after)
  | _, c :: rest =>
    if isPlain c && c != '\\' then do
      let (s, after) ← readBasicLines .inside rest
      return (c :: s, after)
    else none
  | _, [] => none

/-- Reads lines without escapes up to the three quotes that close them. -/
def readLiteralLines : Reader (List Char)
  | '\'' :: '\'' :: '\'' :: '\'' :: '\'' :: rest => some (['\'', '\''], rest)
  | '\'' :: '\'' :: '\'' :: '\'' :: rest => some (['\''], rest)
  | '\'' :: '\'' :: '\'' :: rest => some ([], rest)
  | '\n' :: rest => do
    let (s, after) ← readLiteralLines rest
    return ('\n' :: s, after)
  | '\r' :: '\n' :: rest => do
    let (s, after) ← readLiteralLines rest
    return ('\n' :: s, after)
  | c :: rest =>
    if isPlain c then do
      let (s, after) ← readLiteralLines rest
      return (c :: s, after)
    else none
  | [] => none

/-- The text behind a line break, if it starts with one. -/
def skipLineBreak (cs : List Char) : List Char := (lineBreak? cs).getD cs

def readLine? : Reader (List Char)
  | '"' :: rest => readBasic rest
  | '\'' :: rest => readLiteral rest
  | _ => none

def read? : Reader (List Char)
  | '"' :: '"' :: '"' :: rest => readBasicLines .inside (skipLineBreak rest)
  | '\'' :: '\'' :: '\'' :: rest => readLiteralLines (skipLineBreak rest)
  | cs => readLine? cs

/-- Whether a character can only be written by an escape. -/
def isControl (c : Char) : Bool := !isPlain c && c != '\n'

def longestRun (q : Char) : List Char → Nat → Nat
  | [], run => run
  | c :: rest, run =>
    if c = q then longestRun q rest (run + 1) else max run (longestRun q rest 0)

/-- The form in which a text is written: the first of the four that needs no escape but that of a
tab, and one with escapes if there is none. -/
def formOf (s : List Char) : Form :=
  let hasControl := s.any isControl
  let hasLines := s.contains '\n'
  let hasBackslash := s.contains '\\'
  let quotes := longestRun '"' s 0
  let ticks := longestRun '\'' s 0
  if !hasControl && !hasBackslash && quotes == 0 && !hasLines then .basic
  else if !hasControl && ticks == 0 && !hasLines then .literal
  else if !hasControl && !hasBackslash && quotes ≤ 2 then .basicLines
  else if !hasControl && ticks ≤ 2 then .literalLines
  else if hasLines then .basicLines
  else .basic

def upperDigit (n : Nat) : Char := (Text.hexDigit n).toUpper

/-- A character other than a quote between quotes. A line break stays where lines are allowed. -/
def escape (lines : Bool) (c : Char) : List Char :=
  if c = '\x08' then ['\\', 'b']
  else if c = '\t' then ['\\', 't']
  else if c = '\n' then if lines then ['\n'] else ['\\', 'n']
  else if c = '\x0c' then ['\\', 'f']
  else if c = '\r' then ['\\', 'r']
  else if c = '\\' then ['\\', '\\']
  else if isPlain c then [c]
  else ['\\', 'u', '0', '0', upperDigit (c.toNat / 16), upperDigit c.toNat]

/-- The inside of a text with escapes. As many quotes in a row stay as they are as the form
allows. -/
def escapeAll (lines : Bool) : Nat → List Char → List Char
  | _, [] => []
  | free, c :: rest =>
    let allowed := if lines then 2 else 0
    if c = '"' then
      match free with
      | 0 => '\\' :: '"' :: escapeAll lines allowed rest
      | free + 1 => '"' :: escapeAll lines free rest
    else escape lines c ++ escapeAll lines allowed rest

/-- The opening of a text over several lines. A line break follows it if there is one inside. -/
def opening (q : Char) (s : List Char) : List Char :=
  [q, q, q] ++ if s.contains '\n' then ['\n'] else []

def writeAs : Form → List Char → List Char
  | .basic, s => '"' :: (escapeAll false 0 s ++ ['"'])
  | .literal, s => '\'' :: (s ++ ['\''])
  | .basicLines, s => opening '"' s ++ escapeAll true 2 s ++ ['"', '"', '"']
  | .literalLines, s => opening '\'' s ++ s ++ ['\'', '\'', '\'']

/-- A text in the form that suits it. -/
def write (s : List Char) : List Char := writeAs (formOf s) s

end ClipGraph.Toml.Quoted
