import ClipGraph.Text.Classes
import ClipGraph.Text.Utf8

/-!
# Text as it is shown

Messages show a text between double quotes on one line. Quotes, backslashes and line ends are
escaped by a backslash, and every character that would not be seen by its number.

Elsewhere what a terminal would obey and not show is left out of a text: control characters other
than blanks, and the sequences that an escape character opens. Such a sequence lasts up to a
character that is able to end it, or up to the next escape character. A blank control inside a
sequence of the first kinds is shown, and so is the text behind it, but a control character further
on takes the sequence up again.
-/

namespace ClipGraph.Text

/-- The code point in lower-case hexadecimal between braces. -/
def numbered (c : Char) : List Char :=
  ['\\', 'u', '\x7b'] ++ Nat.toDigits 16 c.toNat ++ ['\x7d']

def quotedChar (c : Char) : List Char :=
  if c = '\x00' then ['\\', '0']
  else if c = '\t' then ['\\', 't']
  else if c = '\n' then ['\\', 'n']
  else if c = '\r' then ['\\', 'r']
  else if c = '"' then ['\\', '"']
  else if c = '\\' then ['\\', '\\']
  else if isExtending c || !isPrintable c then numbered c
  else [c]

def quoted (s : String) : String := .ofList (['"'] ++ s.toList.flatMap quotedChar ++ ['"'])

inductive TerminalMode where
  | showing
  | escape
  /-- Behind an escape character and what may only stand before its end. -/
  | escapeMiddle
  /-- In a sequence that a letter or the like ends. -/
  | sequence
  /-- At the beginning of a device string, where parameters stand. -/
  | deviceStart
  | deviceParameter
  | deviceMiddle
  /-- In a string that only its terminator ends. -/
  | controlString
  /-- In a string that a bell ends. -/
  | title
  deriving DecidableEq, Repr

namespace TerminalMode

def isBetween (low high : Nat) (c : Char) : Bool := low ≤ c.toNat && c.toNat ≤ high

/-- The control characters that are blanks. -/
def isBlankControl (c : Char) : Bool := c = '\t' || c = '\n' || c = '\x0c' || c = '\r'

/-- Whether a character comes out. -/
def shows (m : TerminalMode) (c : Char) : Bool :=
  match m with
  | .showing => isBetween 0x20 0x7e c || 0x80 ≤ c.toNat || isBlankControl c
  | .escape => isBlankControl c
  | .escapeMiddle => isBlankControl c
  | .sequence => isBlankControl c
  | _ => false

/-- Whether the byte that terminates strings is among the bytes of a character. -/
def hasTerminator (c : Char) : Bool := (Utf8.encode (String.singleton c)).contains 0x9c

/-- What an escape character opens together with the next one. -/
def afterEscape (c : Char) : TerminalMode :=
  if c = '[' then .sequence
  else if c = ']' then .title
  else if c = 'P' then .deviceStart
  else if c = 'X' || c = '^' || c = '_' then .controlString
  else if isBetween 0x20 0x2f c then .escapeMiddle
  else if isBetween 0x30 0x7e c then .showing
  else .escape

/-- The mode behind a character that does not come out. -/
def next (m : TerminalMode) (c : Char) : TerminalMode :=
  if c = '\x1b' then .escape
  else if c = '\x18' || c = '\x1a' then .showing
  else match m with
    | .showing => .showing
    | .escape => afterEscape c
    | .escapeMiddle => if isBetween 0x30 0x7e c then .showing else m
    | .sequence => if isBetween 0x40 0x7e c then .showing else m
    | .deviceStart =>
      if isBetween 0x20 0x2f c then .deviceMiddle
      else if isBetween 0x30 0x3f c then .deviceParameter
      else if isBetween 0x40 0x7e c then .controlString
      else m
    | .deviceParameter =>
      if isBetween 0x20 0x2f c then .deviceMiddle
      else if isBetween 0x3c 0x7e c then .controlString
      else m
    | .deviceMiddle => if isBetween 0x30 0x7e c then .controlString else m
    | .controlString => if 0x80 ≤ c.toNat && hasTerminator c then .showing else m
    | .title => if c = '\x07' then .showing else m

end TerminalMode

/-- The characters that come out, read in a mode. While `running`, text is being shown, and the mode
is that which the next character that does not come out is read in. -/
def visible : TerminalMode → Bool → List Char → List Char
  | _, _, [] => []
  | m, running, c :: rest =>
    if (if running then .showing else m : TerminalMode).shows c then
      c :: visible (if c.toNat < 0x80 then m else .showing) true rest
    else visible (m.next c) false rest

/-- A text as it is shown where nothing obeys control sequences. -/
def plain (s : String) : String := .ofList (visible .showing false s.toList)

end ClipGraph.Text
