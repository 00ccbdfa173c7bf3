/-!
# Blanks, comments and line ends of TOML

Readers take the front of a text and answer what follows it, or nothing if the front is not what
they read. A line ends with a line feed, which a carriage return may precede.
-/

namespace ClipGraph.Toml

abbrev Reader (α : Type) := List Char → Option (α × List Char)

def isBlank (c : Char) : Bool := c == ' ' || c == '\t'

def skipBlanks (cs : List Char) : List Char := cs.dropWhile isBlank

/-- Whether a character may stand in a comment. Of the controls only the tab may. -/
def isPlain (c : Char) : Bool := c == '\t' || (decide (0x20 ≤ c.toNat) && c.toNat != 0x7f)

/-- What follows a line break. -/
def lineBreak? : List Char → Option (List Char)
  | '\n' :: rest => some rest
  | '\r' :: '\n' :: rest => some rest
  | _ => none

/-- What follows the end of a line, where blanks and a comment may stand before the break. The last
line needs no break. -/
def lineEnd? (cs : List Char) : Option (List Char) :=
  let after := match skipBlanks cs with
    | '#' :: rest => rest.dropWhile isPlain
    | rest => rest
  if after.isEmpty then some [] else lineBreak? after

/-- What follows any number of blanks, comments and line breaks. A comment that holds a character it
must not is left where that character stands. -/
def skipFiller (inComment : Bool) : List Char → List Char
  | [] => []
  | '\n' :: rest => skipFiller false rest
  | '\r' :: '\n' :: rest => skipFiller false rest
  | c :: rest =>
    if inComment then if isPlain c then skipFiller true rest else c :: rest
    else if isBlank c then skipFiller false rest
    else if c = '#' then skipFiller true rest
    else c :: rest

def expect (c : Char) : List Char → Option (List Char)
  | d :: rest => if d = c then some rest else none
  | [] => none

end ClipGraph.Toml
