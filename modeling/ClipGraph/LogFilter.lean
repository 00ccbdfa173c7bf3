import ClipGraph.LogFilter.Pattern
import ClipGraph.Text.Classes
import ClipGraph.Text.Utf8

/-!
# Log filters

A filter is a list of directives between commas. A directive is a level, or a target, a span between
brackets or both, with perhaps a level behind an equals sign. In its brackets a span has a name,
a field between braces, or both, and a field may ask for a value. What is no level counts as a
target, whatever it holds.

Blanks around a directive mean nothing to its reading, but its pieces are cut out of the text with
the blanks, at the places where they would lie without. So a level is only found in a directive
without blanks.
-/

namespace ClipGraph.LogFilter

def levels : List String := ["trace", "debug", "info", "warn", "error", "off"]

/-- Whether a text is a level: a number up to five, a name in any case, or nothing. -/
def isLevel (cs : List Char) : Bool :=
  let digits := match cs with
    | '+' :: rest => rest
    | _ => cs
  cs.isEmpty || levels.contains (String.ofList (cs.map Char.toLower)) ||
    !digits.isEmpty && digits.all Char.isDigit && Text.natOf digits ≤ 5

def isExponent : List Char → Bool
  | [] => true
  | c :: cs =>
    let digits := match cs with
      | '+' :: rest => rest
      | '-' :: rest => rest
      | _ => cs
    (c = 'e' || c = 'E') && !digits.isEmpty && digits.all Char.isDigit

def isNumber (cs : List Char) : Bool :=
  let (whole, rest) := Text.spanDigits cs
  let (fraction, rest) := match rest with
    | '.' :: rest => Text.spanDigits rest
    | _ => ([], rest)
  ["inf", "infinity", "nan"].contains (String.ofList (cs.map Char.toLower)) ||
    !(whole.isEmpty && fraction.isEmpty) && isExponent rest

/-- Whether a field may have a value. Truth values and numbers are compared, anything else has to be
a pattern; but a number that starts with a plus sign is the only one that is no pattern as well. -/
def isValue (cs : List Char) : Bool :=
  match cs with
  | '+' :: rest => isNumber rest
  | _ => Pattern.isValid cs

/-- Whether a text is a field, perhaps with a value behind an equals sign. What lies behind a second
equals sign does not count. -/
def isField (cs : List Char) : Bool :=
  !cs.isEmpty &&
    match cs.dropWhile (· ≠ '=') with
    | [] => true
    | _ :: rest => isValue (rest.takeWhile (· ≠ '='))

/-- What of a directive is being read, and the place where it starts. -/
inductive Place where
  | beginning
  | target
  | span (start : Nat)
  | field (start : Nat)
  | afterFields
  | afterSpan
  | level (start : Nat)
  deriving DecidableEq, Repr

/-- The piece of a text between two places, which count bytes. -/
def piece? (bytes : List UInt8) (start stop : Nat) : Option (List Char) :=
  (Utf8.decode? ((bytes.drop start).take (stop - start))).map String.toList

/-- Reads one more character, which lies at `here`, of a directive with the given bytes. -/
def Place.step (bytes : List UInt8) (here : Nat) (c : Char) : Place → Option Place
  | .beginning =>
    if c = '[' then some (.span (here + 1))
    else if "-:_".contains c || Text.isLetterOrNumber c then some .target
    else none
  | .target =>
    if c = '=' then (piece? bytes 0 here).map fun _ => .level (here + 1)
    else if c = '[' then (piece? bytes 0 here).map fun _ => .span (here + 1)
    else some .target
  | .span start =>
    if c = ']' then (piece? bytes start here).map fun _ => .afterSpan
    else if c = '\x7b' then (piece? bytes start here).map fun _ => .field (here + 1)
    else some (.span start)
  | .field start =>
    if c = '\x7d' then do
      if isField (← piece? bytes start here) then some .afterFields else none
    else some (.field start)
  | .afterFields => if c = ']' then some .afterSpan else none
  | .afterSpan => if c = '=' then some (.level (here + 1)) else none
  | .level start => some (.level start)

def Place.isEnd (bytes : List UInt8) : Place → Bool
  | .target => true
  | .afterSpan => true
  | .level start => (piece? bytes start bytes.length).any isLevel
  | _ => false

def Place.run (bytes : List UInt8) : Nat → Place → List Char → Bool
  | _, place, [] => place.isEnd bytes
  | here, place, c :: rest =>
    match place.step bytes here c with
    | none => false
    | some place => run bytes (here + c.utf8Size) place rest

def isDirective (cs : List Char) : Bool :=
  Place.run (Utf8.encode (.ofList cs)) 0 .beginning (Text.trimBlanks cs)

/-- The pieces of a text between commas. There is always at least one. -/
def pieces : List Char → List (List Char)
  | [] => [[]]
  | c :: rest =>
    if c = ',' then [] :: pieces rest
    else match pieces rest with
      | piece :: more => (c :: piece) :: more
      | [] => [[c]]

/-- Whether a text is a filter. Empty pieces do not count. -/
def isValid (text : String) : Bool :=
  (pieces text.toList).all fun piece => piece.isEmpty || isDirective piece

end ClipGraph.LogFilter
