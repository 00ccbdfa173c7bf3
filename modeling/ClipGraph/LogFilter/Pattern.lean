import ClipGraph.Text.Classes

/-!
# Patterns in log filters

A filter can ask for the values that match a regular expression, and here it is only decided which
texts are one. The automaton that runs a pattern works on bytes and has no tables of characters. So
where characters count, which is everywhere but in groups that say otherwise, there are no classes
of digits, blanks and word characters, no edges of words and no matching regardless of case; and
where bytes count, a pattern must not match half a character. A closing brace ends the pattern in
its filter, so nothing that needs one can be written.
-/

namespace ClipGraph.LogFilter.Pattern

/-- What the switches of a group can change about its reading. -/
structure Mode where
  anyCase : Bool
  /-- Characters count, and not bytes. -/
  unicode : Bool
  /-- Blanks mean nothing, and a hash sign hides the rest of its line. -/
  spaced : Bool
  deriving DecidableEq, Repr

namespace Mode

def standard : Mode := ⟨false, true, false⟩

def switch (m : Mode) (letter : Char) (on : Bool) : Mode :=
  match letter with
  | 'i' => { m with anyCase := on }
  | 'u' => { m with unicode := on }
  | 'x' => { m with spaced := on }
  | _ => m

/-- The text behind blanks and hidden lines. -/
def dropSpace : Bool → List Char → List Char
  | _, [] => []
  | true, c :: rest => dropSpace (c ≠ '\n') rest
  | false, c :: rest =>
    if Text.isBlank c then dropSpace false rest
    else if c = '#' then dropSpace true rest
    else c :: rest

/-- The text from the next character that means something. -/
def skip (m : Mode) (cs : List Char) : List Char := if m.spaced then dropSpace false cs else cs

/-- Whether single characters and classes can be matched at all. -/
def matchesCase (m : Mode) : Bool := !(m.unicode && m.anyCase)

end Mode

/-- What a backslash and the characters behind it stand for. -/
inductive Atom where
  | char (code : Nat) (isByte : Bool)
  | named (negated : Bool)
  | edge (ofWord : Bool)
  deriving DecidableEq, Repr

namespace Atom

def stands (m : Mode) : Atom → Bool
  | .char code isByte => if m.unicode then !m.anyCase else !(isByte && 0x80 ≤ code)
  | .named negated => !m.unicode && !negated
  | .edge ofWord => !(m.unicode && ofWord)

def isMember (m : Mode) : Atom → Bool
  | .char code _ => m.unicode || code < 0x80
  | .named negated => !m.unicode && !negated
  | .edge _ => false

end Atom

def readHex? (m : Mode) : Nat → Nat → List Char → Option (Nat × List Char)
  | 0, code, cs => some (code, cs)
  | more + 1, code, cs =>
    match m.skip cs with
    | [] => none
    | c :: rest => do readHex? m more (16 * code + (← Text.hexValue? c)) rest

/-- Reads what stands behind a backslash. Any ASCII sign stands for itself. -/
def readEscape? (m : Mode) : List Char → Option (Atom × List Char)
  | [] => none
  | c :: rest =>
    let digits := match c with
      | 'x' => 2
      | 'u' => 4
      | 'U' => 8
      | _ => 0
    if digits ≠ 0 then do
      let (code, rest) ← readHex? m digits 0 rest
      if code.isValidChar then some (.char code (c = 'x'), rest) else none
    else if "dsw".contains c then some (.named false, rest)
    else if "DSW".contains c then some (.named true, rest)
    else if "Az".contains c then some (.edge false, rest)
    else if "bB<>".contains c then some (.edge true, rest)
    else if "aftnrv".contains c || c.toNat < 0x80 && !c.isAlphanum then
      some (.char c.toNat false, rest)
    else none

/-! ## Classes -/

def classNames : List String :=
  ["alnum", "alpha", "ascii", "blank", "cntrl", "digit", "graph", "lower", "print", "punct",
    "space", "upper", "word", "xdigit"]

/-- A named class behind its opening bracket: whether it is negated, and what follows it. -/
def readNamedClass? : List Char → Option (Bool × List Char)
  | ':' :: cs =>
    let (negated, cs) := match cs with
      | '^' :: rest => (true, rest)
      | _ => (false, cs)
    match cs.dropWhile (· ≠ ':') with
    | ':' :: ']' :: rest =>
      if classNames.contains (.ofList (cs.takeWhile (· ≠ ':'))) then some (negated, rest) else none
    | _ => none
  | _ => none

def dropHyphens (m : Mode) : List Char → List Char
  | '-' :: rest => m.skip (dropHyphens m rest)
  | cs => cs

/-- Reads the beginning of a class, where a caret, hyphens and a closing bracket are special. -/
def openClass? (m : Mode) (cs : List Char) : Option (List Char) := do
  let cs := m.skip cs
  let cs ← match cs with
    | '^' :: rest => if m.unicode then some (m.skip rest) else none
    | _ => some cs
  match cs with
  | ']' :: rest => some rest
  | _ => some (dropHyphens m cs)

def readMember? (m : Mode) : List Char → Option (Atom × List Char)
  | [] => none
  | '\\' :: rest => readEscape? m rest
  | c :: rest => some (.char c.toNat false, rest)

/-- Reads one member of a class, which is an atom or a range between two characters. -/
def readRange? (m : Mode) (cs : List Char) : Option (List Char) := do
  let (first, rest) ← readMember? m cs
  let single := if first.isMember m then some (m.skip rest) else none
  match m.skip rest with
  | '-' :: after =>
    match m.skip after with
    | ']' :: _ => single
    | '-' :: _ => single
    | after =>
      let (last, rest) ← readMember? m after
      match first, last with
      | .char a _, .char b _ =>
        if a ≤ b && first.isMember m && last.isMember m then some rest else none
      | _, _ => none
  | _ => single

/-- Reads classes to their ends; `depth` of them are open around the innermost. -/
def readClass? (m : Mode) : Nat → Nat → List Char → Option (List Char)
  | 0, _, _ => none
  | fuel + 1, depth, cs =>
    match m.skip cs with
    | [] => none
    | '[' :: rest =>
      match readNamedClass? rest with
      | some (negated, rest) =>
        if m.unicode || !negated then readClass? m fuel depth rest else none
      | none => do readClass? m fuel (depth + 1) (← openClass? m rest)
    | ']' :: rest => if depth = 0 then some rest else readClass? m fuel (depth - 1) rest
    | '&' :: '&' :: rest => readClass? m fuel depth rest
    | '-' :: '-' :: rest => readClass? m fuel depth rest
    | '~' :: '~' :: rest => readClass? m fuel depth rest
    | cs => do readClass? m fuel depth (← readRange? m cs)

/-! ## Groups -/

/-- Reads the switches of a group up to what ends them. `seen` holds those already read, last one
first; behind a hyphen they turn things off. The answer tells whether a group is open. -/
def readSwitches? (m : Mode) (seen : List Char) : List Char → Option (Mode × Bool × List Char)
  | [] => none
  | ':' :: rest => if seen.head? = some '-' then none else some (m, true, rest)
  | ')' :: rest => if seen = [] ∨ seen.head? = some '-' then none else some (m, false, rest)
  | c :: rest =>
    if seen.contains c then none
    else if "imsUuRx-".contains c then
      readSwitches? (m.switch c (!seen.contains '-')) (c :: seen) rest
    else none

def isGroupName : List Char → Bool
  | [] => false
  | c :: rest =>
    (c = '_' || Text.isLetter c) &&
      rest.all fun c => "_.[]".contains c || Text.isLetterOrNumber c

/-- How far a pattern has been read: the modes of the groups around, the names given, and whether
there is something that could be repeated. -/
structure Scan where
  mode : Mode
  outer : List Mode
  names : List (List Char)
  repeatable : Bool
  deriving Repr

namespace Scan

def enter (s : Scan) (mode : Mode) : Scan :=
  { s with mode, outer := s.mode :: s.outer, repeatable := false }

/-- Reads the name of a group, which no other may have. -/
def readName? (s : Scan) (cs : List Char) : Option (Scan × List Char) :=
  let name := cs.takeWhile (· ≠ '>')
  match cs.dropWhile (· ≠ '>') with
  | [] => none
  | _ :: rest =>
    if isGroupName name && !s.names.contains name then
      some ({ s.enter s.mode with names := name :: s.names }, rest)
    else none

def openGroup? (s : Scan) : List Char → Option (Scan × List Char)
  | '?' :: 'P' :: '<' :: rest => s.readName? rest
  | '?' :: '<' :: rest => s.readName? rest
  | '?' :: rest => do
    let (mode, isOpen, rest) ← readSwitches? s.mode [] rest
    return (if isOpen then s.enter mode else { s with mode, repeatable := false }, rest)
  | cs => some (s.enter s.mode, cs)

/-- Whether a text, with what has been read before it, is a pattern. -/
def completes : Nat → Scan → List Char → Bool
  | 0, _, _ => false
  | fuel + 1, s, cs =>
    let item := { s with repeatable := true }
    match s.mode.skip cs with
    | [] => s.outer.isEmpty
    | '(' :: rest =>
      match s.openGroup? (s.mode.skip rest) with
      | none => false
      | some (s, rest) => completes fuel s rest
    | ')' :: rest =>
      match s.outer with
      | [] => false
      | mode :: outer => completes fuel { item with mode, outer } rest
    | '|' :: rest => completes fuel { s with repeatable := false } rest
    | '?' :: rest => s.repeatable && completes fuel s rest
    | '*' :: rest => s.repeatable && completes fuel s rest
    | '+' :: rest => s.repeatable && completes fuel s rest
    | '{' :: _ => false
    | '[' :: rest =>
      match openClass? s.mode rest >>= readClass? s.mode (fuel + 1) 0 with
      | none => false
      | some rest => s.mode.matchesCase && completes fuel item rest
    | '\\' :: rest =>
      match readEscape? s.mode rest with
      | none => false
      | some (atom, rest) => atom.stands s.mode && completes fuel item rest
    | '^' :: rest => completes fuel item rest
    | '$' :: rest => completes fuel item rest
    | '.' :: rest => s.mode.unicode && completes fuel item rest
    | _ :: rest => s.mode.matchesCase && completes fuel item rest

end Scan

def isValid (cs : List Char) : Bool :=
  Scan.completes (cs.length + 1) ⟨.standard, [], [], false⟩ cs

end ClipGraph.LogFilter.Pattern
