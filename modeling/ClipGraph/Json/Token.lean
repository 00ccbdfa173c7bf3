import ClipGraph.Json
import ClipGraph.Number.Scaling

/-!
# Tokens of a JSON text

The words of a text with the blanks between them left out. The first thing that is no word ends the
list with a bad token. A string whose escapes name half of a surrogate pair is still a word, but it
is no text.
-/

namespace ClipGraph.Json

inductive Token where
  | arrayOpen
  | arrayClose
  | objectOpen
  | objectClose
  | comma
  | colon
  | null
  | bool (b : Bool)
  | number (n : Number)
  | string (s : Option String)
  | bad
  deriving DecidableEq, Repr

namespace Token

open Text (spanDigits natOf length_spanDigits)

def isSpace (c : Char) : Bool := c == ' ' || c == '\t' || c == '\n' || c == '\r'

def hex4? (a b c d : Char) : Option Nat := do
  let a ← Text.hexValue? a
  let b ← Text.hexValue? b
  let c ← Text.hexValue? c
  let d ← Text.hexValue? d
  return ((a * 16 + b) * 16 + c) * 16 + d

def shortEscape? : Char → Option Char
  | '"' => some '"'
  | '\\' => some '\\'
  | '/' => some '/'
  | 'b' => some '\x08'
  | 'f' => some '\x0c'
  | 'n' => some '\n'
  | 'r' => some '\r'
  | 't' => some '\t'
  | _ => none

/-- Reads a string up to its closing quote: the code points in it, halves of pairs included, and
what follows. -/
def readString : List Char → Option (List Nat × List Char)
  | [] => none
  | '"' :: rest => some ([], rest)
  | '\\' :: 'u' :: a :: b :: c :: d :: rest => do
    let n ← hex4? a b c d
    let (s, after) ← readString rest
    return (n :: s, after)
  | '\\' :: e :: rest => do
    let c ← shortEscape? e
    let (s, after) ← readString rest
    return (c.toNat :: s, after)
  | c :: rest =>
    if c.toNat < 0x20 ∨ c = '\\' then none
    else do
      let (s, after) ← readString rest
      return (c.toNat :: s, after)

/-- The text of a list of code points. Two halves of a pair make one character, and a half on its
own makes none. -/
def joinPairs : List Nat → Option (List Char)
  | [] => some []
  | n :: rest =>
    if 0xd800 ≤ n ∧ n < 0xdc00 then
      match rest with
      | m :: rest =>
        if 0xdc00 ≤ m ∧ m < 0xe000 then
          (joinPairs rest).map (Char.ofNat (0x10000 + (n - 0xd800) * 0x400 + (m - 0xdc00)) :: ·)
        else none
      | [] => none
    else if 0xdc00 ≤ n ∧ n < 0xe000 then none
    else (joinPairs rest).map (Char.ofNat n :: ·)

/-- Reads the digits behind a point, if there is one. A point needs a digit behind it. -/
def readFraction : List Char → Option (Option (List Char) × List Char)
  | '.' :: rest =>
    match spanDigits rest with
    | ([], _) => none
    | (digits, after) => some (some digits, after)
  | cs => some (none, cs)

def readExponentSign : List Char → Bool × List Char
  | '+' :: rest => (false, rest)
  | '-' :: rest => (true, rest)
  | cs => (false, cs)

/-- Reads an exponent, if there is one. It needs a digit. -/
def readExponent : List Char → Option (Option Int × List Char)
  | [] => some (none, [])
  | c :: rest =>
    if c = 'e' ∨ c = 'E' then
      let (negative, cs) := readExponentSign rest
      match spanDigits cs with
      | ([], _) => none
      | (digits, after) =>
        some (some (if negative then -(natOf digits : Int) else natOf digits), after)
    else some (none, c :: rest)

/-- The integer of a text without point and exponent. What no word of 64 bits holds is none, and
neither is a negative zero. -/
def integer? (negative : Bool) (n : Nat) : Option Int :=
  if negative then if 0 < n ∧ n ≤ Nat.pow 2 63 then some (-n) else none
  else if n < Nat.pow 2 64 then some n else none

def readSign : List Char → Bool × List Char
  | '-' :: rest => (true, rest)
  | cs => (false, cs)

/-- Reads the digits before the point. There is at least one, and no needless zero in front. -/
def readWhole (cs : List Char) : Option (List Char × List Char) :=
  match spanDigits cs with
  | ([], _) => none
  | ('0' :: _ :: _, _) => none
  | (digits, after) => some (digits, after)

/-- The double made of a sign and the digits and exponent that its text shows. -/
def makeFloat (negative : Bool) (whole : List Char) (fraction : Option (List Char))
    (exponent : Option Int) : Binary64 :=
  .ofRank negative (Decimal.ofDigits whole (fraction.getD []) (exponent.getD 0)).scaledRank

/-- The number of a text. A point or an exponent makes it a double, and so does its size. -/
def makeNumber (negative : Bool) (whole : List Char) (fraction : Option (List Char))
    (exponent : Option Int) : Number :=
  if fraction.isSome || exponent.isSome then .float (makeFloat negative whole fraction exponent)
  else match integer? negative (natOf whole) with
    | some n => .integer n
    | none => .float (makeFloat negative whole fraction exponent)

def readNumber (cs : List Char) : Option (Number × List Char) := do
  let (negative, cs) := readSign cs
  let (whole, cs) ← readWhole cs
  let (fraction, cs) ← readFraction cs
  let (exponent, cs) ← readExponent cs
  return (makeNumber negative whole fraction exponent, cs)

/-- Reads one token at the front of a text that does not start with a blank. -/
def read? : List Char → Option (Token × List Char)
  | '[' :: rest => some (.arrayOpen, rest)
  | ']' :: rest => some (.arrayClose, rest)
  | '\x7b' :: rest => some (.objectOpen, rest)
  | '\x7d' :: rest => some (.objectClose, rest)
  | ',' :: rest => some (.comma, rest)
  | ':' :: rest => some (.colon, rest)
  | 'n' :: 'u' :: 'l' :: 'l' :: rest => some (.null, rest)
  | 't' :: 'r' :: 'u' :: 'e' :: rest => some (.bool true, rest)
  | 'f' :: 'a' :: 'l' :: 's' :: 'e' :: rest => some (.bool false, rest)
  | '"' :: rest => (readString rest).map fun (s, after) => (.string ((joinPairs s).map .ofList), after)
  | cs => (readNumber cs).map fun (n, after) => (.number n, after)

theorem length_readString {cs after : List Char} {s : List Nat}
    (h : readString cs = some (s, after)) : after.length < cs.length := by
  fun_induction readString cs generalizing s after with
  | case1 => simp at h
  | case2 rest => simp_all
  | case3 a b c d rest ih =>
    simp only [Option.bind_eq_bind, Option.bind_eq_some_iff, Option.pure_def, Option.some.injEq,
      Prod.mk.injEq] at h
    obtain ⟨_, _, ⟨s', after'⟩, hr, _, rfl⟩ := h
    have := ih hr
    simp only [List.length_cons]
    omega
  | case4 e rest _ ih =>
    simp only [Option.bind_eq_bind, Option.bind_eq_some_iff, Option.pure_def, Option.some.injEq,
      Prod.mk.injEq] at h
    obtain ⟨_, _, ⟨s', after'⟩, hr, _, rfl⟩ := h
    have := ih hr
    simp only [List.length_cons]
    omega
  | case5 => simp at h
  | case6 c rest _ _ _ _ ih =>
    simp only [Option.bind_eq_bind, Option.bind_eq_some_iff, Option.pure_def, Option.some.injEq,
      Prod.mk.injEq] at h
    obtain ⟨⟨s', after'⟩, hr, _, rfl⟩ := h
    have := ih hr
    simp only [List.length_cons]
    omega

theorem length_readFraction {cs after : List Char} {f : Option (List Char)}
    (h : readFraction cs = some (f, after)) : after.length ≤ cs.length := by
  unfold readFraction at h
  split at h
  · next rest =>
    have hl := length_spanDigits rest
    split at h
    · simp at h
    · next digits after' hs =>
      simp only [Option.some.injEq, Prod.mk.injEq] at h
      simp only [hs] at hl
      simp only [List.length_cons, ← h.2]
      omega
  · simp only [Option.some.injEq, Prod.mk.injEq] at h
    simp [h.2]

theorem length_readExponentSign (cs : List Char) : (readExponentSign cs).2.length ≤ cs.length := by
  unfold readExponentSign
  split <;> simp

theorem length_readExponent {cs after : List Char} {e : Option Int}
    (h : readExponent cs = some (e, after)) : after.length ≤ cs.length := by
  unfold readExponent at h
  split at h
  · simp_all
  · next c rest =>
    split at h
    · have hs := length_readExponentSign rest
      have hl := length_spanDigits (readExponentSign rest).2
      dsimp only at h
      split at h
      · simp at h
      · next digits after' hd =>
        simp only [Option.some.injEq, Prod.mk.injEq] at h
        simp only [hd] at hl
        simp only [List.length_cons, ← h.2]
        omega
    · simp only [Option.some.injEq, Prod.mk.injEq] at h
      simp [← h.2]

theorem length_readSign (cs : List Char) : (readSign cs).2.length ≤ cs.length := by
  unfold readSign
  split <;> simp

theorem length_readWhole {cs digits after : List Char} (h : readWhole cs = some (digits, after)) :
    after.length < cs.length := by
  have hl := length_spanDigits cs
  unfold readWhole at h
  split at h
  · simp at h
  · simp at h
  · next digits' after' hne _ hs =>
    simp only [Option.some.injEq, Prod.mk.injEq] at h
    have hpos : 0 < digits'.length := List.length_pos_iff.2 fun h0 => hne h0
    simp only [hs] at hl
    rw [← h.2]
    omega

theorem length_readNumber {cs after : List Char} {n : Number}
    (h : readNumber cs = some (n, after)) : after.length < cs.length := by
  simp only [readNumber, Option.bind_eq_bind, Option.bind_eq_some_iff, Prod.exists, Option.pure_def,
    Option.some.injEq, Prod.mk.injEq] at h
  obtain ⟨_, _, hw, _, _, hf, _, _, he, _, rfl⟩ := h
  have := length_readSign cs
  have := length_readWhole hw
  have := length_readFraction hf
  have := length_readExponent he
  omega

/-- Every token takes at least one character. -/
theorem length_read? {cs after : List Char} {t : Token} (h : read? cs = some (t, after)) :
    after.length < cs.length := by
  unfold read? at h
  split at h
  case h_10 rest =>
    obtain ⟨⟨s, after'⟩, hs, he⟩ := Option.map_eq_some_iff.1 h
    have := length_readString hs
    simp only [Prod.mk.injEq] at he
    simp only [List.length_cons, ← he.2]
    omega
  case h_11 =>
    obtain ⟨⟨n, after'⟩, hn, he⟩ := Option.map_eq_some_iff.1 h
    have := length_readNumber hn
    simp only [Prod.mk.injEq] at he
    simpa only [← he.2] using this
  all_goals
    simp only [Option.some.injEq, Prod.mk.injEq] at h
    simp only [List.length_cons, ← h.2]
    omega

def ofText (cs : List Char) : List Token :=
  match cs with
  | [] => []
  | c :: rest =>
    if isSpace c then ofText rest
    else match _h : read? (c :: rest) with
      | none => [.bad]
      | some (token, after) => token :: ofText after
termination_by cs.length
decreasing_by
  · simp
  · exact length_read? _h

end Token
end ClipGraph.Json
