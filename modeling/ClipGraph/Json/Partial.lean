import ClipGraph.Json.Token

/-!
# JSON documents as far as they can be read

A text that stops being JSON part-way still says something up to that point, and a reader that works
in the order of the text reports whichever comes first, a wrong value or the break. So reading never
fails: it comes to a tree in which the place of the break is marked. Tokens are taken one at a time,
with the containers under way in a list, innermost first.
-/

namespace ClipGraph.Json

/-- A document as far as it can be read. A key or a string is `none` if its escapes name half of a
surrogate pair. -/
inductive Partial where
  | null
  | bool (b : Bool)
  | number (n : Number)
  | string (s : Option String)
  | array (items : List Partial)
  | object (members : List (Option String × Partial))
  /-- Here the text stops being JSON. -/
  | broken
  deriving Repr, Inhabited

namespace Partial

mutual

/-- Whether there is no break in a tree. -/
def isWhole : Partial → Bool
  | .broken => false
  | .array items => allWhole items
  | .object members => allMembersWhole members
  | _ => true

def allWhole : List Partial → Bool
  | [] => true
  | v :: rest => isWhole v && allWhole rest

def allMembersWhole : List (Option String × Partial) → Bool
  | [] => true
  | (_, v) :: rest => isWhole v && allMembersWhole rest

end

mutual

/-- The value of a tree: there is one if the tree is whole, its containers are nested no deeper than
`depth`, and every string is text and every number finite. -/
def value? (depth : Nat) : Partial → Option Json
  | .null => some .null
  | .bool b => some (.bool b)
  | .number (.integer n) => some (.number (.integer n))
  | .number (.float x) => if x.isFinite then some (.number (.float x)) else none
  | .string s => s.map .string
  | .array items => if depth = 0 then none else (items? (depth - 1) items).map .array
  | .object members => if depth = 0 then none else (members? (depth - 1) members).map .object
  | .broken => none

def items? (depth : Nat) : List Partial → Option (List Json)
  | [] => some []
  | v :: rest => do
    let v ← value? depth v
    let rest ← items? depth rest
    return v :: rest

def members? (depth : Nat) : List (Option String × Partial) → Option (List (String × Json))
  | [] => some []
  | (key, v) :: rest => do
    let key ← key
    let v ← value? depth v
    let rest ← members? depth rest
    return (key, v) :: rest

end

end Partial

/-- A container under way, with what it holds so far, last one first. -/
inductive Frame where
  | array (items : List Partial)
  | object (members : List (Option String × Partial)) (key : Option String)
  deriving Repr, Inhabited

inductive Place where
  | value
  | firstItem
  | afterItem
  | firstKey
  | key
  | colon
  | afterMember
  deriving DecidableEq, Repr

/-- A document, and whether the text holds nothing else. -/
structure Document where
  root : Partial
  isAlone : Bool
  deriving Repr

inductive Reading where
  | under (place : Place) (frames : List Frame)
  | finished (document : Document)
  deriving Repr

namespace Reading

/-- A finished value, given to the container it lies in. -/
def put (v : Partial) : List Frame → Reading
  | [] => .finished ⟨v, true⟩
  | .array items :: rest => .under .afterItem (.array (v :: items) :: rest)
  | .object members key :: rest => .under .afterMember (.object ((key, v) :: members) none :: rest)

/-- The tree of unfinished containers around a value. -/
def close (v : Partial) : List Frame → Partial
  | [] => v
  | .array items :: rest => close (.array (v :: items).reverse) rest
  | .object members key :: rest => close (.object ((key, v) :: members).reverse) rest

/-- What a text comes to that breaks off at a place. A key that has been read still counts. -/
def breakOff (place : Place) (frames : List Frame) : Document :=
  let frames := match place, frames with
    | .colon, _ | .value, _ => frames
    | _, .object members _ :: rest => .object members none :: rest
    | _, _ => frames
  ⟨close .broken frames, false⟩

def takeValue (place : Place) (frames : List Frame) (token : Token) : Reading :=
  match token with
  | .null => put .null frames
  | .bool b => put (.bool b) frames
  | .number n => put (.number n) frames
  | .string s => put (.string s) frames
  | .arrayOpen => .under .firstItem (.array [] :: frames)
  | .objectOpen => .under .firstKey (.object [] none :: frames)
  | _ => .finished (breakOff place frames)

def take (reading : Reading) (token : Token) : Reading :=
  match reading with
  | .finished document => .finished { document with isAlone := false }
  | .under place frames =>
    match place, token, frames with
    | .value, _, _ => takeValue place frames token
    | .firstItem, .arrayClose, .array items :: rest => put (.array items.reverse) rest
    | .firstItem, _, _ => takeValue place frames token
    | .afterItem, .comma, _ => .under .value frames
    | .afterItem, .arrayClose, .array items :: rest => put (.array items.reverse) rest
    | .firstKey, .objectClose, .object members _ :: rest => put (.object members.reverse) rest
    | .firstKey, .string key, .object members _ :: rest
    | .key, .string key, .object members _ :: rest =>
      .under .colon (.object members key :: rest)
    | .colon, .colon, _ => .under .value frames
    | .afterMember, .comma, _ => .under .key frames
    | .afterMember, .objectClose, .object members _ :: rest => put (.object members.reverse) rest
    | _, _, _ => .finished (breakOff place frames)

def stop : Reading → Document
  | .finished document => document
  | .under place frames => breakOff place frames

end Reading

def Document.ofText (cs : List Char) : Document :=
  ((Token.ofText cs).foldl Reading.take (.under .value [])).stop

end ClipGraph.Json
