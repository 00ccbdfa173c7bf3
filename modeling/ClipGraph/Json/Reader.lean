import ClipGraph.Json.Fault
import ClipGraph.Json.Partial

/-!
# Reading values out of JSON documents

Readers go through a tree in the order of its text and stop at the first fault, be it a wrong value
or the place where the text breaks off. An object may hold members that nobody asks for, as long as
they are JSON; a member that is asked for must not stand there twice.
-/

namespace ClipGraph.Json

/-- How deep containers may be nested in a value that is read. -/
def depthLimit : Nat := 127

abbrev Reader (α : Type) := Partial → Except Fault α

namespace Reader

/-- What a value is. A value that cannot be read is malformed. -/
def found : Reader Found
  | .null => .ok .null
  | .bool b => .ok (.bool b)
  | .number (.integer n) => .ok (.number (.integer n))
  | .number (.float x) => if x.isFinite then .ok (.number (.float x)) else .error .malformed
  | .string (some s) => .ok (.string s)
  | .string none => .error .malformed
  | .array _ => .ok .sequence
  | .object _ => .ok .map
  | .broken => .error .malformed

def mismatch {α : Type} (wanted : String) : Reader α := fun v =>
  match found v with
  | .ok f => .error (.invalidType f wanted)
  | .error fault => .error fault

def word : Reader UInt32
  | .number (.integer n) =>
    if 0 ≤ n ∧ n < Nat.pow 2 32 then .ok (UInt32.ofNat n.toNat) else .error (.invalidValue n "u32")
  | v => mismatch "u32" v

def textOr (wanted : String) : Reader String
  | .string (some s) => .ok s
  | v => mismatch wanted v

def text : Reader String := textOr "a string"

def textOrNull : Reader (Option String)
  | .null => .ok none
  | v => (text v).map some

def listOf {α : Type} (item : Reader α) : Reader (List α)
  | .array items => items.mapM item
  | v => mismatch "a sequence" v

/-- Goes through the members of an object in order. `take` answers `none` for a key it does not
know; the value of such a key has to be JSON all the same. -/
def foldMembers {σ : Type} (take : σ → String → Partial → Except Fault (Option σ)) :
    σ → List (Option String × Partial) → Except Fault σ
  | state, [] => .ok state
  | _, (none, _) :: _ => .error .malformed
  | state, (some key, v) :: rest => do
    match ← take state key v with
    | some state => foldMembers take state rest
    | none => if v.isWhole then foldMembers take state rest else .error .malformed

/-- The value of a field that has not been met before. -/
def once {α : Type} (name : String) (old : Option α) (new : Except Fault α) :
    Except Fault (Option α) :=
  if old.isSome then .error (.duplicateField name) else new.map some

def require {α : Type} (name : String) (field : Option α) : Except Fault α :=
  match field with
  | some v => .ok v
  | none => .error (.missingField name)

/-- The number of elements as messages count them. -/
def elements (n : Nat) : String := if n = 1 then "1 element" else s!"{n} elements"

def tooShort {α : Type} (record : String) (fields length : Nat) : Except Fault α :=
  .error (.invalidLength length s!"struct {record} with {elements fields}")

/-- The fault of an array with too many items for a record. Only a record that was kept whole before
it is read has its items counted. -/
def tooLong {α : Type} (kept : Bool) (fields length : Nat) : Except Fault α :=
  .error (if kept then .invalidLength length s!"{elements fields} in sequence" else .malformed)

/-- A record of two fields: an object with both of them, or an array of the two. -/
def pair {α β : Type} (kept : Bool) (record first second : String) (readFirst : Reader α)
    (readSecond : Reader β) : Reader (α × β)
  | .object members => do
    let take (state : Option α × Option β) (key : String) (v : Partial) :
        Except Fault (Option (Option α × Option β)) :=
      if key = first then (once first state.1 (readFirst v)).map fun a => some (a, state.2)
      else if key = second then (once second state.2 (readSecond v)).map fun b => some (state.1, b)
      else .ok none
    let (a, b) ← foldMembers take (none, none) members
    return (← require first a, ← require second b)
  | .array [] => tooShort record 2 0
  | .array [a] => do
    let _ ← readFirst a
    tooShort record 2 1
  | .array (a :: b :: rest) => do
    let a ← readFirst a
    let b ← readSecond b
    if rest.isEmpty then return (a, b) else tooLong kept 2 (rest.length + 2)
  | v => mismatch s!"struct {record}" v

/-- One of several named values: its name, or an object whose only member is the name with `null`. -/
def choice {α : Type} (names : List (String × α)) : Reader α
  | .string (some s) => pick s
  | .object ((some key, v) :: rest) => do
    let chosen ← pick key
    match v with
    | .null => if rest.isEmpty then return chosen else .error .malformed
    | v => mismatch "unit" v
  | _ => .error .malformed
where
  pick (s : String) : Except Fault α :=
    match names.lookup s with
    | some chosen => .ok chosen
    | none => .error (.unknownVariant s (names.map Prod.fst))

/-- Reads a text that holds one value and nothing else. -/
def document {α : Type} (reader : Reader α) (text : String) : Except Fault α := do
  let document := Document.ofText text.toList
  let result ← reader document.root
  if document.isAlone then return result else .error .malformed

end Reader
end ClipGraph.Json
