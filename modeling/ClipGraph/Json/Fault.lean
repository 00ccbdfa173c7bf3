import ClipGraph.Json
import ClipGraph.Text.Shown

/-!
# Faults of JSON documents

What a reader finds wrong with a document. A wrong value is described by what was found and what was
wanted; every fault of syntax is the same one.
-/

namespace ClipGraph.Json

inductive Found where
  | null
  | bool (b : Bool)
  | number (n : Number)
  | string (s : String)
  | sequence
  | map
  deriving DecidableEq, Repr

def Found.text : Found → String
  | .null => "null"
  | .bool b => s!"boolean `{b}`"
  | .number (.integer n) => s!"integer `{n}`"
  | .number (.float x) => s!"floating point `{String.ofList (writeNumber (.float x))}`"
  | .string s => s!"string {Text.quoted s}"
  | .sequence => "sequence"
  | .map => "map"

inductive Fault where
  /-- The text is no JSON, or more of it than the reader takes. -/
  | malformed
  | missingField (name : String)
  | duplicateField (name : String)
  | unknownVariant (name : String) (known : List String)
  | invalidType (found : Found) (wanted : String)
  | invalidValue (n : Int) (wanted : String)
  | invalidLength (length : Nat) (wanted : String)
  /-- A value of no kind that a choice by kind allows. -/
  | noVariant (choice : String)
  /-- A path that is no text cannot be written. -/
  | pathNotText
  deriving DecidableEq, Repr

namespace Fault

def alternatives (names : List String) : String :=
  match names.map fun name => s!"`{name}`" with
  | [a] => a
  | [a, b] => s!"{a} or {b}"
  | all => "one of " ++ String.intercalate ", " all

def message : Fault → String
  | .malformed => "malformed JSON"
  | .missingField name => s!"missing field `{name}`"
  | .duplicateField name => s!"duplicate field `{name}`"
  | .unknownVariant name known => s!"unknown variant `{name}`, expected {alternatives known}"
  | .invalidType found wanted => s!"invalid type: {found.text}, expected {wanted}"
  | .invalidValue n wanted => s!"invalid value: integer `{n}`, expected {wanted}"
  | .invalidLength n wanted => s!"invalid length {n}, expected {wanted}"
  | .noVariant choice => s!"data did not match any variant of untagged enum {choice}"
  | .pathNotText => "path contains invalid UTF-8 characters"

end Fault
end ClipGraph.Json
