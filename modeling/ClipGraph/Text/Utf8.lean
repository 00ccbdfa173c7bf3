/-!
# Reading bytes as text

Bytes are read one at a time. Between characters a byte either is a character, or opens a sequence
that owes one to three more bytes, or is refused. A sequence that meets a byte it cannot hold is
given up, and that byte is read afresh. Each sequence given up counts once, so damaged text shows
one mark for every longest piece that could still have become a character.
-/

namespace ClipGraph.Utf8

/-- An open sequence: how many bytes it still owes, the range of the next one, and the bits so far. -/
structure Pending where
  owed : Nat
  low : Nat
  high : Nat
  bits : Nat
  deriving DecidableEq, Repr

inductive Lead where
  | character (c : Char)
  | opens (p : Pending)
  | refused
  deriving DecidableEq, Repr

/-- The ranges of the second byte keep out long spellings, surrogates and numbers past the last
code point. -/
def lead (byte : UInt8) : Lead :=
  let b := byte.toNat
  if b < 0x80 then .character (Char.ofNat b)
  else if b < 0xc2 then .refused
  else if b < 0xe0 then .opens ⟨1, 0x80, 0xbf, b - 0xc0⟩
  else if b = 0xe0 then .opens ⟨2, 0xa0, 0xbf, 0⟩
  else if b = 0xed then .opens ⟨2, 0x80, 0x9f, 0xd⟩
  else if b < 0xf0 then .opens ⟨2, 0x80, 0xbf, b - 0xe0⟩
  else if b = 0xf0 then .opens ⟨3, 0x90, 0xbf, 0⟩
  else if b < 0xf4 then .opens ⟨3, 0x80, 0xbf, b - 0xf0⟩
  else if b = 0xf4 then .opens ⟨3, 0x80, 0x8f, 4⟩
  else .refused

/-- The characters of a byte sequence, and `none` for every sequence given up. -/
def decodeFrom : Option Pending → List UInt8 → List (Option Char)
  | none, [] => []
  | some _, [] => [none]
  | pending, byte :: rest =>
    let afresh := match lead byte with
      | .character c => some c :: decodeFrom none rest
      | .opens p => decodeFrom (some p) rest
      | .refused => none :: decodeFrom none rest
    match pending with
    | none => afresh
    | some p =>
      let b := byte.toNat
      if p.low ≤ b ∧ b ≤ p.high then
        let bits := p.bits * 64 + (b - 0x80)
        if p.owed = 1 then some (Char.ofNat bits) :: decodeFrom none rest
        else decodeFrom (some ⟨p.owed - 1, 0x80, 0xbf, bits⟩) rest
      else none :: afresh

/-- The text of a byte sequence with a replacement mark for whatever is no character. -/
def decodeLossy (bytes : List UInt8) : String :=
  .ofList ((decodeFrom none bytes).map (·.getD '\uFFFD'))

def decode? (bytes : List UInt8) : Option String := String.fromUTF8? ⟨bytes.toArray⟩

def encode (s : String) : List UInt8 := s.toUTF8.data.toList

/-- A text is read back from its bytes. -/
@[simp] theorem decode?_encode (s : String) : decode? (encode s) = some s := by
  have bytes : (⟨(encode s).toArray⟩ : ByteArray) = s.toByteArray := by simp [encode]
  rw [decode?, bytes, String.fromUTF8?, dif_pos s.isValidUTF8]
  rfl

end ClipGraph.Utf8
