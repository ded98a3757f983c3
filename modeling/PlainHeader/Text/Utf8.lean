import PlainHeader.Text.Basic

/-!
# UTF-8

A reader of UTF-8 that goes forward one byte at a time. Between two bytes it knows the
sequence it is in: the bits so far, the range in which the next byte must lie, and how
many bytes follow that one. The ranges leave out overlong forms, surrogates and values
above U+10FFFF. `decode?` refuses a file at the first byte that does not fit;
`decodeLossy` writes one replacement character for each longest start of a sequence that
breaks off, and reads the byte that broke it afresh.
-/

namespace PlainHeader.Utf8

/-- A sequence that has begun and is not complete. -/
structure Begun where
  /-- The payload bits read so far. -/
  value : Nat
  /-- The least next byte that continues the sequence. -/
  low : UInt8
  /-- The greatest next byte that continues the sequence. -/
  high : UInt8
  /-- How many bytes follow the next one. -/
  after : Nat

/-- What a byte does to the text. -/
inductive Effect
  /-- It completes a character. -/
  | char (c : Char)
  /-- It begins or continues a sequence. -/
  | more (begun : Begun)
  /-- It cannot stand here. -/
  | misfit

/-- A byte at the start of a character. -/
def first (b : UInt8) : Effect :=
  if b < 0x80 then .char (Char.ofNat b.toNat)
  else if b < 0xC2 then .misfit
  else if b < 0xE0 then .more ⟨b.toNat - 0xC0, 0x80, 0xBF, 0⟩
  else if b < 0xF0 then
    .more ⟨b.toNat - 0xE0, if b = 0xE0 then 0xA0 else 0x80, if b = 0xED then 0x9F else 0xBF, 1⟩
  else if b < 0xF5 then
    .more ⟨b.toNat - 0xF0, if b = 0xF0 then 0x90 else 0x80, if b = 0xF4 then 0x8F else 0xBF, 2⟩
  else .misfit

/-- A byte inside a sequence. -/
def next (begun : Begun) (b : UInt8) : Effect :=
  if begun.low ≤ b ∧ b ≤ begun.high then
    let value := begun.value * 64 + (b.toNat - 0x80)
    match begun.after with
    | 0 => .char (Char.ofNat value)
    | after + 1 => .more ⟨value, 0x80, 0xBF, after⟩
  else .misfit

def effect : Option Begun → UInt8 → Effect
  | none, b => first b
  | some begun, b => next begun b

/-- The text of the remaining bytes, or nothing when one of them does not fit. -/
def decodeFrom : Option Begun → Bytes → Option Text
  | none, [] => some []
  | some _, [] => none
  | state, b :: rest =>
    match effect state b with
    | .char c => (decodeFrom none rest).map (c :: ·)
    | .more begun => decodeFrom (some begun) rest
    | .misfit => none

/-- The text of the bytes, if they are UTF-8. -/
def decode? (bytes : Bytes) : Option Text := decodeFrom none bytes

/-- Stands for bytes that are no part of a character. -/
def replacement : Char := '\uFFFD'

/-- The text that a byte adds at the start of a character, and the state after it. -/
def restart (b : UInt8) : Text × Option Begun :=
  match first b with
  | .char c => ([c], none)
  | .more begun => ([], some begun)
  | .misfit => ([replacement], none)

/-- The text that a byte adds, and the state after it. -/
def advance : Option Begun → UInt8 → Text × Option Begun
  | none, b => restart b
  | some begun, b =>
    match next begun b with
    | .char c => ([c], none)
    | .more begun => ([], some begun)
    | .misfit => (replacement :: (restart b).1, (restart b).2)

/-- The text of the remaining bytes, with replacement characters. -/
def decodeLossyFrom : Option Begun → Bytes → Text
  | none, [] => []
  | some _, [] => [replacement]
  | state, b :: rest => (advance state b).1 ++ decodeLossyFrom (advance state b).2 rest

/-- The text of any bytes: what is not UTF-8 becomes replacement characters. -/
def decodeLossy (bytes : Bytes) : Text := decodeLossyFrom none bytes

def encode (text : Text) : Bytes := text.flatMap String.utf8EncodeChar

@[simp] theorem encode_nil : encode [] = [] := rfl

@[simp] theorem encode_cons (c : Char) (text : Text) :
    encode (c :: text) = String.utf8EncodeChar c ++ encode text := rfl

@[simp] theorem encode_append (front rest : Text) : encode (front ++ rest) = encode front ++ encode rest := by
  simp [encode]

end PlainHeader.Utf8
