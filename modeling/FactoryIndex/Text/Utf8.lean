/-!
# Decoding files

Files are read as UTF-8. Bytes that do not belong to a character are not an error: each longest run of
bytes that could have begun a character becomes one replacement character. After that every line end,
however it is written, is a single newline.
-/

namespace FactoryIndex.Text

/-- The character that stands for undecodable bytes. -/
def replacement : Char := '\ufffd'

/-- A character of several bytes under way: how many bytes are missing, the bounds of the next one, and
the bits read so far. -/
structure Partial where
  missing : Nat
  low : Nat
  high : Nat
  bits : Nat
  deriving Repr, DecidableEq

/-- What a byte begins. -/
inductive ByteStart where
  | character (c : Char)
  | sequence (state : Partial)
  | invalid
  deriving Repr, DecidableEq

/-- What a byte begins between two characters. The bounds of the second byte exclude forms that are
longer than needed, surrogates, and numbers beyond the last character. -/
def byteStart (byte : Nat) : ByteStart :=
  if byte < 0x80 then .character (Char.ofNat byte)
  else if byte < 0xc2 then .invalid
  else if byte < 0xe0 then .sequence ⟨1, 0x80, 0xbf, byte - 0xc0⟩
  else if byte < 0xf0 then
    .sequence ⟨2, if byte = 0xe0 then 0xa0 else 0x80, if byte = 0xed then 0x9f else 0xbf, byte - 0xe0⟩
  else if byte < 0xf5 then
    .sequence ⟨3, if byte = 0xf0 then 0x90 else 0x80, if byte = 0xf4 then 0x8f else 0xbf, byte - 0xf0⟩
  else .invalid

/-- The characters of the remaining bytes, possibly with a character under way. -/
def decodeBytes : Option Partial → List UInt8 → List Char
  | none, [] => []
  | some _, [] => [replacement]
  | none, byte :: rest =>
    match byteStart byte.toNat with
    | .character c => c :: decodeBytes none rest
    | .sequence state => decodeBytes (some state) rest
    | .invalid => replacement :: decodeBytes none rest
  | some state, byte :: rest =>
    if state.low ≤ byte.toNat ∧ byte.toNat ≤ state.high then
      let bits := 64 * state.bits + (byte.toNat - 0x80)
      if state.missing ≤ 1 then Char.ofNat bits :: decodeBytes none rest
      else decodeBytes (some ⟨state.missing - 1, 0x80, 0xbf, bits⟩) rest
    else
      match byteStart byte.toNat with
      | .character c => replacement :: c :: decodeBytes none rest
      | .sequence next => replacement :: decodeBytes (some next) rest
      | .invalid => replacement :: replacement :: decodeBytes none rest

/-- Every line end as a single newline. -/
def plainNewlines : List Char → List Char
  | [] => []
  | '\r' :: '\n' :: rest => '\n' :: plainNewlines rest
  | c :: rest => (if c = '\r' then '\n' else c) :: plainNewlines rest

/-- The text of a file with the given bytes. -/
def ofBytes (bytes : List UInt8) : List Char := plainNewlines (decodeBytes none bytes)

end FactoryIndex.Text
