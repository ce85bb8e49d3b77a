import FactoryIndex.Value.Basic

/-!
# Writing JSON

The text of a value on one line, in ASCII: every other character is written by its number, those beyond
the first plane as a surrogate pair, and half a pair that stands alone as what it is. An integer with more
than `digitLimit` digits cannot be written, no more than it can be read.
-/

namespace FactoryIndex.Value

def writeUnit (unit : Nat) : List Char := '\\' :: 'u' :: Text.hex 4 unit

def writeChar (c : Char) : List Char :=
  if c = '\x22' ∨ c = '\\' then ['\\', c]
  else if c = '\n' then ['\\', 'n']
  else if c = '\r' then ['\\', 'r']
  else if c = '\t' then ['\\', 't']
  else if c = '\x08' then ['\\', 'b']
  else if c = '\x0c' then ['\\', 'f']
  else if 0x20 ≤ c.toNat ∧ c.toNat < 0x7f then [c]
  else if c.toNat = 0x7f then [c]
  else if c.toNat < 0x10000 then writeUnit c.toNat
  else
    writeUnit (0xd800 + (c.toNat - 0x10000) / 1024) ++ writeUnit (0xdc00 + (c.toNat - 0x10000) % 1024)

def writePoint : Point → List Char
  | .char c => writeChar c
  | .half half => writeUnit half.code

def writeText (text : RawText) : String :=
  String.ofList ('\x22' :: text.points.flatMap writePoint ++ ['\x22'])

def writeDouble : Double → String
  | .nan => "NaN"
  | .infinite negative => if negative then "-Infinity" else "Infinity"
  | d => d.toText

mutual

def write : Value → String
  | .null => "null"
  | .bool b => if b then "true" else "false"
  | .int n => toString n
  | .double d => writeDouble d
  | .raw t => writeText t
  | .list items => "[" ++ writeItems items ++ "]"
  | .object fields => "\x7b" ++ writeFields fields ++ "\x7d"

def writeItems : List Value → String
  | [] => ""
  | [item] => item.write
  | item :: rest => item.write ++ ", " ++ writeItems rest

def writeFields : Fields → String
  | [] => ""
  | [(name, value)] => writeText name ++ ": " ++ value.write
  | (name, value) :: rest => writeText name ++ ": " ++ value.write ++ ", " ++ writeFields rest

end

mutual

/-- Whether no integer of a value has more digits than can be written. -/
def writable : Value → Bool
  | .int n => n.natAbs < 10 ^ digitLimit
  | .list items => writableItems items
  | .object fields => writableFields fields
  | _ => true

def writableItems : List Value → Bool
  | [] => true
  | item :: rest => item.writable && writableItems rest

def writableFields : Fields → Bool
  | [] => true
  | (_, value) :: rest => value.writable && writableFields rest

end

end FactoryIndex.Value
