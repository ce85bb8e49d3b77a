import FactoryIndex.Text.Quoted
import FactoryIndex.Text.Split
import FactoryIndex.Text.Utf8

/-!
# Texts with lone halves

A text that comes from outside may name halves of surrogate pairs one by one, and a half that is not
followed by its other half stands for no character. Such a text is still a row of code points, which can
be compared, cut and quoted; but it is no string. A `RawText` is a string, or a string that is broken off
by a half, behind which another raw text follows. So every row of code points is exactly one raw text, and
a raw text without halves is a string.

The names of files are rows of bytes. A raw text names a file by the bytes of its characters; a half
between U+DC80 and U+DCFF stands for the byte of the same last two digits, and any other half for nothing,
so that a text that holds one names no file.
-/

namespace FactoryIndex

/-- Half of a surrogate pair, counted from U+D800. -/
structure Half where
  index : Fin 2048
  deriving Repr, DecidableEq

namespace Half

instance : Inhabited Half := ⟨⟨0⟩⟩

def code (half : Half) : Nat := 0xd800 + half.index.val

def ofCode? (code : Nat) : Option Half :=
  if h : 0xd800 ≤ code ∧ code < 0xe000 then some ⟨⟨code - 0xd800, by omega⟩⟩ else none

/-- The byte that a half stands for in the name of a file. -/
def byte? (half : Half) : Option UInt8 :=
  if 0xdc80 ≤ half.code ∧ half.code ≤ 0xdcff then some (half.code - 0xdc00).toUInt8 else none

end Half

/-- A code point: a character, or a half that stands alone. -/
inductive Point where
  | char (c : Char)
  | half (h : Half)
  deriving Repr, DecidableEq

namespace Point

instance : Coe Char Point := ⟨char⟩

def code : Point → Nat
  | char c => c.toNat
  | half h => h.code

/-- Whitespace, which no half is. -/
def isBlank : Point → Bool
  | char c => Text.isBlank c
  | half _ => false

def isHalf : Point → Bool
  | char _ => false
  | half _ => true

/-- Whether a code point has no bytes in the name of a file. -/
def isStray : Point → Bool
  | char _ => false
  | half h => h.byte?.isNone

/-- The character shown for a code point. -/
def shown : Point → Char
  | char c => c
  | half _ => Text.replacement

def foldCase : Point → Point
  | char c => char (Text.foldCase c)
  | half h => half h

def quoted (quote : Char) : Point → List Char
  | char c => Text.quotedChar quote c
  | half h => '\\' :: 'u' :: Text.hex 4 h.code

/-- The bytes of a code point in the name of a file. -/
def bytes : Point → List UInt8
  | char c => (String.singleton c).toUTF8.toList
  | half h => h.byte?.toList

end Point

/-- A text in which halves may stand alone. -/
inductive RawText where
  | plain (s : String)
  | broken (s : String) (half : Half) (rest : RawText)
  deriving Repr, DecidableEq

namespace RawText

instance : Coe String RawText := ⟨plain⟩

instance : Inhabited RawText := ⟨plain ""⟩

def points : RawText → List Point
  | plain s => s.toList.map .char
  | broken s half rest => s.toList.map .char ++ .half half :: rest.points

/-- The text of code points, the given characters, last one first, being in front of them. -/
def gather : (read : List Char) → List Point → RawText
  | read, [] => plain (String.ofList read.reverse)
  | read, .char c :: rest => gather (c :: read) rest
  | read, .half half :: rest => broken (String.ofList read.reverse) half (gather [] rest)

def ofPoints (points : List Point) : RawText := gather [] points

/-- The string that a text is, if no half stands in it. -/
def string? : RawText → Option String
  | plain s => some s
  | broken .. => none

def isEmpty : RawText → Bool
  | plain s => s.isEmpty
  | broken .. => false

def append : RawText → RawText → RawText
  | plain s, plain t => plain (s ++ t)
  | plain s, broken t half rest => broken (s ++ t) half rest
  | broken s half rest, other => broken s half (append rest other)

instance : Append RawText := ⟨append⟩

/-- The text as it can be shown: with the replacement character for every half. -/
def shown (text : RawText) : String :=
  match text with
  | plain s => s
  | broken .. => String.ofList (text.points.map Point.shown)

def quoted (text : RawText) : String :=
  let quote := Text.quoteFor (text.points.map Point.shown)
  String.ofList (quote :: text.points.flatMap (Point.quoted quote) ++ [quote])

def split (separator : Char) (text : RawText) : List RawText :=
  (Text.split (.char separator) text.points).map ofPoints

/-- The code points without whitespace at their end. -/
def trimmedRight (points : List Point) : List Point := (points.reverse.dropWhile Point.isBlank).reverse

def trim (text : RawText) : RawText := ofPoints (trimmedRight (text.points.dropWhile Point.isBlank))

def forwardSlashes : RawText → RawText
  | plain s => plain (Text.forwardSlashes s)
  | broken s half rest => broken (Text.forwardSlashes s) half rest.forwardSlashes

/-- The part of a text behind its last slash. -/
def baseName (text : RawText) : RawText :=
  ofPoints (text.points.reverse.takeWhile (· != .char '/')).reverse

/-- Whether one row of code points comes before another one, or is the same: the first difference decides. -/
def precedes : List Point → List Point → Bool
  | [], _ => true
  | _ :: _, [] => false
  | a :: as, b :: bs => decide (a.code < b.code) || (a.code == b.code && precedes as bs)

/-- The texts sorted by their code points. -/
def sorted (texts : List RawText) : List RawText := texts.mergeSort fun a b => precedes a.points b.points

/-- Whether a string stands somewhere in a text. A half never belongs to it. -/
def mentions (part : String) : RawText → Bool
  | plain s => Text.hasInfix part.toList s.toList
  | broken s _ rest => Text.hasInfix part.toList s.toList || rest.mentions part

/-! ### Names of files -/

/-- The bytes by which a text names a file. -/
def bytes (text : RawText) : List UInt8 := text.points.flatMap Point.bytes

/-- The number of these bytes. -/
def byteSize : RawText → Nat
  | plain s => s.utf8ByteSize
  | broken s half rest => s.utf8ByteSize + half.byte?.toList.length + rest.byteSize

/-- The text that a row of bytes is read as by whoever lists files: a text that names a file by bytes of
characters names the same file as these characters do. -/
def named (text : RawText) : RawText :=
  match text with
  | plain s => plain s
  | broken .. =>
    match String.fromUTF8? ⟨text.bytes.toArray⟩ with
    | some s => plain s
    | none => text

/-- The code points from the first one on that has no bytes, and how many stand before it. -/
def stray? : (before : Nat) → List Point → Option (Nat × List Point)
  | _, [] => none
  | before, point :: rest =>
    if point.isStray then some (before, point :: rest) else stray? (before + 1) rest

/-- Whether a text names no file because a half in it stands for no byte. -/
def unencodable (text : RawText) : Bool := text.points.any Point.isStray

/-- Why a text names no file: the place of the first half that stands for no byte is told, together with
all halves that follow it at once. -/
def encodingFault (text : RawText) : String :=
  match stray? 0 text.points with
  | some (start, point :: rest) =>
    let others := (rest.takeWhile Point.isHalf).length
    let what := if others = 0
      then "character '" ++ String.ofList (point.quoted '\x27') ++ "' in position " ++ toString start
      else "characters in position " ++ toString start ++ "-" ++ toString (start + others)
    "'utf-8' codec can't encode " ++ what ++ ": surrogates not allowed"
  | _ => ""

/-! ### Code points and texts -/

theorem gather_chars (read : List Char) (chars : List Char) (points : List Point) :
    gather read (chars.map .char ++ points) = gather (chars.reverse ++ read) points := by
  induction chars generalizing read with
  | nil => rfl
  | cons c rest ih => simp [gather, ih]

theorem ofPoints_points (text : RawText) : ofPoints text.points = text := by
  induction text with
  | plain s =>
    have h := gather_chars [] s.toList []
    simp only [List.append_nil] at h
    simp [ofPoints, points, h, gather]
  | broken s half rest ih =>
    have h := gather_chars [] s.toList (.half half :: rest.points)
    simp only [List.append_nil] at h
    simp only [ofPoints] at ih
    simp [ofPoints, points, h, gather, ih]

theorem points_gather (read : List Char) (points : List Point) :
    (gather read points).points = read.reverse.map .char ++ points := by
  induction points generalizing read with
  | nil => simp [gather, RawText.points]
  | cons point rest ih =>
    cases point with
    | char c => simp [gather, ih]
    | half h => simp [gather, RawText.points, ih]

theorem points_ofPoints (points : List Point) : (ofPoints points).points = points := by
  simp [ofPoints, points_gather]

end RawText

end FactoryIndex
