import FactoryIndex.Text.Split

/-!
# Scanning a text for a pattern

A pattern is a function that looks at one place of a text and says whether an occurrence starts there.
It sees the character just before the place, because most patterns must start at the beginning of a
word or of a line, and everything that follows. `occurrences` collects the occurrences from left to
right; the search goes on behind the end of each one, so no two of them overlap.

Lengths and places inside an occurrence count from the start of the occurrence, which makes a pattern
independent of where in the text it is used.
-/

namespace FactoryIndex.Pattern

open Text

/-- What a pattern says about an occurrence: how many characters it takes, and its parts. -/
structure Hit (α : Type) where
  length : Nat
  parts : α
  deriving Repr

/-- A test for an occurrence at one place, given the character before the place and the text from it. -/
abbrev Recogniser (α : Type) := (before : Option Char) → (text : List Char) → Option (Hit α)

/-- An occurrence of a pattern in a text. -/
structure Found (α : Type) where
  start : Nat
  length : Nat
  parts : α
  deriving Repr

def Found.stop {α : Type} (found : Found α) : Nat := found.start + found.length

/-- The occurrences in the rest of a text, the next `skip` characters of which belong to the
occurrence found last. -/
def occurrencesFrom {α : Type} (recognise : Recogniser α) :
    (skip offset : Nat) → (before : Option Char) → List Char → List (Found α)
  | _, _, _, [] => []
  | skip + 1, offset, _, c :: rest => occurrencesFrom recognise skip (offset + 1) (some c) rest
  | 0, offset, before, c :: rest =>
    match recognise before (c :: rest) with
    | some hit =>
      ⟨offset, hit.length, hit.parts⟩ ::
        occurrencesFrom recognise (hit.length - 1) (offset + 1) (some c) rest
    | none => occurrencesFrom recognise 0 (offset + 1) (some c) rest

/-- All occurrences of a pattern in a text, from left to right, none overlapping another. -/
def occurrences {α : Type} (recognise : Recogniser α) (text : List Char) : List (Found α) :=
  occurrencesFrom recognise 0 0 none text

/-! ### Words and names -/

/-- A place before which no word is under way, so that a word can begin there. -/
def opensWord (before : Option Char) : Bool := !before.any isWordChar

/-- A text that does not go on with the word before it. -/
def closesWord (text : List Char) : Bool := !text.head?.any isWordChar

/-- A name inside an occurrence, and where it starts there. -/
structure Symbol where
  start : Nat
  name : List Char
  deriving Repr, DecidableEq

def Symbol.stop (symbol : Symbol) : Nat := symbol.start + symbol.name.length

/-- The same symbol seen from `n` characters further left. -/
def Symbol.shift (n : Nat) (symbol : Symbol) : Symbol := ⟨n + symbol.start, symbol.name⟩

/-- A name that a text starts with, after a colon: the symbol and what follows it. -/
def symbol? : List Char → Option (Symbol × List Char)
  | ':' :: rest =>
    let name := rest.takeWhile isNameChar
    if name.isEmpty then none else some (⟨1, name⟩, rest.dropWhile isNameChar)
  | _ => none

/-- A symbol after any amount of whitespace. -/
def blankSymbol? (text : List Char) : Option (Symbol × List Char) :=
  (symbol? (text.dropWhile isBlank)).map fun (symbol, rest) =>
    (symbol.shift (text.takeWhile isBlank).length, rest)

/-- A keyword at the beginning of a word, then at least one blank and a symbol. -/
def keywordSymbol? (keyword : List Char) (before : Option Char) (text : List Char) :
    Option (Symbol × List Char) :=
  if opensWord before then
    match after? keyword text with
    | some rest =>
      if rest.head?.any isBlank then
        (blankSymbol? rest).map fun (symbol, rest) => (symbol.shift keyword.length, rest)
      else none
    | none => none
  else none

/-- The keyword `do`, standing as a word of its own. -/
def doWord? (before : Option Char) (text : List Char) : Option (List Char) :=
  if opensWord before then
    match after? ['d', 'o'] text with
    | some rest => if closesWord rest then some rest else none
    | none => none
  else none

end FactoryIndex.Pattern
