import FactoryIndex.Pattern.Scan

/-!
# Headers of factory definitions

A factory definition is opened by `factory :name`. Its header may give a parent explicitly, as
`parent: :other` or `parent => :other`, anywhere on the line of the name; the header goes on to the
next line whenever a line of it ends in a comma. The first parent of the header counts. A header whose
name lacks its colon, or runs into a longer word, is not recognised.
-/

namespace FactoryIndex.Pattern

open Text

def factoryWord : List Char := ['f', 'a', 'c', 't', 'o', 'r', 'y']

def parentWord : List Char := ['p', 'a', 'r', 'e', 'n', 't']

/-- The parts of a factory header: the name defined, and the parent if the header gives one. -/
structure FactoryHeader where
  name : Symbol
  parent : Option Symbol
  deriving Repr, DecidableEq

/-- The text behind the colon or the arrow that follows the word `parent`, and the length of the mark
with the blanks before it. -/
def parentMark? : List Char → Option (Nat × List Char)
  | ':' :: rest => some (1, rest)
  | text =>
    (after? ['=', '>'] (text.dropWhile isBlank)).map fun rest =>
      ((text.takeWhile isBlank).length + 2, rest)

def parentClause? (before : Option Char) (text : List Char) : Option Symbol :=
  if opensWord before then
    match after? parentWord text with
    | some rest =>
      match parentMark? rest with
      | some (mark, rest) =>
        (blankSymbol? rest).map fun (symbol, _) => symbol.shift (parentWord.length + mark)
      | none => none
    | none => none
  else none

/-- The first parent clause of what is left of a header. `comma` tells whether the line so far ends in
a comma and blanks, in which case the header takes in the next line too. -/
def parentIn? : (offset : Nat) → (comma : Bool) → (before : Option Char) → List Char → Option Symbol
  | _, _, _, [] => none
  | offset, comma, before, c :: rest =>
    match parentClause? before (c :: rest) with
    | some symbol => some (symbol.shift offset)
    | none =>
      if c = '\n' then
        if comma then parentIn? (offset + 1) false (some c) rest else none
      else parentIn? (offset + 1) (c == ',' || (comma && isIndent c)) (some c) rest

/-- A factory header at the given place. It ends behind the parent's name, or behind its own name if
it has no parent. -/
def factoryHeader? : Recogniser FactoryHeader := fun before text =>
  match keywordSymbol? factoryWord before text with
  | some (name, rest) =>
    if closesWord rest then
      let parent := parentIn? name.stop false name.name.getLast? rest
      some ⟨(parent.getD name).stop, ⟨name, parent⟩⟩
    else none
  | none => none

def factoryHeaders (text : List Char) : List (Found FactoryHeader) := occurrences factoryHeader? text

end FactoryIndex.Pattern
