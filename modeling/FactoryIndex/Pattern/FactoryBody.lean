import FactoryIndex.Pattern.FactoryHeader

/-!
# Bodies of factory definitions, cut at the next header

The cheaper of the two ways to find what belongs to a factory. The body starts behind the first `do` on
the line of the header and runs to the first line that opens with `factory`, or to the `end` that closes
the text. Definitions that follow a nested factory are therefore counted to the nested one.
-/

namespace FactoryIndex.Pattern

open Text

def endWord : List Char := ['e', 'n', 'd']

/-- The text behind the first `do` of the current line, with the number of characters up to there. -/
def bodyStart? : (offset : Nat) → (before : Option Char) → List Char → Option (Nat × List Char)
  | _, _, [] => none
  | offset, before, c :: rest =>
    match doWord? before (c :: rest) with
    | some body => some (offset + 2, body)
    | none => if c = '\n' then none else bodyStart? (offset + 1) (some c) rest

/-- Whether a body ends where the given text starts: at a newline before a `factory` line, or before
an `end` with nothing but whitespace behind it. -/
def endsBody : List Char → Bool
  | '\n' :: rest =>
    let text := rest.dropWhile isBlank
    (after? factoryWord text).any closesWord || (after? endWord text).any (·.all isBlank)
  | _ => false

def bodyLength? : List Char → Option Nat
  | [] => none
  | c :: rest => if endsBody (c :: rest) then some 0 else (bodyLength? rest).map (· + 1)

/-- The parts of a factory with its body: the name, and where the body lies. -/
structure FactoryBody where
  name : Symbol
  start : Nat
  text : List Char
  deriving Repr, DecidableEq

def factoryBody? : Recogniser FactoryBody := fun before text =>
  match keywordSymbol? factoryWord before text with
  | some (name, rest) =>
    if closesWord rest then
      match bodyStart? name.stop name.name.getLast? rest with
      | some (start, body) =>
        (bodyLength? body).map fun length => ⟨start + length, ⟨name, start, body.take length⟩⟩
      | none => none
    else none
  | none => none

def factoryBodies (text : List Char) : List (Found FactoryBody) := occurrences factoryBody? text

end FactoryIndex.Pattern
