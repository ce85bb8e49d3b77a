import FactoryIndex.Pattern.Scan

/-!
# Tokens that open and close blocks

The tokens that the block scanner keeps its depth by. A keyword such as `if` opens a block at the start
of a line or right behind an equals sign; elsewhere it is a modifier, which closes nothing and is not
counted. `do` and `end` count unless they are part of a longer word, a symbol, a call or a label.
-/

namespace FactoryIndex.Pattern

open Text

inductive BlockToken where
  | keyword
  | openDo
  | closeEnd
  | openBrace
  | closeBrace
  deriving Repr, DecidableEq

/-- A token inside its occurrence, which for a keyword also takes in the blanks before it. -/
structure BlockTokenParts where
  token : BlockToken
  start : Nat
  length : Nat
  deriving Repr, DecidableEq

def blockKeywords : List (List Char) := [
  ['c', 'l', 'a', 's', 's'], ['m', 'o', 'd', 'u', 'l', 'e'], ['d', 'e', 'f'], ['i', 'f'],
  ['u', 'n', 'l', 'e', 's', 's'], ['c', 'a', 's', 'e'], ['w', 'h', 'i', 'l', 'e'],
  ['u', 'n', 't', 'i', 'l'], ['b', 'e', 'g', 'i', 'n']
]

/-- A word at the start of the text that is complete there and is not a label. -/
def bareWord? (word text : List Char) : Option Nat :=
  match after? word text with
  | some rest => if closesWord rest && rest.head? != some ':' then some word.length else none
  | none => none

/-- A block keyword after spaces and tabs: its place and its length. -/
def blockKeyword? (text : List Char) : Option (Nat × Nat) :=
  (blockKeywords.findSome? fun word => bareWord? word (text.dropWhile isIndent)).map fun length =>
    ((text.takeWhile isIndent).length, length)

def opensLine (before : Option Char) : Bool := before.all (· == '\n')

/-- A place where a bare `do` or `end` is a token: not inside a word, a method call or a symbol. -/
def opensToken (before : Option Char) : Bool :=
  !before.any fun c => c == '.' || c == ':' || isWordChar c

/-- A keyword token at the given place, either at the start of a line or behind an equals sign. -/
def keywordToken? (before : Option Char) (text : List Char) : Option (Hit BlockTokenParts) :=
  let atLineStart := if opensLine before then blockKeyword? text else none
  let behindEquals := match text with
    | '=' :: rest => (blockKeyword? rest).map fun (start, length) => (start + 1, length)
    | _ => none
  (atLineStart.or behindEquals).map fun (start, length) => ⟨start + length, ⟨.keyword, start, length⟩⟩

/-- A token other than a keyword at the given place: a bare `do` or `end`, or a brace. -/
def bareToken? : Recogniser BlockTokenParts := fun before text =>
  if opensToken before && (bareWord? ['d', 'o'] text).isSome then some ⟨2, ⟨.openDo, 0, 2⟩⟩
  else if opensToken before && (bareWord? ['e', 'n', 'd'] text).isSome then some ⟨3, ⟨.closeEnd, 0, 3⟩⟩
  else match text with
    | '{' :: _ => some ⟨1, ⟨.openBrace, 0, 1⟩⟩
    | '}' :: _ => some ⟨1, ⟨.closeBrace, 0, 1⟩⟩
    | _ => none

def blockToken? : Recogniser BlockTokenParts := fun before text =>
  match keywordToken? before text with
  | some hit => some hit
  | none => bareToken? before text

def blockTokens (text : List Char) : List (Found BlockTokenParts) := occurrences blockToken? text

end FactoryIndex.Pattern
