import FactoryIndex.Pattern.Scan

/-!
# Openers of here-documents

`<<~ID` and `<<-ID` take any identifier; a plain `<<ID` takes one in capitals only, since otherwise it
would be a shift or an append. The identifier may stand in quotes, the same on both sides. The text of
the document starts on the next line and ends with the line that holds only the identifier.
-/

namespace FactoryIndex.Pattern

open Text

/-- The parts of an opener: whether a `~` or a `-` is written, the quote if there is one, and the
identifier. -/
structure Heredoc where
  squiggly : Bool
  quote : Option Char
  terminator : Symbol
  deriving Repr, DecidableEq

def isHeredocQuote (c : Char) : Bool := c == '\x27' || c == '\x22' || c == '\x60'

/-- An identifier whose first character and whose further characters are as given. -/
def identifier? (first further : Char → Bool) : List Char → Option (List Char × List Char)
  | c :: rest => if first c then some (c :: rest.takeWhile further, rest.dropWhile further) else none
  | [] => none

/-- An identifier, in quotes or bare, at place `start` of an opener. -/
def heredocName? (squiggly : Bool) (start : Nat) (first further : Char → Bool) (text : List Char) :
    Option (Hit Heredoc) :=
  match text with
  | [] => none
  | q :: rest =>
    if isHeredocQuote q then
      match identifier? first further rest with
      | some (name, close :: _) =>
        if close = q then some ⟨start + name.length + 2, ⟨squiggly, some q, ⟨start + 1, name⟩⟩⟩ else none
      | _ => none
    else
      (identifier? first further text).map fun (name, _) =>
        ⟨start + name.length, ⟨squiggly, none, ⟨start, name⟩⟩⟩

def heredoc? : Recogniser Heredoc := fun _ text =>
  match text with
  | '<' :: '<' :: mark :: rest =>
    if mark = '~' ∨ mark = '-' then
      heredocName? true 3 (fun c => c.isAlpha || c == '_') isWordChar rest
    else
      heredocName? false 2 (fun c => c.isUpper || c == '_')
        (fun c => c.isUpper || c.isDigit || c == '_') (mark :: rest)
  | _ => none

def heredocs (text : List Char) : List (Found Heredoc) := occurrences heredoc? text

end FactoryIndex.Pattern
