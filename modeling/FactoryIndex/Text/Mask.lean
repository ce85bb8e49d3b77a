import FactoryIndex.Pattern.Heredoc

/-!
# Masking comments and strings

Definitions are looked for in a masked copy of a text, in which comments, the contents of quoted strings
and the bodies of here-documents are blanked out. Every character is either kept or replaced by one
space, and newlines are always kept, so an offset means the same place in both copies.

The work is done line by line. A quoted string and a `#` comment end with their line, so a stray quote
cannot swallow the rest of a file. What lasts from one line to the next is a block comment, between
`=begin` and `=end`, or the here-documents that the line has opened, whose bodies follow one after the
other.
-/

namespace FactoryIndex.Text

open Pattern

/-- What a line is part of. -/
inductive LineMode where
  | code
  | blockComment
  | heredoc (terminator : List Char) (others : List (List Char))
  deriving Repr, DecidableEq

/-- Where on a line of code the scan is: in code, inside quotes, or in a comment. -/
inductive CodeState where
  | code
  | quoted (quote : Char)
  | comment
  deriving Repr, DecidableEq

/-- A line of the same length without anything on it. -/
def blankLine (line : List Char) : List Char := line.map fun _ => ' '

/-- Masks the rest of a line of code and lists the here-documents it opens. The next `keep` characters
belong to an opener and stay as they are. -/
def maskCode : (keep : Nat) → CodeState → List Char → List Char × List (List Char)
  | _, _, [] => ([], [])
  | keep + 1, state, c :: rest =>
    let (masked, openers) := maskCode keep state rest
    (c :: masked, openers)
  | 0, .comment, _ :: rest =>
    let (masked, openers) := maskCode 0 .comment rest
    (' ' :: masked, openers)
  | 0, .quoted quote, '\\' :: _ :: rest =>
    let (masked, openers) := maskCode 0 (.quoted quote) rest
    (' ' :: ' ' :: masked, openers)
  | 0, .quoted quote, c :: rest =>
    if c = quote then
      let (masked, openers) := maskCode 0 .code rest
      (c :: masked, openers)
    else
      let (masked, openers) := maskCode 0 (.quoted quote) rest
      (' ' :: masked, openers)
  | 0, .code, c :: rest =>
    if c = '#' then
      let (masked, openers) := maskCode 0 .comment rest
      (' ' :: masked, openers)
    else if c = '\x27' ∨ c = '\x22' then
      let (masked, openers) := maskCode 0 (.quoted c) rest
      (c :: masked, openers)
    else
      match heredoc? none (c :: rest) with
      | some hit =>
        let (masked, openers) := maskCode (hit.length - 1) .code rest
        (c :: masked, hit.parts.terminator.name :: openers)
      | none =>
        let (masked, openers) := maskCode 0 .code rest
        (c :: masked, openers)

/-- The mode after a line that leaves the given here-documents open. -/
def LineMode.ofOpeners : List (List Char) → LineMode
  | [] => .code
  | terminator :: others => .heredoc terminator others

def blockCommentStart : List Char := ['=', 'b', 'e', 'g', 'i', 'n']

def blockCommentEnd : List Char := ['=', 'e', 'n', 'd']

/-- Masks one line and gives the mode of the next one. -/
def maskLine (mode : LineMode) (line : List Char) : List Char × LineMode :=
  match mode with
  | .heredoc terminator others =>
    (blankLine line, if trim line = terminator then .ofOpeners others else mode)
  | .blockComment =>
    (blankLine line,
      if startsWith blockCommentEnd line && !startsWith blockCommentStart line then .code
      else .blockComment)
  | .code =>
    if startsWith blockCommentStart line then (blankLine line, .blockComment)
    else
      let (masked, openers) := maskCode 0 .code line
      (masked, .ofOpeners openers)

/-- Masks lines that follow each other, the first one in the given mode. -/
def maskLines : LineMode → List (List Char) → List (List Char)
  | _, [] => []
  | mode, line :: rest =>
    let (masked, next) := maskLine mode line
    masked :: maskLines next rest

def mask (text : List Char) : List Char := unlines (maskLines .code (lines text))

end FactoryIndex.Text
