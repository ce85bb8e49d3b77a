import FactoryIndex.Failure
import FactoryIndex.Text.Split

/-!
# Globs

Which files belong to an index is said by a list of globs, in the syntax that version control systems use
for lists of ignored files. A glob is a row of segments between slashes; `*` and `?` stay inside a
segment, a segment `**` spans any number of them, and a glob of one segment holds at any depth. A glob
also selects all that lies below the directories it matches; a match through such a directory is *marked*
and weighs less than a match of the path itself. A glob that starts with `!` takes files out again. Of
all globs that match a path with the greatest weight, the last one decides.
-/

namespace FactoryIndex

open Text

inductive ClassItem where
  | single (c : Point)
  | range (low high : Point)
  deriving Repr, DecidableEq

def ClassItem.accepts : ClassItem → Point → Bool
  | single d, c => d == c
  | range low high, c => decide (low.code ≤ c.code ∧ c.code ≤ high.code)

inductive CharTest where
  | literal (c : Point)
  | notSlash
  | among (negated : Bool) (items : List ClassItem)
  deriving Repr, DecidableEq

def CharTest.accepts : CharTest → Point → Bool
  | literal d, c => d == c
  | notSlash, c => c != .char '/'
  | among negated items, c => (items.any fun item => item.accepts c) != negated

/-- The pieces a glob is matched by, from left to right. -/
inductive GlobPiece where
  /-- Any number of whole segments at the start. -/
  | leading
  /-- A slash and anything behind it, or nothing. -/
  | inner
  /-- One character. -/
  | one (test : CharTest)
  /-- Any part of a segment. -/
  | star
  /-- A whole segment that is not empty. -/
  | segment
  /-- A slash, behind which anything may follow. -/
  | below (marked : Bool)
  /-- The end of the path, or a slash, which marks the match. -/
  | finish
  deriving Repr, DecidableEq

namespace GlobPiece

/-- Tries to go on behind a run of characters, as long a run as possible first. -/
def afterRun (within : Point → Bool) (goOn : List Point → Option Bool) : List Point → Option Bool
  | [] => goOn []
  | c :: rest =>
    if within c then
      match afterRun within goOn rest with
      | some marked => some marked
      | none => goOn (c :: rest)
    else goOn (c :: rest)

/-- Tries to go on behind a slash that is not the first character, the last such slash first. -/
def afterSlash (goOn : List Point → Option Bool) : (started : Bool) → List Point → Option Bool
  | _, [] => none
  | started, c :: rest =>
    if c = .char '\n' then none
    else
      match afterSlash goOn true rest with
      | some marked => some marked
      | none => if c = .char '/' ∧ started then goOn rest else none

/-- Whether a path matches the pieces, and if so, whether the match is marked. -/
def matchPath : List GlobPiece → List Point → Option Bool
  | [], _ => some false
  | leading :: pieces, path =>
    match afterSlash (matchPath pieces) false path with
    | some marked => some marked
    | none => matchPath pieces path
  | inner :: pieces, path =>
    let behind := match path with
      | .char '/' :: c :: rest =>
        if c = .char '\n' then none else afterRun (· != .char '\n') (matchPath pieces) rest
      | _ => none
    match behind with
    | some marked => some marked
    | none => matchPath pieces path
  | one test :: pieces, path =>
    match path with
    | c :: rest => if test.accepts c then matchPath pieces rest else none
    | [] => none
  | star :: pieces, path => afterRun (· != .char '/') (matchPath pieces) path
  | segment :: pieces, path =>
    match path with
    | c :: rest => if c = .char '/' then none else afterRun (· != .char '/') (matchPath pieces) rest
    | [] => none
  | below marked :: _, path => if path.head? = some (.char '/') then some marked else none
  | finish :: _, path =>
    if path.head? = some (.char '/') then some true
    else if path = [] ∨ path = [.char '\n'] then some false else none

end GlobPiece

/-- How a glob selects paths. -/
inductive GlobForm where
  /-- Every path, unless it is nothing but line breaks. -/
  | everything
  /-- Every path with a slash in it. -/
  | anyBelow (marked : Bool)
  | row (pieces : List GlobPiece)
  deriving Repr, DecidableEq

/-- Whether a path is selected, and if so, whether the match is marked. -/
def GlobForm.matchPath (form : GlobForm) (path : List Point) : Option Bool :=
  match form with
  | everything => if path.any (· != .char '\n') then some false else none
  | anyBelow marked => if path.contains (.char '/') then some marked else none
  | row pieces => GlobPiece.matchPath pieces path

/-- A glob: whether it takes files out, and how it selects paths. -/
structure Glob where
  excludes : Bool
  form : GlobForm
  deriving Repr, DecidableEq

namespace Glob

def classItems : List Point → List ClassItem
  | low :: .char '-' :: high :: rest => .range low high :: classItems rest
  | c :: rest => .single c :: classItems rest
  | [] => []

/-- A character class behind its opening bracket: the test, and how many characters it takes with its
closing bracket. A bracket right at the start is part of the class. Nothing if it is not closed. -/
def class? (text : List Point) : Option (CharTest × Nat) :=
  let negated := text.head? == some (.char '!') || text.head? == some (.char '^')
  let body := if negated then text.drop 1 else text
  let (first, rest) : List Point × List Point := match body with
    | .char ']' :: rest => ([.char ']'], rest)
    | rest => ([], rest)
  let others := rest.takeWhile (· != .char ']')
  let content := first ++ others
  if others.length < rest.length then
    some (.among negated (classItems content), (if negated then 1 else 0) + content.length + 1)
  else none

/-- The pieces of a segment, the next `skip` characters of which belong to a character class. Nothing if
a class is not closed. -/
def segmentPieces? : (skip : Nat) → List Point → Option (List GlobPiece)
  | _, [] => some []
  | skip + 1, _ :: rest => segmentPieces? skip rest
  | 0, c :: rest =>
    let piece : Option (GlobPiece × Nat) :=
      if c = .char '*' then some (.star, 0)
      else if c = .char '?' then some (.one .notSlash, 0)
      else if c = .char '[' then (class? rest).map fun (test, length) => (.one test, length)
      else some (.one (.literal c), 0)
    match piece with
    | none => none
    | some (piece, skip) => (segmentPieces? skip rest).map (piece :: ·)

/-- A segment that spans any number of segments. -/
def anyDepth : List Point := [.char '*', .char '*']

/-- A segment that stands for any one segment. -/
def anyName : List Point := [.char '*']

/-- The pieces of all segments from the `index`-th on. -/
def pieces? (directory : Bool) : (index : Nat) → (afterSegment : Bool) → List (List Point) →
    Option (List GlobPiece)
  | _, _, [] => some []
  | index, afterSegment, part :: rest =>
    if part = anyDepth then
      if index = 0 then (pieces? directory 1 false rest).map (.leading :: ·)
      else if rest.isEmpty then some [.below directory]
      else (pieces? directory (index + 1) true rest).map (.inner :: ·)
    else
      let own := if part = anyName then some [.segment] else segmentPieces? 0 part
      match own, pieces? directory (index + 1) true rest with
      | some own, some others =>
        let slash := if afterSegment then [GlobPiece.one (.literal (.char '/'))] else []
        some (slash ++ own ++ (if rest.isEmpty then [.finish] else []) ++ others)
      | _, _ => none

/-- Segments without one `**` right behind another. -/
def collapse : List (List Point) → List (List Point)
  | [] => []
  | part :: rest =>
    match collapse rest with
    | next :: others => if part = anyDepth ∧ next = anyDepth then next :: others else part :: next :: others
    | [] => [part]

/-- The segments that are matched: a leading slash is dropped, a single segment holds at any depth, and
a trailing slash stands for all that lies below. Nothing if there are no segments left. -/
def segments? (parts : List (List Point)) : Option (List (List Point)) :=
  let anchored := match parts with
    | [] :: rest => rest
    | [part] => if part = anyDepth then parts else [anyDepth, part]
    | [part, []] => if part = anyDepth then parts else [anyDepth, part, []]
    | _ => parts
  match anchored.reverse with
  | [] => none
  | [] :: front => some (collapse (front.reverse ++ [anyDepth]))
  | _ => some (collapse anchored)

/-- How segments select paths. Nothing if a character class among them is not closed. -/
def form? (directory : Bool) (segments : List (List Point)) : Option GlobForm :=
  if segments = [anyDepth] then some (if directory then .anyBelow true else .everything)
  else if segments = [anyDepth, anyName] then some .everything
  else if segments = [anyDepth, anyName, anyDepth] then some (.anyBelow directory)
  else (pieces? directory 0 false segments).map .row

/-! ### Ranges that run backward

A glob with such a range is refused. The message tells the place of the range in the regular expression
that the glob stands for, so that expression is written down here. -/

/-- The characters that have a meaning of their own in a regular expression. -/
def specialChars : String := "()[]\x7b\x7d?*+-|^$\\.&~# \t\n\r\x0b\x0c"

/-- The code points of a string. -/
def written (s : String) : List Point := s.toList.map .char

def writtenItem : ClassItem → List Point
  | .single c => [c]
  | .range low high => [low, .char '-', high]

def writtenOpening (negated : Bool) : List Point := written (if negated then "[^" else "[")

def writtenTest : CharTest → List Point
  | .literal c => if (written specialChars).contains c then [.char '\\', c] else [c]
  | .notSlash => written "[^/]"
  | .among negated items => writtenOpening negated ++ items.flatMap writtenItem ++ written "]"

def writtenPiece : GlobPiece → List Point
  | .leading => written "^(?:.+/)?"
  | .inner => written "(?:/.+)?"
  | .one test => writtenTest test
  | .star => written "[^/]*"
  | .segment => written "[^/]+"
  | .below _ => written "/"
  | .finish => written "(?:/|$)"

/-- The regular expression of a row of pieces. It is anchored at the start of the path. -/
def writtenRow (pieces : List GlobPiece) : List Point :=
  let anchor := if pieces.head? = some .leading then [] else written "^"
  anchor ++ pieces.flatMap writtenPiece

/-- The first of the given items that is a range running backward, and how much is written before it. -/
def backwardItem? : (before : Nat) → List ClassItem → Option (Point × Point × Nat)
  | _, [] => none
  | before, item :: rest =>
    match item with
    | .range low high =>
      if high.code < low.code then some (low, high, before) else backwardItem? (before + 3) rest
    | .single _ => backwardItem? (before + 1) rest

/-- The first range of the given pieces that runs backward, and how much is written before it. -/
def backwardRange? : (before : Nat) → List GlobPiece → Option (Point × Point × Nat)
  | _, [] => none
  | before, piece :: rest =>
    let own := match piece with
      | .one (.among negated items) => backwardItem? (before + (writtenOpening negated).length) items
      | _ => none
    match own with
    | some found => some found
    | none => backwardRange? (before + (writtenPiece piece).length) rest

/-- The failure of a glob with a range that runs backward. -/
def fault? : GlobForm → Option Failure
  | .row pieces =>
    let expression := writtenRow pieces
    let anchor := expression.length - (pieces.flatMap writtenPiece).length
    (backwardRange? anchor pieces).map fun (low, high, place) => .backwardRange low high expression place
  | _ => none

/-- The glob that a line stands for; a line may also have no effect. -/
def parse (line : RawText) : Except Failure (Option Glob) :=
  let text := RawText.trimmedRight line.points
  if text = [] ∨ text.head? = some (.char '#') ∨ text = [.char '/'] then .ok none
  else
    let excludes := text.head? == some (.char '!')
    let parts := split (.char '/') (if excludes then text.drop 1 else text)
    let directory := parts.getLast? == some []
    match segments? parts with
    | none => .error (.emptyGlob line)
    | some segments =>
      match form? directory segments with
      | none => .ok none
      | some form =>
        match fault? form with
        | some failure => .error failure
        | none => .ok (some ⟨excludes, form⟩)

/-- The globs of several lines, those without effect left out. -/
def parseAll (lines : List RawText) : Except Failure (List Glob) :=
  (lines.mapM parse).map fun globs => globs.filterMap id

/-- Whether a list of globs selects a path. A later glob overrules an earlier one, unless its match is
marked and the other one is not. -/
def selects (globs : List Glob) (path : List Point) : Bool :=
  let verdict := globs.foldl
    (fun (verdict : Nat × Bool) glob =>
      match glob.form.matchPath path with
      | some marked =>
        let weight := if marked then 1 else 2
        if verdict.1 ≤ weight then (weight, !glob.excludes) else verdict
      | none => verdict)
    (0, false)
  verdict.2

end Glob

end FactoryIndex
