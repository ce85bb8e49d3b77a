import FactoryIndex.Failure
import FactoryIndex.Pattern.Scan

/-!
# Call sites

A call site names a factory method, then a list of symbols, the first of which is the factory and the
others its traits: `create(:user, :admin)`, or the same without parentheses. Further arguments may
follow the symbols. The call must be complete: behind its symbols and arguments comes a closing
parenthesis, the end of the line, or the end of the text. If the list of symbols is followed by
something that cannot end a call, its last symbol is taken for the beginning of the further arguments.

Which methods count is configured. The longest names are tried first, so that a method whose name starts
with the name of another one is not mistaken for it.
-/

namespace FactoryIndex.Pattern

open Text

/-! ### Methods -/

/-- Whether a text can be the name of a method, or of anything else: a name, after which a single
newline is tolerated. -/
def isValidName (text : List Char) : Bool :=
  let rest := text.dropWhile isNameChar
  !(text.takeWhile isNameChar).isEmpty && (rest == [] || rest == ['\n'])

def defaultMethods : List String := [
  "create", "create_list", "build", "build_list", "build_stubbed", "build_stubbed_list",
  "attributes_for", "attributes_for_list"
]

/-- A pattern for call sites: the names of the methods, in the order in which they are tried. -/
structure CallPattern where
  methods : List (List Char)
  deriving Repr, DecidableEq

/-- Longer names come first, names of the same length in order. -/
def methodBefore (a b : String) : Bool :=
  b.length < a.length || (a.length == b.length && decide (a ≤ b))

def isMethodName : Value → Bool
  | .text s => isValidName s.toList
  | _ => false

/-- The call pattern for the given methods, if there are any and all of them have valid names. -/
def CallPattern.ofMethods (methods : List Value) : Except Failure CallPattern :=
  let invalid := methods.filter fun m => !isMethodName m
  if methods.isEmpty then .error .noMethods
  else if !invalid.isEmpty then .error (.invalidMethods invalid)
  else
    .ok ⟨((methods.filterMap Value.text?).eraseDups.mergeSort methodBefore).map String.toList⟩

/-! ### Call sites -/

/-- The parts of a call site: its symbols, each starting at its colon. -/
structure CallSite where
  first : Symbol
  others : List Symbol
  deriving Repr, DecidableEq

/-- The place where the list of symbols ends. -/
def CallSite.symbolsStop (call : CallSite) : Nat := (call.others.getLast?.getD call.first).stop

/-- How many characters belong to a call behind its symbols, if it can end there. Blanks may precede
the end, and so may further arguments, which run from a comma to a closing parenthesis or to the end of
the line. A call may also end with the last newline among the blanks. -/
def callEnd? (text : List Char) : Option Nat :=
  let blanks := text.takeWhile isBlank
  match text.dropWhile isBlank with
  | [] => some blanks.length
  | ')' :: _ => some (blanks.length + 1)
  | ',' :: rest =>
    let inner := rest.takeWhile isBlank
    let arguments := (rest.dropWhile isBlank).takeWhile fun c => c != ')' && c != '\n'
    let length := blanks.length + 1 + inner.length + arguments.length
    some (if length < text.length then length + 1 else length)
  | _ =>
    let onLastLine := blanks.reverse.takeWhile (· != '\n')
    if onLastLine.length < blanks.length then some (blanks.length - onLastLine.length) else none

/-- A further symbol: blanks, a comma, blanks and the symbol, with the text behind it. -/
def furtherSymbol? (text : List Char) :
    Option (Symbol × { rest : List Char // rest.length < text.length }) :=
  match hcomma : text.dropWhile isBlank with
  | ',' :: inner =>
    match hsymbol : inner.dropWhile isBlank with
    | ':' :: named =>
      let name := named.takeWhile isNameChar
      if name.isEmpty then none
      else
        some (⟨(text.takeWhile isBlank).length + 1 + (inner.takeWhile isBlank).length + 1, name⟩,
          ⟨named.dropWhile isNameChar, by
            have h1 := (List.dropWhile_sublist isBlank (l := text)).length_le
            have h2 := (List.dropWhile_sublist isBlank (l := inner)).length_le
            have h3 := (List.dropWhile_sublist isNameChar (l := named)).length_le
            rw [hcomma] at h1
            rw [hsymbol] at h2
            simp only [List.length_cons] at h1 h2
            omega⟩)
    | _ => none
  | _ => none

/-- The longest list of further symbols behind which the call can end, each seen from `offset`
characters further left, and the length of the call up to its end. -/
def callRest? (offset : Nat) (text : List Char) : Option (List Symbol × Nat) :=
  let here := (callEnd? text).map fun length => ([], offset + length)
  match furtherSymbol? text with
  | some (symbol, ⟨rest, _⟩) =>
    match callRest? (offset + symbol.stop) rest with
    | some (others, length) => some (symbol.shift offset :: others, length)
    | none => here
  | none => here
termination_by text.length

/-- A call of the given method at the start of the text. -/
def callOf? (method text : List Char) : Option (Hit CallSite) :=
  match after? method text with
  | some rest =>
    let blanks := rest.takeWhile isBlank
    let (parenthesis, rest) := match rest.dropWhile isBlank with
      | '(' :: inner => (1 + (inner.takeWhile isBlank).length, inner.dropWhile isBlank)
      | rest => (0, rest)
    match symbol? rest with
    | some (symbol, rest) =>
      let first := symbol.shift (method.length + blanks.length + parenthesis)
      (callRest? first.stop rest).map fun (others, length) => ⟨length, ⟨first, others⟩⟩
    | none => none
  | none => none

def CallPattern.call? (pattern : CallPattern) : Recogniser CallSite := fun before text =>
  if opensWord before then pattern.methods.findSome? fun method => callOf? method text else none

def CallPattern.calls (pattern : CallPattern) (text : List Char) : List (Found CallSite) :=
  occurrences pattern.call? text

end FactoryIndex.Pattern
