import FactoryIndex.Definition
import FactoryIndex.Outline.Nesting
import FactoryIndex.Pattern.FactoryBody
import FactoryIndex.Text.LineIndex
import FactoryIndex.Text.Mask

/-!
# Outlines of texts

The factories of a text are its headers outside comments and strings. Its traits are found in one of two
ways. The *scanner* follows the nesting of blocks and gives every trait to the innermost factory around
it; traits outside all factories are dropped, and a nested factory without an explicit parent gets the
factory around it as its parent. The *regex* way cuts each factory at the next header, see
`Pattern.FactoryBody`.
-/

namespace FactoryIndex

open Pattern Text

/-- The two ways of finding out which factory a trait belongs to. -/
inductive BlockMode where
  | scanner
  | regex
  deriving Repr, DecidableEq

def BlockMode.name : BlockMode → String
  | scanner => "scanner"
  | regex => "regex"

def BlockMode.ofName? (name : String) : Option BlockMode :=
  if name = "scanner" then some scanner else if name = "regex" then some regex else none

namespace Outline

/-- The place of a stretch of text that starts at an offset. -/
def locate (index : LineIndex) (file : RawText) (offset length : Nat) : Location :=
  let position := index.position offset
  ⟨file, position.line, some position.column, some length⟩

def scannedTraits (index : LineIndex) (file : RawText) (findings : List Finding) : List Trait :=
  findings.filterMap fun
    | .trait offset name length factory => some ⟨name, locate index file offset length, factory⟩
    | .nested .. => none

/-- The factory around the header at an offset, according to the findings of the scanner. -/
def enclosing? (findings : List Finding) (offset : Nat) : Option String :=
  findings.findSome? fun
    | .nested start outer => if start = offset then some outer else none
    | .trait .. => none

/-- The traits of a masked text whose factories are cut at the next header. -/
def cutTraits (index : LineIndex) (file : RawText) (masked : List Char) : List Trait :=
  (factoryBodies masked).flatMap fun body =>
    (traitHeaders body.parts.text).map fun found =>
      ⟨String.ofList found.parts.name,
        locate index file (body.start + body.parts.start + found.start) found.parts.stop,
        String.ofList body.parts.name.name⟩

/-- The factory of a header, with the factory around it as parent if the header gives none. -/
def headerFactory (index : LineIndex) (file : RawText) (findings : List Finding)
    (found : Found FactoryHeader) : Factory :=
  let parent := match found.parts.parent with
    | some symbol => some (String.ofList symbol.name)
    | none => enclosing? findings found.start
  { name := String.ofList found.parts.name.name
    location := locate index file found.start found.parts.name.stop
    parent := parent }

/-- Gives every trait to the last factory of its factory's name. -/
def linkTraits (traits : List Trait) : List Factory → List Factory
  | [] => []
  | factory :: rest =>
    let own := if rest.any fun later => later.name == factory.name then []
      else traits.filter fun t => t.factory == factory.name
    own.foldl Factory.addTrait factory :: linkTraits traits rest

/-- The definitions of a text, located in the given file. -/
def parse (mode : BlockMode) (text : List Char) (file : RawText) : Outline :=
  let masked := mask text
  let index := LineIndex.ofText text
  let findings := match mode with
    | .scanner => Nesting.findings {} (blockEvents masked)
    | .regex => []
  let traits := match mode with
    | .scanner => scannedTraits index file findings
    | .regex => cutTraits index file masked
  ⟨linkTraits traits ((factoryHeaders masked).map (headerFactory index file findings)), traits⟩

def factoryNames (text : List Char) : List String :=
  (factoryHeaders (mask text)).map fun found => String.ofList found.parts.name.name

def definesFactory (text : List Char) : Bool := !(factoryHeaders (mask text)).isEmpty

end Outline

end FactoryIndex
