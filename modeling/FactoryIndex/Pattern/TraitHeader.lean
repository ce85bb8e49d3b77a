import FactoryIndex.Pattern.Scan

/-!
# Headers of trait definitions

A trait definition is opened by `trait :name do`, with at least one blank before and after the name.
-/

namespace FactoryIndex.Pattern

open Text

def traitWord : List Char := ['t', 'r', 'a', 'i', 't']

/-- A trait header at the given place, from its keyword to its `do`. -/
def traitHeader? : Recogniser Symbol := fun before text =>
  match keywordSymbol? traitWord before text with
  | some (name, rest) =>
    let blanks := rest.takeWhile isBlank
    match doWord? blanks.getLast? (rest.dropWhile isBlank) with
    | some _ => if blanks.isEmpty then none else some ⟨name.stop + blanks.length + 2, name⟩
    | none => none
  | none => none

def traitHeaders (text : List Char) : List (Found Symbol) := occurrences traitHeader? text

/-- A symbol anywhere: a colon and a name. -/
def symbolHere? : Recogniser Symbol := fun _ text =>
  (symbol? text).map fun (symbol, _) => ⟨symbol.stop, symbol⟩

def symbols (text : List Char) : List (Found Symbol) := occurrences symbolHere? text

end FactoryIndex.Pattern
