import FactoryIndex.NameSet
import FactoryIndex.OrderedMap
import FactoryIndex.Value.Basic

/-!
# Definitions

What is found in a file: factories, and traits, which belong to a factory by its name. A factory also
holds the traits that its own file defines for it, under their names. An `Outline` is all that one text,
or several of them, define.

Names of factories and traits are strings, since they are found in texts. A file is known by whatever name
was given for it, which may hold halves that stand alone.
-/

namespace FactoryIndex

def Value.ofInt? : Option Int → Value
  | some n => .int n
  | none => .null

def Value.ofText? : Option String → Value
  | some s => .text s
  | none => .null

/-- Integers are hashed by what they leave over when divided by a prime, the sign being kept. The hash
of `-1` is taken, so it goes with `-2`. -/
def intHash (n : Int) : Int :=
  let rest := n.tmod 2305843009213693951
  if rest = -1 then -2 else rest

/-- A place in a file, with its line and column counted from zero. -/
structure Location where
  file : RawText
  line : Int
  column : Option Int := none
  length : Option Int := none
  deriving Repr, DecidableEq

/-- The place as shown to a reader, who counts lines and columns from one. -/
def Location.toText (location : Location) : RawText :=
  location.file.baseName ++ ":" ++ toString (location.line + 1) ++ ":" ++
    toString (location.column.getD 0 + 1)

def Location.toValue (location : Location) : Value :=
  .object [
    ("file", .raw location.file), ("line", .int location.line),
    ("column", .ofInt? location.column), ("length", .ofInt? location.length)]

/-- Whether two places have the same hash. Texts have the same hash if they are equal. -/
def Location.sameHash (a b : Location) : Bool :=
  a.file == b.file && intHash a.line == intHash b.line && a.column.map intHash == b.column.map intHash
    && a.length.map intHash == b.length.map intHash

/-- A trait: a named modifier of one factory, which is known by its name only. -/
structure Trait where
  name : String
  location : Location
  factory : String
  deriving Repr, DecidableEq

/-- The key a trait is filed under: the name of its factory and its own, with a colon between them. -/
def traitKey (factory name : String) : String := factory ++ ":" ++ name

def Trait.key (t : Trait) : String := traitKey t.factory t.name

def Trait.toText (t : Trait) : RawText :=
  "Trait: " ++ t.name ++ " in factory " ++ t.factory ++ " at " ++ t.location.toText

def Trait.toValue (t : Trait) : Value :=
  .object [
    ("name", .text t.name), ("factory", .text t.factory), ("location", t.location.toValue)]

/-- A factory: its name, its parent if it has one, and the traits its file defines for it. -/
structure Factory where
  name : String
  location : Location
  parent : Option String := none
  traits : OrderedMap String Trait := .empty
  deriving DecidableEq

namespace Factory

/-- Adds a trait, or replaces the one of the same name, which keeps its place. -/
def addTrait (factory : Factory) (t : Trait) : Factory :=
  { factory with traits := factory.traits.insert t.name t }

/-- Whether two factories are the same definition, whatever their traits. -/
def sameDefinition (a b : Factory) : Bool :=
  a.name == b.name && a.location == b.location && a.parent == b.parent

/-- Whether two factories have the same hash. Like equality it does not look at the traits. -/
def sameHash (a b : Factory) : Bool :=
  a.name == b.name && a.location.sameHash b.location && a.parent == b.parent

/-- Whether two factories have the same traits, in whatever order. -/
def sameTraits (a b : Factory) : Bool :=
  a.traits.size == b.traits.size &&
    a.traits.entries.all fun entry => b.traits.get? entry.1 == some entry.2

def toText (factory : Factory) : RawText :=
  let parent := match factory.parent with
    | some parent => if parent.isEmpty then "" else " extends " ++ parent
    | none => ""
  let count := factory.traits.size
  let traits := if count = 0 then "" else " (" ++ toString count ++ " traits)"
  "Factory: " ++ factory.name ++ parent ++ " at " ++ factory.location.toText ++ traits

def toValue (factory : Factory) : Value :=
  .object [
    ("name", .text factory.name), ("parent", .ofText? factory.parent),
    ("location", factory.location.toValue), ("traits", .texts (sortedNames factory.traits.keys))]

end Factory

/-- The factories and the traits of a text, or of several texts, in document order. -/
structure Outline where
  factories : List Factory := []
  traits : List Trait := []

namespace Outline

def append (a b : Outline) : Outline := ⟨a.factories ++ b.factories, a.traits ++ b.traits⟩

instance : Append Outline := ⟨append⟩

def isEmpty (outline : Outline) : Bool := outline.factories.isEmpty && outline.traits.isEmpty

def toValue (outline : Outline) : Value :=
  .object [
    ("factories", .list (outline.factories.map Factory.toValue)),
    ("traits", .list (outline.traits.map Trait.toValue))]

end Outline

end FactoryIndex
