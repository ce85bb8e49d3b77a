import FactoryIndex.Pattern.Call
import FactoryIndex.Store.Timed
import FactoryIndex.Text.LineIndex

/-!
# References

A call site refers to the factory its first symbol names and to the traits of that factory its further
symbols name. A symbol without a live definition is passed over; a trait is referred to even if its
factory is unknown. References come in the order of the text.

Resolving looks definitions up, so expired ones that are asked for leave the store. What is found does
not depend on that: an expired definition counts as missing before it is removed and after.
-/

namespace FactoryIndex

open Pattern Text

/-- What a symbol refers to. -/
inductive ReferenceKind where
  | factory
  | trait
  deriving Repr, DecidableEq

def ReferenceKind.name : ReferenceKind → String
  | factory => "factory"
  | trait => "trait"

/-- A symbol of a call site with the place of its definition. It runs from its colon to the end of its
name; a trait comes with the name of the factory it belongs to. -/
structure Reference where
  kind : ReferenceKind
  start : Nat
  stop : Nat
  position : Position
  target : Location
  factory : Option String
  deriving Repr, DecidableEq

def Reference.toValue (reference : Reference) : Value :=
  .object [
    ("kind", .text reference.kind.name), ("start", .int reference.start), ("end", .int reference.stop),
    ("line", .int reference.position.line), ("column", .int reference.position.column),
    ("target", reference.target.toValue), ("factory", .ofText? reference.factory)]

inductive Lookup where
  | factory (name : String)
  | trait (factory name : String)
  deriving Repr, DecidableEq

/-- The place of the definition that is looked up, if it is live. -/
def Store.target? (store : Store) (clock : Clock) : Lookup → Option Location
  | .factory name => (store.factory? clock name).map Factory.location
  | .trait factory name => (store.trait? clock factory name).map Trait.location

/-- Whether there is a definition under what is looked up, expired or not. -/
def Store.holds (store : Store) : Lookup → Bool
  | .factory name => store.factories.contains name
  | .trait factory name => store.traits.contains (traitKey factory name)

def Store.touch (clock : Clock) (store : Store) : Lookup → Store
  | .factory name => store.touchFactory clock name
  | .trait factory name => store.touchTrait clock factory name

namespace Resolver

/-- A symbol of a text, from its colon to the end of its name, and what it asks for. -/
structure Question where
  start : Nat
  stop : Nat
  lookup : Lookup
  deriving Repr, DecidableEq

def question (callStart : Nat) (symbol : Symbol) (lookup : Lookup) : Question :=
  ⟨callStart + symbol.start - 1, callStart + symbol.stop, lookup⟩

/-- The questions of a call site: its factory, then its traits. -/
def callQuestions (call : Found CallSite) : List Question :=
  let factory := String.ofList call.parts.first.name
  question call.start call.parts.first (.factory factory) ::
    call.parts.others.map fun symbol =>
      question call.start symbol (.trait factory (String.ofList symbol.name))

def questions (pattern : CallPattern) (text : List Char) : List Question :=
  (pattern.calls text).flatMap callQuestions

def answer? (store : Store) (clock : Clock) (index : LineIndex) (question : Question) : Option Reference :=
  (store.target? clock question.lookup).map fun target =>
    let position := index.position question.start
    match question.lookup with
    | .factory _ => ⟨.factory, question.start, question.stop, position, target, none⟩
    | .trait factory _ => ⟨.trait, question.start, question.stop, position, target, some factory⟩

def references (store : Store) (clock : Clock) (pattern : CallPattern) (text : List Char) :
    List Reference :=
  let index := LineIndex.ofText text
  (questions pattern text).filterMap (answer? store clock index)

/-- The store after the references of a text have been looked up. -/
def touched (store : Store) (clock : Clock) (pattern : CallPattern) (text : List Char) : Store :=
  (questions pattern text).foldl (fun store question => store.touch clock question.lookup) store

/-- The event that is reported when no call pattern can be made of the configured methods. -/
def patternFailure (methods : List Value) (failure : Failure) : Event :=
  { level := .error
    context := "resolver.pattern_failure"
    message := "Call-site pattern could not be built"
    error := some failure
    userMessage := some ("An error occurred while parsing factory calls. " ++
      "Some factory links may not be recognized.")
    details := [("methods", .list methods)] }

end Resolver

/-- The outcome of resolving a text: the references, the store afterwards, and the event to report. -/
structure Resolution where
  references : List Reference
  store : Store
  event : Option Event

/-- Resolves a text with the call pattern of the given methods. -/
def resolve (store : Store) (clock : Clock) (methods : List Value) (text : List Char) : Resolution :=
  match CallPattern.ofMethods methods with
  | .error failure => ⟨[], store, some (Resolver.patternFailure methods failure)⟩
  | .ok pattern =>
    ⟨Resolver.references store clock pattern text, Resolver.touched store clock pattern text, none⟩

/-- Resolves a text by a clock that may be out of range. Then it fails at the first definition that it
meets, before which there was nothing to find. -/
def Store.Timed.resolve (clock : Clock) (store : Store) (methods : List Value) (text : List Char) :
    Except Failure Resolution :=
  let asksForHeld := match CallPattern.ofMethods methods with
    | .ok pattern => (Resolver.questions pattern text).any fun question => store.holds question.lookup
    | .error _ => false
  if !clock.measures && asksForHeld then .error .overflow
  else .ok (FactoryIndex.resolve store clock methods text)

end FactoryIndex
