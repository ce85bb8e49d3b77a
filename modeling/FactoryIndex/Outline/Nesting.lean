import FactoryIndex.Pattern.BlockToken
import FactoryIndex.Pattern.FactoryHeader
import FactoryIndex.Pattern.TraitHeader

/-!
# Nesting of definitions

Which factory a trait or a nested factory belongs to is found by walking over the headers and the block
tokens of a masked text in the order of their offsets, with the depth of open blocks kept along. A
factory header announces a block, which the next `do` or brace opens, even on a later line; a block that
never opens is forgotten when the blocks around its header close. Each open factory remembers the depth
outside its block, and is closed once the depth is back there.
-/

namespace FactoryIndex.Outline

open Pattern

/-- What the walk meets. A trait comes with its length, from its keyword to the end of its name. -/
inductive BlockEvent where
  | factory (offset : Nat) (name : String)
  | trait (offset : Nat) (name : String) (length : Nat)
  | token (offset : Nat) (token : BlockToken)
  deriving Repr, DecidableEq

def BlockEvent.offset : BlockEvent → Nat
  | factory offset _ => offset
  | trait offset _ _ => offset
  | token offset _ => offset

/-- A factory whose block is open, and the depth outside that block. -/
structure OpenFactory where
  name : String
  depth : Nat
  deriving Repr, DecidableEq

/-- Where the walk is: the open factories, the innermost first, the depth of open blocks, and the
factory whose block is still to open. -/
structure Nesting where
  stack : List OpenFactory := []
  depth : Nat := 0
  pending : Option String := none
  deriving Repr, DecidableEq

/-- What the walk finds out: the factory around a nested one, and the factory of a trait. -/
inductive Finding where
  | nested (offset : Nat) (outer : String)
  | trait (offset : Nat) (name : String) (length : Nat) (factory : String)
  deriving Repr, DecidableEq

namespace Nesting

def innermost? (nesting : Nesting) : Option String := nesting.stack.head?.map OpenFactory.name

/-- A block opens; if a factory is waiting for its block, this is it. -/
def openBlock (nesting : Nesting) : Nesting :=
  match nesting.pending with
  | some name => ⟨⟨name, nesting.depth⟩ :: nesting.stack, nesting.depth + 1, none⟩
  | none => { nesting with depth := nesting.depth + 1 }

/-- A keyword opens a block, which is never that of a factory. -/
def openKeyword (nesting : Nesting) : Nesting := { nesting with depth := nesting.depth + 1 }

/-- A block closes, and with it the factories whose block it was. A surplus closer changes nothing but
that no factory waits for its block any more. -/
def closeBlock (nesting : Nesting) : Nesting :=
  let depth := nesting.depth - 1
  ⟨nesting.stack.dropWhile fun factory => depth ≤ factory.depth, depth, none⟩

def step (nesting : Nesting) : BlockEvent → Nesting
  | .factory _ name => { nesting with pending := some name }
  | .trait .. => nesting
  | .token _ .keyword => nesting.openKeyword
  | .token _ .openDo => nesting.openBlock
  | .token _ .openBrace => nesting.openBlock
  | .token _ .closeEnd => nesting.closeBlock
  | .token _ .closeBrace => nesting.closeBlock

/-- What one event tells about nesting. -/
def finding? (nesting : Nesting) : BlockEvent → Option Finding
  | .factory offset _ => nesting.innermost?.map fun outer => .nested offset outer
  | .trait offset name length => nesting.innermost?.map fun factory => .trait offset name length factory
  | .token .. => none

def findings : Nesting → List BlockEvent → List Finding
  | _, [] => []
  | nesting, event :: rest => (nesting.finding? event).toList ++ findings (nesting.step event) rest

end Nesting

/-- The headers and tokens of a masked text, in the order of their offsets. Where a header and a token
start at the same offset the header comes first. -/
def blockEvents (masked : List Char) : List BlockEvent :=
  let factories := (factoryHeaders masked).map fun found =>
    BlockEvent.factory found.start (String.ofList found.parts.name.name)
  let traits := (traitHeaders masked).map fun found =>
    BlockEvent.trait found.start (String.ofList found.parts.name) found.parts.stop
  let tokens := (blockTokens masked).map fun found => BlockEvent.token found.start found.parts.token
  (factories ++ traits ++ tokens).mergeSort fun a b => decide (a.offset ≤ b.offset)

end FactoryIndex.Outline
