import FactoryIndex.Outline.Parse
import FactoryIndex.Proofs.Outline.Layout

/-!
# Nested definitions

A `Forest` is a text of nested definitions as it is laid out: factories, traits, other blocks and conditionals, each
with a body and its `end`, and between them attributes and blank lines, with any spaces and tabs in front. The walk
over the events of such a text is back where it was after each block. So at every line it knows the innermost
factory around that line, and parsing finds exactly the definitions that were laid out.
-/

namespace FactoryIndex.Outline

open Pattern Text

/-- What opens a block. -/
inductive Opener where
  | factory (name : Name)
  | trait (name : Name)
  | block (word : Identifier)
  | conditional (word : Identifier)

def Opener.code : Opener → Code
  | factory name => .factory name
  | trait name => .trait name
  | block word => .block word
  | conditional word => .conditional word

/-- The innermost factory inside a block, given the one around it. -/
def Opener.inner (outer : Option String) : Opener → Option String
  | factory name => some name.text
  | _ => outer

/-- Definitions as they are laid out. -/
inductive Forest where
  | nil
  | blank (indent : Indent) (rest : Forest)
  | attr (indent : Indent) (word : Identifier) (digits : Digits) (rest : Forest)
  | node (indent : Indent) (opener : Opener) (body : Forest) (closing : Indent) (rest : Forest)

/-- The place of a header, from its keyword to the end of its name. -/
def headerLocation (file : RawText) (line : Nat) (indent : Indent) (keyword : List Char) (name : Name) : Location :=
  ⟨file, line, some indent.chars.length, some (keyword.length + 2 + name.chars.length : Nat)⟩

namespace Forest

def lines : Forest → List Line
  | nil => []
  | blank indent rest => ⟨indent, .blank⟩ :: rest.lines
  | attr indent word digits rest => ⟨indent, .attr word digits⟩ :: rest.lines
  | node indent opener body closing rest =>
    ⟨indent, opener.code⟩ :: (body.lines ++ ⟨closing, .close⟩ :: rest.lines)

def text (forest : Forest) : List Char := layOut forest.lines

/-- The factories of a forest whose first line has the given number, each before those inside it; its parent is the
innermost factory around it. -/
def factories (file : RawText) (outer : Option String) (line : Nat) : Forest → List Factory
  | nil => []
  | blank _ rest => rest.factories file outer (line + 1)
  | attr _ _ _ rest => rest.factories file outer (line + 1)
  | node indent opener body _ rest =>
    let inside := body.factories file (opener.inner outer) (line + 1)
    let behind := rest.factories file outer (line + body.lines.length + 2)
    match opener with
    | .factory name =>
      { name := name.text, location := headerLocation file line indent factoryWord name, parent := outer } ::
        (inside ++ behind)
    | _ => inside ++ behind

/-- The traits of a forest that lie inside a factory, in document order, each with the innermost factory around
it. -/
def traits (file : RawText) (outer : Option String) (line : Nat) : Forest → List Trait
  | nil => []
  | blank _ rest => rest.traits file outer (line + 1)
  | attr _ _ _ rest => rest.traits file outer (line + 1)
  | node indent opener body _ rest =>
    let inside := body.traits file (opener.inner outer) (line + 1)
    let behind := rest.traits file outer (line + body.lines.length + 2)
    match opener, outer with
    | .trait name, some factory =>
      ⟨name.text, headerLocation file line indent traitWord name, factory⟩ :: (inside ++ behind)
    | _, _ => inside ++ behind

end Forest

/-! ### The walk over a forest -/

/-- A walk over events leads from one place to another and finds something on its way. -/
def Walks (nesting : Nesting) (events : List BlockEvent) (after : Nesting) (found : List Finding) : Prop :=
  events.foldl Nesting.step nesting = after ∧ nesting.findings events = found

theorem Walks.append {nesting middle after : Nesting} {events events' : List BlockEvent}
    {found found' : List Finding} (hleft : Walks nesting events middle found)
    (hright : Walks middle events' after found') : Walks nesting (events ++ events') after (found ++ found') := by
  induction events generalizing nesting found with
  | nil =>
      obtain ⟨rfl, rfl⟩ := hleft
      exact hright
  | cons event rest ih =>
      obtain ⟨hstep, rfl⟩ := hleft
      obtain ⟨hafter, hfound⟩ := ih ⟨hstep, rfl⟩
      refine ⟨hafter, ?_⟩
      rw [List.cons_append, Nesting.findings, Nesting.findings, hfound, List.append_assoc]

/-- No factory waits for its block, and every open factory was opened further out. -/
structure Settled (nesting : Nesting) : Prop where
  pending_eq_none : nesting.pending = none
  depth_lt : ∀ factory ∈ nesting.stack, factory.depth < nesting.depth

/-- The place of a walk inside a block. -/
def inside (nesting : Nesting) : Opener → Nesting
  | .factory name => ⟨⟨name.text, nesting.depth⟩ :: nesting.stack, nesting.depth + 1, none⟩
  | _ => { nesting with depth := nesting.depth + 1 }

def Line.findings (line : Line) (offset : Nat) (outer : Option String) : List Finding :=
  let start := offset + line.indent.chars.length
  match line.code, outer with
  | .factory _, some factory => [.nested start factory]
  | .trait name, some factory => [.trait start name.text (traitWord.length + 2 + name.chars.length) factory]
  | _, _ => []

section Walk

variable {nesting : Nesting}

theorem innermost?_inside (nesting : Nesting) (opener : Opener) :
    (inside nesting opener).innermost? = opener.inner nesting.innermost? := by
  cases opener <;> rfl

theorem Settled.deeper (h : Settled nesting) : Settled { nesting with depth := nesting.depth + 1 } :=
  ⟨h.pending_eq_none, fun factory hmem => Nat.lt_succ_of_lt (h.depth_lt factory hmem)⟩

theorem Settled.inside (h : Settled nesting) (opener : Opener) : Settled (inside nesting opener) := by
  cases opener with
  | factory name =>
      refine ⟨rfl, fun factory hmem => ?_⟩
      rcases List.mem_cons.1 hmem with rfl | hmem
      · exact Nat.lt_succ_self nesting.depth
      · exact Nat.lt_succ_of_lt (h.depth_lt factory hmem)
  | trait name => exact h.deeper
  | block word => exact h.deeper
  | conditional word => exact h.deeper

theorem Settled.dropWhile_stack (h : Settled nesting) :
    nesting.stack.dropWhile (fun factory => nesting.depth ≤ factory.depth) = nesting.stack := by
  cases hstack : nesting.stack with
  | nil => rfl
  | cons factory rest =>
      have hlt := h.depth_lt factory (hstack ▸ List.mem_cons_self)
      simp [Nat.not_le.2 hlt]

theorem Settled.closeBlock_deeper (h : Settled nesting) :
    Nesting.closeBlock { nesting with depth := nesting.depth + 1 } = nesting := by
  have hstack := h.dropWhile_stack
  have hpending := h.pending_eq_none
  obtain ⟨stack, depth, pending⟩ := nesting
  simp only at hstack hpending
  simp [Nesting.closeBlock, hstack, hpending]

theorem Settled.closeBlock_inside (h : Settled nesting) (opener : Opener) :
    (Outline.inside nesting opener).closeBlock = nesting := by
  cases opener with
  | factory name =>
      rw [Outline.inside, Nesting.closeBlock, List.dropWhile_cons_of_pos (by simp)]
      exact h.closeBlock_deeper
  | trait name => exact h.closeBlock_deeper
  | block word => exact h.closeBlock_deeper
  | conditional word => exact h.closeBlock_deeper

theorem Settled.openBlock (h : Settled nesting) :
    nesting.openBlock = { nesting with depth := nesting.depth + 1 } := by
  rw [Nesting.openBlock, h.pending_eq_none]

theorem Settled.walks_opener (h : Settled nesting) (indent : Indent) (opener : Opener) (offset : Nat) :
    Walks nesting (Line.events ⟨indent, opener.code⟩ offset) (Outline.inside nesting opener)
      (Line.findings ⟨indent, opener.code⟩ offset nesting.innermost?) := by
  cases opener with
  | factory name =>
      refine ⟨rfl, ?_⟩
      cases houter : nesting.innermost? <;>
        simp [Line.events, Line.findings, Opener.code, Nesting.findings, Nesting.finding?, houter]
  | trait name =>
      refine ⟨h.openBlock, ?_⟩
      cases houter : nesting.innermost? <;>
        simp [Line.events, Line.findings, Opener.code, Nesting.findings, Nesting.finding?, houter]
  | block word => exact ⟨h.openBlock, rfl⟩
  | conditional word => exact ⟨rfl, rfl⟩

/-- The last line of a block leads back out of it. -/
theorem Settled.walks_close (h : Settled nesting) (opener : Opener) (indent : Indent) (offset : Nat)
    (outer : Option String) :
    Walks (Outline.inside nesting opener) (Line.events ⟨indent, .close⟩ offset) nesting
      (Line.findings ⟨indent, .close⟩ offset outer) :=
  ⟨h.closeBlock_inside opener, rfl⟩

theorem Settled.walks_attr (h : Settled nesting) (indent : Indent) (word : Identifier) (digits : Digits)
    (offset : Nat) (outer : Option String) :
    Walks nesting (Line.events ⟨indent, .attr word digits⟩ offset) nesting
      (Line.findings ⟨indent, .attr word digits⟩ offset outer) := by
  refine ⟨?_, rfl⟩
  have hclose := h.closeBlock_deeper
  rw [← h.openBlock] at hclose
  exact hclose

end Walk

/-! ### The lines of a forest in their places -/

/-- A line in its place: its number, and the innermost factory around it. -/
structure Placed where
  line : Line
  number : Nat
  outer : Option String

def Forest.placed (outer : Option String) (number : Nat) : Forest → List Placed
  | nil => []
  | blank indent rest => ⟨⟨indent, .blank⟩, number, outer⟩ :: rest.placed outer (number + 1)
  | attr indent word digits rest => ⟨⟨indent, .attr word digits⟩, number, outer⟩ :: rest.placed outer (number + 1)
  | node indent opener body closing rest =>
    ⟨⟨indent, opener.code⟩, number, outer⟩ ::
      (body.placed (opener.inner outer) (number + 1) ++
        ⟨⟨closing, .close⟩, number + body.lines.length + 1, outer⟩ ::
          rest.placed outer (number + body.lines.length + 2))

def Placed.findings (start : Nat → Nat) (p : Placed) : List Finding := p.line.findings (start p.number) p.outer

theorem Forest.map_placed (forest : Forest) (outer : Option String) (number : Nat) :
    (forest.placed outer number).map (fun p => (p.line, p.number)) = forest.lines.zipIdx number := by
  induction forest generalizing outer number with
  | nil => rfl
  | blank indent rest ih => rw [placed, lines, List.map_cons, ih, List.zipIdx_cons]
  | attr indent word digits rest ih => rw [placed, lines, List.map_cons, ih, List.zipIdx_cons]
  | node indent opener body closing rest ihbody ihrest =>
      have hclosing : number + 1 + body.lines.length = number + body.lines.length + 1 := by omega
      rw [placed, lines, List.map_cons, List.map_append, List.map_cons, ihbody, ihrest, List.zipIdx_cons,
        List.zipIdx_append, List.zipIdx_cons, hclosing]

/-- The walk over a forest is back where it was, and at every line it knows the innermost factory. -/
theorem Settled.walks_forest (start : Nat → Nat) (forest : Forest) {nesting : Nesting} (h : Settled nesting)
    (number : Nat) :
    Walks nesting ((forest.placed nesting.innermost? number).flatMap fun p => p.line.events (start p.number))
      nesting ((forest.placed nesting.innermost? number).flatMap (Placed.findings start)) := by
  induction forest generalizing nesting number with
  | nil => exact ⟨rfl, rfl⟩
  | blank indent rest ih => exact ih h (number + 1)
  | attr indent word digits rest ih => exact (h.walks_attr indent word digits _ _).append (ih h (number + 1))
  | node indent opener body closing rest ihbody ihrest =>
      have hopener := h.walks_opener indent opener (start number)
      have hbody := ihbody (h.inside opener) (number + 1)
      have hclose := h.walks_close opener closing (start (number + body.lines.length + 1)) nesting.innermost?
      have hrest := ihrest h (number + body.lines.length + 2)
      rw [innermost?_inside] at hbody
      simp only [Forest.placed, List.flatMap_cons, List.flatMap_append]
      exact hopener.append (hbody.append (hclose.append hrest))

end FactoryIndex.Outline
