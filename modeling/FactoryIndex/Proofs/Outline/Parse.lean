import FactoryIndex.Proofs.Outline.Forest
import FactoryIndex.Proofs.Outline.Location
import Mathlib.Data.List.Nodup

/-!
# Parsing nested definitions

Parsing a text in which definitions are laid out finds exactly these definitions. No line of such a text holds
a comment or a string, so the text is its own mask. Its headers are those of its lines, each at the position at
which it was laid out, and what the walk finds out at a header is the innermost factory around its line.
-/

namespace FactoryIndex.Outline

open Pattern Text

/-! ### The characters of a text -/

/-- The characters that lines are made of. -/
def isLaidOut (c : Char) : Bool := isNameChar c || isIndent c || [':', '{', '}'].contains c

theorem isPlain_of_isLaidOut {c : Char} (hc : isLaidOut c = true) : isPlain c = true := by
  refine isPlain_iff.2 ⟨?_, ?_, ?_, ?_, ?_⟩ <;> rintro rfl <;> exact absurd hc (by decide)

theorem all_isLaidOut_of_word {piece : List Char} (hpiece : ∀ c ∈ piece, isNameChar c = true) :
    piece.all isLaidOut = true := by
  rw [List.all_eq_true]
  intro c hc
  simp [isLaidOut, hpiece c hc]

theorem Code.all_isLaidOut (code : Code) : code.chars.all isLaidOut = true := by
  cases code with
  | blank => rfl
  | factory name =>
      simp only [Code.chars, List.all_append, all_isLaidOut_of_word name.isNameChar_of_mem]
      rfl
  | trait name =>
      simp only [Code.chars, List.all_append, all_isLaidOut_of_word name.isNameChar_of_mem]
      rfl
  | block word =>
      simp only [Code.chars, List.all_append, all_isLaidOut_of_word word.isNameChar_of_mem]
      rfl
  | conditional word =>
      simp only [Code.chars, List.all_append, all_isLaidOut_of_word word.isNameChar_of_mem]
      rfl
  | attr word digits =>
      simp only [Code.chars, List.all_append, all_isLaidOut_of_word word.isNameChar_of_mem,
        all_isLaidOut_of_word digits.isNameChar_of_mem]
      rfl
  | close => rfl

theorem Line.isLaidOut_of_mem (line : Line) : ∀ c ∈ line.chars, isLaidOut c = true := by
  refine List.forall_mem_append.2 ⟨fun c hc => ?_, List.all_eq_true.1 line.code.all_isLaidOut⟩
  simp [isLaidOut, line.indent.isIndent_of_mem c hc]

theorem newline_not_mem_chars (lines : List Line) : ∀ piece ∈ lines.map Line.chars, '\n' ∉ piece := by
  intro piece hpiece hmem
  obtain ⟨line, -, rfl⟩ := List.mem_map.1 hpiece
  exact absurd (line.isLaidOut_of_mem '\n' hmem) (by decide)

theorem isPlain_of_mem_unlines {pieces : List (List Char)}
    (hpieces : ∀ piece ∈ pieces, ∀ c ∈ piece, isLaidOut c = true) :
    ∀ c ∈ unlines pieces, isPlain c = true := by
  induction pieces with
  | nil => exact fun _ hmem => absurd hmem List.not_mem_nil
  | cons piece rest ih =>
      rw [List.forall_mem_cons] at hpieces
      have hpiece : ∀ c ∈ piece, isPlain c = true := fun c hc => isPlain_of_isLaidOut (hpieces.1 c hc)
      cases rest with
      | nil => exact hpiece
      | cons second others =>
          rw [unlines_cons piece (List.cons_ne_nil second others)]
          exact List.forall_mem_append.2 ⟨hpiece, List.forall_mem_cons.2 ⟨by decide, ih hpieces.2⟩⟩

theorem isPlain_of_mem_layOut (lines : List Line) : ∀ c ∈ layOut lines, isPlain c = true := by
  refine isPlain_of_mem_unlines fun piece hpiece => ?_
  obtain ⟨line, -, rfl⟩ := List.mem_map.1 hpiece
  exact line.isLaidOut_of_mem

/-! ### The definitions of the lines -/

def Placed.factory? (file : RawText) (p : Placed) : Option Factory :=
  match p.line.code with
  | .factory name => some {
      name := name.text
      location := headerLocation file p.number p.line.indent factoryWord name
      parent := p.outer }
  | _ => none

/-- The trait whose first line this is, if it lies inside a factory. -/
def Placed.trait? (file : RawText) (p : Placed) : Option Trait :=
  match p.line.code, p.outer with
  | .trait name, some factory =>
    some ⟨name.text, headerLocation file p.number p.line.indent traitWord name, factory⟩
  | _, _ => none

theorem Forest.filterMap_factory?_placed (file : RawText) (forest : Forest) (outer : Option String) (number : Nat) :
    (forest.placed outer number).filterMap (Placed.factory? file) = forest.factories file outer number := by
  induction forest generalizing outer number with
  | nil => rfl
  | blank indent rest ih => exact ih outer (number + 1)
  | attr indent word digits rest ih => exact ih outer (number + 1)
  | node indent opener body closing rest ihbody ihrest =>
      cases opener <;>
        simp [placed, factories, Opener.code, Placed.factory?, List.filterMap_cons, List.filterMap_append, ihbody,
          ihrest]

theorem Forest.filterMap_trait?_placed (file : RawText) (forest : Forest) (outer : Option String) (number : Nat) :
    (forest.placed outer number).filterMap (Placed.trait? file) = forest.traits file outer number := by
  induction forest generalizing outer number with
  | nil => rfl
  | blank indent rest ih => exact ih outer (number + 1)
  | attr indent word digits rest ih => exact ih outer (number + 1)
  | node indent opener body closing rest ihbody ihrest =>
      cases opener <;> cases outer <;>
        simp [placed, traits, Opener.code, Placed.trait?, List.filterMap_cons, List.filterMap_append, ihbody, ihrest]

/-! ### What the walk finds out at a header -/

def Placed.offset (start : Nat → Nat) (p : Placed) : Nat := start p.number + p.line.indent.chars.length

theorem Placed.mem_findings_iff {start : Nat → Nat} {p : Placed} {offset : Nat} {outer : String} :
    .nested offset outer ∈ p.findings start ↔
      (∃ name, p.line.code = .factory name) ∧ p.outer = some outer ∧ offset = p.offset start := by
  obtain ⟨⟨indent, code⟩, number, around⟩ := p
  cases code <;> cases around <;> simp [findings, Line.findings, Placed.offset, and_comm, eq_comm]

theorem enclosing?_eq {findings : List Finding} {offset : Nat} {outer : Option String}
    (hmem : ∀ other, .nested offset other ∈ findings ↔ outer = some other) : enclosing? findings offset = outer := by
  cases hfound : enclosing? findings offset with
  | some other =>
      obtain ⟨finding, hfinding, heq⟩ := List.exists_of_findSome?_eq_some hfound
      cases finding with
      | nested start around =>
          simp only [Option.ite_none_right_eq_some, Option.some.injEq] at heq
          obtain ⟨rfl, rfl⟩ := heq
          exact ((hmem around).1 hfinding).symm
      | trait start name length factory => cases heq
  | none =>
      cases outer with
      | none => rfl
      | some other =>
          have hnone := List.findSome?_eq_none_iff.1 hfound _ ((hmem other).2 rfl)
          simp at hnone

/-- A text in which lines stand at their places: they come in order, they hold all the headers, and what the walk finds
out at a header is the factory that comes with its line. -/
structure Laid (text : List Char) (start : Nat → Nat) (placed : List Placed) : Prop where
  mask_eq : mask text = text
  pairwise_offset : placed.Pairwise fun p q => p.offset start < q.offset start
  position_eq : ∀ p ∈ placed, (LineIndex.ofText text).position (p.offset start) = ⟨p.number, p.line.indent.chars.length⟩
  factoryHeaders_eq : factoryHeaders text = placed.flatMap fun p => p.line.factoryHeaders (start p.number)
  findings_eq : Nesting.findings {} (blockEvents text) = placed.flatMap (Placed.findings start)

namespace Laid

variable {text : List Char} {start : Nat → Nat} {placed : List Placed} {p : Placed}

theorem eq_of_offset_eq (h : Laid text start placed) {q : Placed} (hp : p ∈ placed) (hq : q ∈ placed)
    (hoffset : p.offset start = q.offset start) : p = q := by
  have hnodup : (placed.map (Placed.offset start)).Nodup := List.pairwise_map.2 (h.pairwise_offset.imp Nat.ne_of_lt)
  exact List.inj_on_of_nodup_map hnodup hp hq hoffset

theorem enclosing?_eq_outer (h : Laid text start placed) (hp : p ∈ placed) {name : Name}
    (hcode : p.line.code = .factory name) :
    enclosing? (placed.flatMap (Placed.findings start)) (p.offset start) = p.outer := by
  refine enclosing?_eq fun other => ?_
  rw [List.mem_flatMap]
  constructor
  · rintro ⟨q, hq, hfinding⟩
    obtain ⟨-, houter, hoffset⟩ := Placed.mem_findings_iff.1 hfinding
    rw [h.eq_of_offset_eq hp hq hoffset]
    exact houter
  · intro houter
    exact ⟨p, hp, Placed.mem_findings_iff.2 ⟨⟨name, hcode⟩, houter, rfl⟩⟩

theorem locate_eq (h : Laid text start placed) (hp : p ∈ placed) (file : RawText) (length : Nat) :
    locate (LineIndex.ofText text) file (p.offset start) length =
      ⟨file, p.number, some p.line.indent.chars.length, some length⟩ := by
  rw [locate, h.position_eq p hp]

theorem headerFactory_eq (h : Laid text start placed) (hp : p ∈ placed) (file : RawText) :
    (p.line.factoryHeaders (start p.number)).map (headerFactory (LineIndex.ofText text) file
      (placed.flatMap (Placed.findings start))) = (p.factory? file).toList := by
  cases hcode : p.line.code with
  | factory name =>
      have houter := h.enclosing?_eq_outer hp hcode
      have hlocation := h.locate_eq hp file (factoryWord.length + 2 + name.chars.length)
      rw [Placed.offset] at houter hlocation
      rw [Line.factoryHeaders, Placed.factory?, hcode]
      simp only [List.map_cons, List.map_nil, headerFactory, houter, Symbol.stop, hlocation]
      rfl
  | blank | trait | block | conditional | attr | close => simp [Line.factoryHeaders, Placed.factory?, hcode]

theorem scannedTraits_eq (h : Laid text start placed) (hp : p ∈ placed) (file : RawText) :
    scannedTraits (LineIndex.ofText text) file (p.findings start) = (p.trait? file).toList := by
  cases hcode : p.line.code with
  | trait name =>
      have hlocation := h.locate_eq hp file (traitWord.length + 2 + name.chars.length)
      rw [Placed.offset] at hlocation
      cases houter : p.outer with
      | none => simp [Placed.findings, Line.findings, Placed.trait?, scannedTraits, hcode, houter]
      | some factory =>
          simp only [Placed.findings, Line.findings, Placed.trait?, scannedTraits, hcode, houter, List.filterMap_cons,
            List.filterMap_nil, hlocation]
          rfl
  | factory =>
      cases houter : p.outer <;>
        simp [Placed.findings, Line.findings, Placed.trait?, scannedTraits, hcode, houter]
  | blank | block | conditional | attr | close =>
      simp [Placed.findings, Line.findings, Placed.trait?, scannedTraits, hcode]

theorem parse_eq (h : Laid text start placed) (file : RawText) :
    parse .scanner text file =
      ⟨linkTraits (placed.filterMap (Placed.trait? file)) (placed.filterMap (Placed.factory? file)),
        placed.filterMap (Placed.trait? file)⟩ := by
  have hfactories : (factoryHeaders text).map (headerFactory (LineIndex.ofText text) file
      (placed.flatMap (Placed.findings start))) = placed.filterMap (Placed.factory? file) := by
    rw [h.factoryHeaders_eq, List.map_flatMap, List.filterMap_eq_flatMap_toList]
    exact List.flatMap_congr fun p hp => h.headerFactory_eq hp file
  have htraits : scannedTraits (LineIndex.ofText text) file (placed.flatMap (Placed.findings start)) =
      placed.filterMap (Placed.trait? file) := by
    rw [scannedTraits, List.filterMap_flatMap, List.filterMap_eq_flatMap_toList]
    exact List.flatMap_congr fun p hp => h.scannedTraits_eq hp file
  simp only [parse, h.mask_eq, h.findings_eq, hfactories, htraits]

/-- Lines of any kind stand at their places. Of each line only its header counts, and the place of that. -/
theorem of_lines {σ : Type} (scan : LineScan σ) {header : σ → Line}
    (hindent : ∀ line, (header line).indent.chars.length ≤ (scan.chars line).length)
    (hheaders : ∀ line offset, scan.factoryHeaders line offset = (header line).factoryHeaders offset)
    (hlaidOut : ∀ line, ∀ c ∈ scan.chars line, isLaidOut c = true) {lines : List σ}
    (hplaced : placed.map (fun p => (p.line, p.number)) = lines.zipIdx.map fun item => (header item.1, item.2))
    (hfindings : Nesting.findings {} (blockEvents (unlines (lines.map scan.chars))) =
      placed.flatMap (Placed.findings (lineStart (lines.map scan.chars)))) :
    Laid (unlines (lines.map scan.chars)) (lineStart (lines.map scan.chars)) placed := by
  have hlength : (lines.map scan.chars).length = lines.length := List.length_map _
  have hpieces : ∀ piece ∈ lines.map scan.chars, ∀ c ∈ piece, isLaidOut c = true := by
    intro piece hpiece
    obtain ⟨line, -, rfl⟩ := List.mem_map.1 hpiece
    exact hlaidOut line
  refine ⟨mask_of_plain (isPlain_of_mem_unlines hpieces), ?_, fun p hp => ?_, ?_, hfindings⟩
  · have hpairs : (placed.map fun p => (p.line, p.number)).Pairwise fun a b =>
        lineStart (lines.map scan.chars) a.2 + a.1.indent.chars.length <
          lineStart (lines.map scan.chars) b.2 + b.1.indent.chars.length := by
      rw [hplaced, List.pairwise_map, List.pairwise_iff_getElem]
      intro i j hi hj hij
      rw [List.length_zipIdx] at hi hj
      have hlt := lineStart_add_lt hij (hlength ▸ Nat.le_of_lt hj) (hlength ▸ hi)
      rw [List.getElem_map] at hlt
      have hle := hindent lines[i]
      simp only [List.getElem_zipIdx, Nat.zero_add]
      omega
    rw [List.pairwise_map] at hpairs
    exact hpairs
  · have hpair : (p.line, p.number) ∈ placed.map fun q => (q.line, q.number) := List.mem_map.2 ⟨p, hp, rfl⟩
    rw [hplaced] at hpair
    obtain ⟨⟨line, number⟩, hitem, heq⟩ := List.mem_map.1 hpair
    obtain ⟨hline, hnumber⟩ := Prod.mk.inj heq
    obtain ⟨hlt, hget⟩ := List.getElem?_eq_some_iff.1 (List.mem_zipIdx_iff_getElem?.1 hitem)
    simp only at hline hnumber hlt hget
    subst hnumber hget
    rw [Placed.offset, ← hline]
    refine position_lineStart ?_ (hlength ▸ hlt) ?_
    · intro piece hpiece hmem
      exact absurd (hpieces piece hpiece '\n' hmem) (by decide)
    · rw [List.getElem_map]
      exact hindent _
  · have hpairs := congrArg (List.flatMap fun pair : Line × Nat =>
      pair.1.factoryHeaders (lineStart (lines.map scan.chars) pair.2)) hplaced
    rw [List.flatMap_map, List.flatMap_map] at hpairs
    rw [scan.factoryHeaders_unlines]
    simp only [hheaders]
    exact hpairs.symm

end Laid

/-! ### The definitions of a forest -/

theorem Forest.findings_text (forest : Forest) :
    Nesting.findings {} (blockEvents forest.text) =
      (forest.placed none 0).flatMap (Placed.findings (startOf forest.lines)) := by
  have hsettled : Settled {} := ⟨rfl, fun _ hmem => absurd hmem List.not_mem_nil⟩
  have hwalk := (hsettled.walks_forest (startOf forest.lines) forest 0).2
  rw [text, blockEvents_layOut, ← map_placed forest none 0, List.flatMap_map]
  exact hwalk

theorem Forest.laid (forest : Forest) : Laid forest.text (startOf forest.lines) (forest.placed none 0) := by
  have hplaced : (forest.placed none 0).map (fun p => (p.line, p.number)) =
      forest.lines.zipIdx.map fun item => (id item.1, item.2) := by
    rw [map_placed]
    exact (List.map_id' _).symm
  refine Laid.of_lines lineScan (fun line => ?_) (fun _ _ => rfl) Line.isLaidOut_of_mem hplaced forest.findings_text
  show line.indent.chars.length ≤ line.chars.length
  rw [Line.chars, List.length_append]
  exact Nat.le_add_right _ _

theorem Forest.parse_text (forest : Forest) (file : RawText) :
    parse .scanner forest.text file =
      ⟨linkTraits (forest.traits file none 0) (forest.factories file none 0), forest.traits file none 0⟩ := by
  rw [forest.laid.parse_eq file, filterMap_trait?_placed, filterMap_factory?_placed]

theorem Placed.traits_of_factory? {file : RawText} {p : Placed} {factory : Factory}
    (h : p.factory? file = some factory) : factory.traits = .empty := by
  unfold Placed.factory? at h
  split at h
  · cases h
    rfl
  · cases h

theorem Forest.traits_of_mem_factories {forest : Forest} {file : RawText} {outer : Option String} {number : Nat}
    {factory : Factory} (hmem : factory ∈ forest.factories file outer number) : factory.traits = .empty := by
  rw [← filterMap_factory?_placed] at hmem
  obtain ⟨p, -, hfactory⟩ := List.mem_filterMap.1 hmem
  exact Placed.traits_of_factory? hfactory

/-- **Parsing inverts laying out.** Whatever definitions are laid out, the scanner finds exactly the factories, each
before those inside it and with the innermost factory around it as its parent, and exactly the traits that lie inside
a factory, in document order and each with the innermost factory around it, all of them at the line and the
column of their headers and with the length of their headers. -/
theorem parse_layOut (forest : Forest) (file : RawText) :
    (parse .scanner forest.text file).factories.map (fun factory => { factory with traits := .empty }) =
        forest.factories file none 0 ∧
      (parse .scanner forest.text file).traits = forest.traits file none 0 := by
  rw [forest.parse_text file, map_linkTraits (fun _ _ => rfl)]
  refine ⟨?_, rfl⟩
  have hbare : ∀ factory ∈ forest.factories file none 0, { factory with traits := .empty } = factory := by
    intro factory hmem
    rw [← Forest.traits_of_mem_factories hmem]
  rw [List.map_congr_left hbare, List.map_id']

-- A trait after a nested factory belongs to the factory around both.
example :
    let user : Name := ⟨['u'], by decide, List.all_eq_true.1 rfl⟩
    let admin : Name := ⟨['a'], by decide, List.all_eq_true.1 rfl⟩
    let active : Name := ⟨['v'], by decide, List.all_eq_true.1 rfl⟩
    let left : Indent := ⟨[], List.all_eq_true.1 rfl⟩
    let right : Indent := ⟨['\t'], List.all_eq_true.1 rfl⟩
    let forest : Forest := .node left (.factory user)
      (.node right (.factory admin) .nil right (.node right (.trait active) .nil right .nil)) left .nil
    String.ofList forest.text = "factory :u do\n\tfactory :a do\n\tend\n\ttrait :v do\n\tend\nend" ∧
      (forest.factories "f.rb" none 0).map Factory.parent = [none, some "u"] ∧
      (forest.traits "f.rb" none 0).map Trait.toText = ["Trait: v in factory u at f.rb:4:2"] := by
  decide

end FactoryIndex.Outline
