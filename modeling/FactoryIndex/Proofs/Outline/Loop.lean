import FactoryIndex.Proofs.Outline.Parse

/-!
# Loops

The first line of a loop opens two blocks for the walk, one by its keyword and one by its `do`, but a loop has one
`end`. So every loop leaves a block open for good. The `end` of the block around it closes that one, the next `end`
further out closes the block whose own `end` has already passed, and so on: from the loop on, the blocks around it are
closed one `end` too late, and a factory among them takes in what follows it.

`leftOpen` are the blocks that a text leaves open in this way. They do no harm as long as the innermost factory among
them, if there is any, is the one that is around the next header anyway. `tidy` says so, and this is exactly when the
definitions are found as they are laid out.
-/

namespace FactoryIndex.Outline

open Pattern Text

/-! ### Lines of loops -/

def loopWords : List (List Char) := [['w', 'h', 'i', 'l', 'e'], ['u', 'n', 't', 'i', 'l']]

structure LoopWord where
  chars : List Char
  mem : chars ∈ loopWords

/-- A line, which may also be the first one of a loop. -/
inductive LoopLine where
  | plain (line : Line)
  | loop (indent : Indent) (keyword : LoopWord) (word : Identifier)

namespace LoopLine

def chars : LoopLine → List Char
  | plain line => line.chars
  | loop indent keyword word =>
    indent.chars ++ keyword.chars ++ ([' '] ++ (word.chars ++ ([' '] ++ ['d', 'o'])))

/-- The line with its header, if it has one; nothing else of a loop matters to headers. -/
def header : LoopLine → Line
  | plain line => line
  | loop indent _ _ => ⟨indent, .blank⟩

def tokens (offset : Nat) : LoopLine → List (Found BlockTokenParts)
  | plain line => line.tokens offset
  | loop indent keyword word => [
      ⟨offset, indent.chars.length + keyword.chars.length,
        ⟨.keyword, indent.chars.length, keyword.chars.length⟩⟩,
      ⟨offset + (indent.chars.length + keyword.chars.length + word.chars.length + 2), 2, ⟨.openDo, 0, 2⟩⟩]

def events (offset : Nat) : LoopLine → List BlockEvent
  | plain line => line.events offset
  | loop indent keyword word => [
      .token offset .keyword,
      .token (offset + (indent.chars.length + keyword.chars.length + word.chars.length + 2)) .openDo]

end LoopLine

section Scan

variable {before : Option Char} {tail : List Char}

theorem LoopWord.mem_blockKeywords (keyword : LoopWord) : keyword.chars ∈ blockKeywords := by
  have hwords : ∀ word ∈ loopWords, word ∈ blockKeywords := by decide
  exact hwords keyword.chars keyword.mem

theorem LoopWord.isNameChar_of_mem (keyword : LoopWord) : ∀ c ∈ keyword.chars, isNameChar c = true := by
  have hwords : ∀ word ∈ loopWords, word.all isNameChar = true := by decide
  exact List.all_eq_true.1 (hwords keyword.chars keyword.mem)

theorem LoopWord.ne_nil (keyword : LoopWord) : keyword.chars ≠ [] := by
  have hwords : ∀ word ∈ loopWords, word ≠ [] := by decide
  exact hwords keyword.chars keyword.mem

theorem Heads.loop {α : Type} {keyword : List Char} {recognise : Recogniser α} (h : Heads keyword recognise)
    (indent : Indent) (loopWord : LoopWord) (word : Identifier) (htail : endsLine tail = true) :
    Misses recognise before (LoopLine.loop indent loopWord word).chars tail := by
  have hne : loopWord.chars ≠ keyword := by
    have hwords : ∀ word ∈ loopWords, word ∉ [factoryWord, traitWord] := by decide
    intro heq
    have hmem := h.mem
    rw [← heq] at hmem
    exact hwords loopWord.chars loopWord.mem hmem
  refine Yields.misses_append (Yields.misses_append (h.indent indent) (h.word loopWord.isNameChar_of_mem rfl hne)) ?_
  refine Yields.misses_append (h.marks rfl) ?_
  exact (h.identifier word rfl).misses_append (h.do_word (closesWord_of_endsLine htail))

theorem yields_loop (indent : Indent) (keyword : LoopWord) (word : Identifier) (hbefore : opensLine before = true)
    (htail : endsLine tail = true) :
    Yields blockToken? before (LoopLine.loop indent keyword word).chars tail
      fun offset => (LoopLine.loop indent keyword word).tokens offset := by
  have hkeyword : Yields blockToken? before (indent.chars ++ keyword.chars)
      ([' '] ++ (word.chars ++ ([' '] ++ ['d', 'o'])) ++ tail) _ :=
    yields_keyword keyword.mem_blockKeywords indent hbefore
  have hline : opensLine (lastOr before (indent.chars ++ keyword.chars)) = false := by
    rw [lastOr_append]
    exact opensLine_lastOr_of_word keyword.isNameChar_of_mem keyword.ne_nil
  have hspace : Misses blockToken? (lastOr before (indent.chars ++ keyword.chars)) [' ']
      (word.chars ++ ([' '] ++ ['d', 'o']) ++ tail) := misses_mark hline (by decide) (by decide)
  have hword : Misses blockToken? (some ' ') word.chars ([' '] ++ ['d', 'o'] ++ tail) :=
    misses_word rfl word.isNameChar_of_mem rfl word.not_mem_tokenWords
  have hgap : Misses blockToken? (lastOr (some ' ') word.chars) [' '] (['d', 'o'] ++ tail) :=
    misses_mark (opensLine_lastOr_of_word word.isNameChar_of_mem word.ne_nil) (by decide) (by decide)
  have hdo := hspace.after_miss (hword.after_miss (hgap.after_miss (yields_do htail)))
  refine Yields.congr (hkeyword.append hdo) fun offset => ?_
  simp only [LoopLine.tokens, List.length_append, List.length_cons, List.length_nil, List.singleton_append,
    List.cons.injEq, Found.mk.injEq, and_true, true_and]
  omega

def loopScan : LineScan LoopLine where
  chars := LoopLine.chars
  factoryHeaders line := line.header.factoryHeaders
  traitHeaders line := line.header.traitHeaders
  tokens line offset := line.tokens offset
  events line offset := line.events offset
  yields_factoryHeader? line before tail hbefore htail := by
    cases line with
    | plain line => exact line.yields_factoryHeader? hbefore htail
    | loop indent keyword word => exact heads_factoryHeader?.loop indent keyword word htail
  yields_traitHeader? line before tail hbefore htail := by
    cases line with
    | plain line => exact line.yields_traitHeader? hbefore htail
    | loop indent keyword word => exact heads_traitHeader?.loop indent keyword word htail
  yields_blockToken? line before tail hbefore htail := by
    cases line with
    | plain line => exact line.yields_blockToken? hbefore htail
    | loop indent keyword word => exact yields_loop indent keyword word hbefore htail
  events_eq line offset := by
    cases line with
    | plain line => exact line.events_eq offset
    | loop indent keyword word => rfl
  pairwise_events line offset := by
    cases line with
    | plain line => exact line.pairwise_events offset
    | loop indent keyword word => simp [LoopLine.events, BlockEvent.offset]
  offset_of_mem_events line offset := by
    cases line with
    | plain line => exact line.offset_of_mem_events offset
    | loop indent keyword word =>
        simp [LoopLine.events, LoopLine.chars, BlockEvent.offset]
        omega

theorem LoopLine.isLaidOut_of_mem (line : LoopLine) : ∀ c ∈ line.chars, isLaidOut c = true := by
  cases line with
  | plain line => exact line.isLaidOut_of_mem
  | loop indent keyword word =>
      have hindent : indent.chars.all isLaidOut = true := by
        rw [List.all_eq_true]
        intro c hc
        simp [isLaidOut, indent.isIndent_of_mem c hc]
      rw [← List.all_eq_true]
      simp only [LoopLine.chars, List.all_append, hindent, all_isLaidOut_of_word keyword.isNameChar_of_mem,
        all_isLaidOut_of_word word.isNameChar_of_mem]
      rfl

end Scan

/-! ### Definitions with loops -/

inductive LoopOpener where
  | plain (opener : Opener)
  | loop (keyword : LoopWord) (word : Identifier)

namespace LoopOpener

def line (indent : Indent) : LoopOpener → LoopLine
  | plain opener => .plain ⟨indent, opener.code⟩
  | loop keyword word => .loop indent keyword word

def inner (outer : Option String) : LoopOpener → Option String
  | plain opener => opener.inner outer
  | loop _ _ => outer

/-- The blocks that the walk takes to be opened, the innermost first; the block of a factory has its name. -/
def opens : LoopOpener → List (Option String)
  | plain (.factory name) => [some name.text]
  | plain _ => [none]
  | loop _ _ => [none, none]

end LoopOpener

/-- Definitions as they are laid out, with loops among them. -/
inductive LoopForest where
  | nil
  | blank (indent : Indent) (rest : LoopForest)
  | attr (indent : Indent) (word : Identifier) (digits : Digits) (rest : LoopForest)
  | node (indent : Indent) (opener : LoopOpener) (body : LoopForest) (closing : Indent) (rest : LoopForest)

/-- The innermost factory among open blocks. -/
def innermostOf (blocks : List (Option String)) : Option String := blocks.findSome? id

/-- A line in its place: its number, the nearest factory around it, and what the walk takes for that. -/
structure Traced where
  line : Line
  number : Nat
  around : Option String
  taken : Option String

namespace LoopForest

def lines : LoopForest → List LoopLine
  | nil => []
  | blank indent rest => .plain ⟨indent, .blank⟩ :: rest.lines
  | attr indent word digits rest => .plain ⟨indent, .attr word digits⟩ :: rest.lines
  | node indent opener body closing rest =>
    opener.line indent :: (body.lines ++ .plain ⟨closing, .close⟩ :: rest.lines)

def text (forest : LoopForest) : List Char := unlines (forest.lines.map LoopLine.chars)

/-- The lines of a forest whose first line has the given number, each with the nearest factory around it. -/
def placed (outer : Option String) (number : Nat) : LoopForest → List Placed
  | nil => []
  | blank indent rest => ⟨⟨indent, .blank⟩, number, outer⟩ :: rest.placed outer (number + 1)
  | attr indent word digits rest => ⟨⟨indent, .attr word digits⟩, number, outer⟩ :: rest.placed outer (number + 1)
  | node indent opener body closing rest =>
    ⟨(opener.line indent).header, number, outer⟩ ::
      (body.placed (opener.inner outer) (number + 1) ++
        ⟨⟨closing, .close⟩, number + body.lines.length + 1, outer⟩ ::
          rest.placed outer (number + body.lines.length + 2))

/-- The factories of a forest, each with the nearest factory around it as its parent. -/
def factories (file : RawText) (forest : LoopForest) : List Factory :=
  (forest.placed none 0).filterMap (Placed.factory? file)

/-- The traits of a forest that lie inside a factory, each with the nearest factory around it. -/
def traits (file : RawText) (forest : LoopForest) : List Trait :=
  (forest.placed none 0).filterMap (Placed.trait? file)

/-- The blocks that are still open behind a forest, the innermost first: an `end` closes the innermost block. -/
def leftOpen : LoopForest → List (Option String)
  | nil => []
  | blank _ rest => rest.leftOpen
  | attr _ _ _ rest => rest.leftOpen
  | node _ opener body _ rest => rest.leftOpen ++ (body.leftOpen ++ opener.opens).tail

/-- The lines of a forest whose first line has the given number, between a factory and open blocks around it. -/
def traced (outer : Option String) (blocks : List (Option String)) (number : Nat) : LoopForest → List Traced
  | nil => []
  | blank indent rest =>
    ⟨⟨indent, .blank⟩, number, outer, innermostOf blocks⟩ :: rest.traced outer blocks (number + 1)
  | attr indent word digits rest =>
    ⟨⟨indent, .attr word digits⟩, number, outer, innermostOf blocks⟩ :: rest.traced outer blocks (number + 1)
  | node indent opener body closing rest =>
    let behind := (body.leftOpen ++ opener.opens).tail ++ blocks
    ⟨(opener.line indent).header, number, outer, innermostOf blocks⟩ ::
      (body.traced (opener.inner outer) (opener.opens ++ blocks) (number + 1) ++
        ⟨⟨closing, .close⟩, number + body.lines.length + 1, outer, innermostOf behind⟩ ::
          rest.traced outer behind (number + body.lines.length + 2))

end LoopForest

/-! ### The walk with open blocks -/

/-- The open factories among open blocks. -/
def stackOf : List (Option String) → List OpenFactory
  | [] => []
  | some name :: blocks => ⟨name, blocks.length⟩ :: stackOf blocks
  | none :: blocks => stackOf blocks

/-- The place of a walk inside open blocks. -/
def nestingOf (blocks : List (Option String)) : Nesting := ⟨stackOf blocks, blocks.length, none⟩

theorem innermost?_nestingOf (blocks : List (Option String)) : (nestingOf blocks).innermost? = innermostOf blocks := by
  induction blocks with
  | nil => rfl
  | cons block blocks ih =>
      cases block with
      | none => exact ih
      | some name => rfl

theorem settled_nestingOf (blocks : List (Option String)) : Settled (nestingOf blocks) := by
  refine ⟨rfl, ?_⟩
  induction blocks with
  | nil => exact fun _ hmem => absurd hmem List.not_mem_nil
  | cons block blocks ih =>
      have hdeeper : ∀ factory ∈ stackOf blocks, factory.depth < blocks.length + 1 :=
        fun factory hmem => Nat.lt_succ_of_lt (ih factory hmem)
      cases block with
      | none => exact hdeeper
      | some name => exact List.forall_mem_cons.2 ⟨Nat.lt_succ_self _, hdeeper⟩

theorem closeBlock_nestingOf (block : Option String) (blocks : List (Option String)) :
    (nestingOf (block :: blocks)).closeBlock = nestingOf blocks := by
  have hdeeper := (settled_nestingOf blocks).closeBlock_deeper
  cases block with
  | none => exact hdeeper
  | some name =>
      rw [nestingOf, stackOf, Nesting.closeBlock, List.dropWhile_cons_of_pos (by simp)]
      exact hdeeper

theorem walks_opener (start : Nat → Nat) (blocks : List (Option String)) (indent : Indent) (opener : LoopOpener)
    (number : Nat) :
    Walks (nestingOf blocks) ((opener.line indent).events (start number)) (nestingOf (opener.opens ++ blocks))
      ((Placed.mk (opener.line indent).header number (innermostOf blocks)).findings start) := by
  cases opener with
  | plain opener =>
      have hwalks := (settled_nestingOf blocks).walks_opener indent opener (start number)
      rw [innermost?_nestingOf] at hwalks
      have hinside : inside (nestingOf blocks) opener = nestingOf ((LoopOpener.plain opener).opens ++ blocks) := by
        cases opener <;> rfl
      rw [hinside] at hwalks
      exact hwalks
  | loop keyword word => exact ⟨rfl, rfl⟩

namespace Traced

/-- The line with the nearest factory around it. -/
def placed (t : Traced) : Placed := ⟨t.line, t.number, t.around⟩

/-- The line with the factory that the walk takes for the nearest one around it. -/
def walked (t : Traced) : Placed := ⟨t.line, t.number, t.taken⟩

end Traced

namespace LoopForest

theorem map_traced (forest : LoopForest) (outer : Option String) (blocks : List (Option String)) (number : Nat) :
    (forest.traced outer blocks number).map (fun t => (t.line, t.number)) =
      (forest.lines.zipIdx number).map fun item => (item.1.header, item.2) := by
  induction forest generalizing outer blocks number with
  | nil => rfl
  | blank indent rest ih => rw [traced, lines, List.map_cons, ih, List.zipIdx_cons, List.map_cons]; rfl
  | attr indent word digits rest ih => rw [traced, lines, List.map_cons, ih, List.zipIdx_cons, List.map_cons]; rfl
  | node indent opener body closing rest ihbody ihrest =>
      have hclosing : number + 1 + body.lines.length = number + body.lines.length + 1 := by omega
      simp only [traced, lines, List.map_cons, List.map_append, ihbody, ihrest, List.zipIdx_cons, List.zipIdx_append,
        hclosing]
      rfl

theorem map_placed_traced (forest : LoopForest) (outer : Option String) (blocks : List (Option String)) (number : Nat) :
    (forest.traced outer blocks number).map Traced.placed = forest.placed outer number := by
  induction forest generalizing outer blocks number with
  | nil => rfl
  | blank indent rest ih => exact congrArg _ (ih outer blocks (number + 1))
  | attr indent word digits rest ih => exact congrArg _ (ih outer blocks (number + 1))
  | node indent opener body closing rest ihbody ihrest =>
      simp only [traced, placed, List.map_cons, List.map_append, ihbody, ihrest]
      rfl

theorem opens_ne_nil (opener : LoopOpener) : opener.opens ≠ [] := by
  cases opener with
  | plain opener => cases opener <;> exact List.cons_ne_nil _ _
  | loop keyword word => exact List.cons_ne_nil _ _

/-- The walk over a forest leaves open what `leftOpen` says. -/
theorem walks_traced (start : Nat → Nat) (forest : LoopForest) (outer : Option String) (blocks : List (Option String))
    (number : Nat) :
    Walks (nestingOf blocks) ((forest.lines.zipIdx number).flatMap fun item => item.1.events (start item.2))
      (nestingOf (forest.leftOpen ++ blocks))
      ((forest.traced outer blocks number).flatMap fun t => t.walked.findings start) := by
  induction forest generalizing outer blocks number with
  | nil => exact ⟨rfl, rfl⟩
  | blank indent rest ih => exact ih outer blocks (number + 1)
  | attr indent word digits rest ih =>
      have hattr := (settled_nestingOf blocks).walks_attr indent word digits (start number) (innermostOf blocks)
      exact hattr.append (ih outer blocks (number + 1))
  | node indent opener body closing rest ihbody ihrest =>
      -- The body leaves some blocks open inside those of its opener; the `end` closes the innermost of them all.
      obtain ⟨block, left, hopen⟩ : ∃ block left, body.leftOpen ++ opener.opens = block :: left :=
        List.exists_cons_of_ne_nil (List.append_ne_nil_of_right_ne_nil _ (opens_ne_nil opener))
      have hopener := walks_opener start blocks indent opener number
      have hbody := ihbody (opener.inner outer) (opener.opens ++ blocks) (number + 1)
      have hclose : Walks (nestingOf (block :: (left ++ blocks)))
          (Line.events ⟨closing, .close⟩ (start (number + body.lines.length + 1))) (nestingOf (left ++ blocks)) [] :=
        ⟨closeBlock_nestingOf block (left ++ blocks), rfl⟩
      have hrest := ihrest outer (left ++ blocks) (number + body.lines.length + 2)
      rw [← List.append_assoc, hopen] at hbody
      have hnumber : number + 1 + body.lines.length = number + body.lines.length + 1 := by omega
      simp only [traced, lines, leftOpen, hopen, List.tail_cons, List.zipIdx_cons, List.zipIdx_append, hnumber,
        List.flatMap_cons, List.flatMap_append, List.append_assoc]
      exact hopener.append (hbody.append (hclose.append hrest))

theorem laid (forest : LoopForest) :
    Laid forest.text (lineStart (forest.lines.map LoopLine.chars)) ((forest.traced none [] 0).map Traced.walked) := by
  have hplaced : ((forest.traced none [] 0).map Traced.walked).map (fun p => (p.line, p.number)) =
      forest.lines.zipIdx.map fun item => (item.1.header, item.2) := by
    rw [List.map_map, ← forest.map_traced none [] 0]
    rfl
  refine Laid.of_lines loopScan (fun line => ?_) (fun _ _ => rfl) LoopLine.isLaidOut_of_mem hplaced ?_
  · cases line with
    | plain line =>
        show line.indent.chars.length ≤ line.chars.length
        rw [Line.chars, List.length_append]
        exact Nat.le_add_right _ _
    | loop indent keyword word =>
        show indent.chars.length ≤ (indent.chars ++ keyword.chars ++ _).length
        rw [List.append_assoc, List.length_append]
        exact Nat.le_add_right _ _
  · rw [loopScan.blockEvents_unlines, List.flatMap_map]
    exact (walks_traced (lineStart (forest.lines.map LoopLine.chars)) forest none [] 0).2

end LoopForest

/-! ### Where the walk is right -/

def Code.isHeader : Code → Bool
  | factory _ => true
  | trait _ => true
  | _ => false

/-- The walk is right about a line if it opens no definition, or if the walk knows the nearest factory around it. -/
def Traced.Right (t : Traced) : Prop := t.line.code.isHeader = true → t.taken = t.around

theorem Traced.right_of_isHeader_eq_false {t : Traced} (h : t.line.code.isHeader = false) : t.Right := by
  intro hheader
  rw [h] at hheader
  cases hheader

theorem Placed.number_of_factory? {file : RawText} {p : Placed} {factory : Factory}
    (h : p.factory? file = some factory) : factory.location.line = p.number ∧ factory.parent = p.outer := by
  unfold Placed.factory? at h
  split at h
  · cases h
    exact ⟨rfl, rfl⟩
  · cases h

theorem Placed.number_of_trait? {file : RawText} {p : Placed} {trait : Trait} (h : p.trait? file = some trait) :
    trait.location.line = p.number ∧ p.outer = some trait.factory := by
  unfold Placed.trait? at h
  split at h
  · next houter =>
    cases h
    exact ⟨rfl, houter⟩
  · cases h

/-- Definitions are told apart by the numbers of their lines. -/
theorem eq_some_of_filterMap_eq {δ : Type} {define : Placed → Option δ} {number : δ → Int}
    (hdefine : ∀ p definition, define p = some definition → number definition = p.number) {traced : List Traced}
    (hnumbers : (traced.map Traced.number).Nodup) {left right : Traced → Placed}
    (hleft : ∀ t, (left t).number = t.number) (hright : ∀ t, (right t).number = t.number)
    (heq : traced.filterMap (define ∘ left) = traced.filterMap (define ∘ right)) {t : Traced} (ht : t ∈ traced)
    {definition : δ} (hdefinition : define (left t) = some definition) : define (right t) = some definition := by
  have hmem : definition ∈ traced.filterMap (define ∘ left) := List.mem_filterMap.2 ⟨t, ht, hdefinition⟩
  rw [heq] at hmem
  obtain ⟨other, hother, hsame⟩ := List.mem_filterMap.1 hmem
  have hnumber : other.number = t.number := by
    have hline := (hdefine _ _ hsame).symm.trans (hdefine _ _ hdefinition)
    rw [hleft, hright] at hline
    exact Int.ofNat_inj.1 hline
  rwa [List.inj_on_of_nodup_map hnumbers hother ht hnumber] at hsame

/-- The definitions that the walk leads to are those that are there exactly if the walk is right about all lines. -/
theorem filterMap_walked_iff {traced : List Traced} (hnumbers : (traced.map Traced.number).Nodup) (file : RawText) :
    (traced.map Traced.walked).filterMap (Placed.factory? file) =
          (traced.map Traced.placed).filterMap (Placed.factory? file) ∧
        (traced.map Traced.walked).filterMap (Placed.trait? file) =
          (traced.map Traced.placed).filterMap (Placed.trait? file) ↔
      ∀ t ∈ traced, t.Right := by
  simp only [List.filterMap_map]
  constructor
  · rintro ⟨hfactories, htraits⟩ t ht hheader
    have hfactory := @eq_some_of_filterMap_eq _ (Placed.factory? file) (·.location.line)
      (fun _ _ h => (Placed.number_of_factory? h).1) traced hnumbers
    have htrait := @eq_some_of_filterMap_eq _ (Placed.trait? file) (·.location.line)
      (fun _ _ h => (Placed.number_of_trait? h).1) traced hnumbers
    cases hcode : t.line.code with
    | factory name =>
        have hwalked : t.walked.factory? file = some {
            name := name.text
            location := headerLocation file t.number t.line.indent factoryWord name
            parent := t.taken } := by
          simp only [Placed.factory?, Traced.walked, hcode]
        exact (Placed.number_of_factory? (hfactory (fun _ => rfl) (fun _ => rfl) hfactories ht hwalked)).2
    | trait name =>
        have hsome : ∀ p : Placed, p.line = t.line → ∀ {factory : String}, p.outer = some factory →
            p.trait? file = some ⟨name.text, headerLocation file p.number p.line.indent traitWord name, factory⟩ := by
          intro p hline factory houter
          simp only [Placed.trait?, hline, hcode, houter]
        apply Option.ext
        intro factory
        constructor
        · intro htaken
          have hwalked := hsome t.walked rfl htaken
          exact (Placed.number_of_trait? (htrait (fun _ => rfl) (fun _ => rfl) htraits ht hwalked)).2
        · intro haround
          have hplaced := hsome t.placed rfl haround
          exact (Placed.number_of_trait? (htrait (fun _ => rfl) (fun _ => rfl) htraits.symm ht hplaced)).2
    | blank | block | conditional | attr | close =>
        rw [hcode] at hheader
        cases hheader
  · intro hright
    have hplaced : ∀ t ∈ traced, t.line.code.isHeader = true → t.walked = t.placed := by
      intro t ht hheader
      rw [Traced.walked, hright t ht hheader]
      rfl
    constructor
    · apply List.filterMap_congr
      intro t ht
      cases hcode : t.line.code with
      | factory name => simp only [Function.comp_apply, hplaced t ht (by rw [hcode]; rfl)]
      | _ => simp [Placed.factory?, Traced.walked, Traced.placed, hcode]
    · apply List.filterMap_congr
      intro t ht
      cases hcode : t.line.code with
      | trait name => simp only [Function.comp_apply, hplaced t ht (by rw [hcode]; rfl)]
      | _ => simp [Placed.trait?, Traced.walked, Traced.placed, hcode]

namespace LoopForest

def headerless : LoopForest → Bool
  | nil => true
  | blank _ rest => rest.headerless
  | attr _ _ _ rest => rest.headerless
  | node indent opener body _ rest =>
    !(opener.line indent).header.code.isHeader && body.headerless && rest.headerless

/-- Whether the blocks that are left open do no harm to a forest with the given factory around it: where the innermost
factory behind a block is another one than before the block, no header follows. -/
def tidy (outer : Option String) : LoopForest → Bool
  | nil => true
  | blank _ rest => rest.tidy outer
  | attr _ _ _ rest => rest.tidy outer
  | node _ opener body _ rest =>
    body.tidy (opener.inner outer) &&
      if (innermostOf (body.leftOpen ++ opener.opens).tail).or outer = outer then rest.tidy outer else rest.headerless

theorem innermostOf_append (left blocks : List (Option String)) :
    innermostOf (left ++ blocks) = (innermostOf left).or (innermostOf blocks) := List.findSome?_append

theorem innermostOf_eq_none {blocks : List (Option String)} (h : ∀ block ∈ blocks, block = none) :
    innermostOf blocks = none := List.findSome?_eq_none_iff.2 h

theorem innermostOf_opens (opener : LoopOpener) (blocks : List (Option String)) :
    innermostOf (opener.opens ++ blocks) = opener.inner (innermostOf blocks) := by
  cases opener with
  | plain opener => cases opener <;> rfl
  | loop keyword word => rfl

theorem eq_none_of_mem_opens {indent : Indent} {opener : LoopOpener}
    (h : (opener.line indent).header.code.isHeader = false) : ∀ block ∈ opener.opens, block = none := by
  cases opener with
  | plain opener =>
      cases opener with
      | factory name => cases h
      | trait name | block word | conditional word => exact List.forall_mem_singleton.2 rfl
  | loop keyword word => exact List.forall_mem_cons.2 ⟨rfl, List.forall_mem_singleton.2 rfl⟩

theorem inner_of_isHeader_eq_false {indent : Indent} {opener : LoopOpener}
    (h : (opener.line indent).header.code.isHeader = false) (outer : Option String) : opener.inner outer = outer := by
  cases opener with
  | plain opener =>
      cases opener with
      | factory name => cases h
      | trait name | block word | conditional word => rfl
  | loop keyword word => rfl

theorem eq_none_of_mem_tail {indent : Indent} {opener : LoopOpener} {left : List (Option String)}
    (hopener : (opener.line indent).header.code.isHeader = false) (hleft : ∀ block ∈ left, block = none) :
    ∀ block ∈ (left ++ opener.opens).tail, block = none := by
  intro block hmem
  rcases List.mem_append.1 (List.mem_of_mem_tail hmem) with hmem | hmem
  · exact hleft block hmem
  · exact eq_none_of_mem_opens hopener block hmem

/-- Without headers no factory is left open. -/
theorem eq_none_of_mem_leftOpen {forest : LoopForest} (h : forest.headerless = true) :
    ∀ block ∈ forest.leftOpen, block = none := by
  induction forest with
  | nil => exact fun _ hmem => absurd hmem List.not_mem_nil
  | blank indent rest ih => exact ih h
  | attr indent word digits rest ih => exact ih h
  | node indent opener body closing rest ihbody ihrest =>
      rw [headerless, Bool.and_eq_true, Bool.and_eq_true, Bool.not_eq_true'] at h
      rw [leftOpen, List.forall_mem_append]
      exact ⟨ihrest h.2, eq_none_of_mem_tail h.1.1 (ihbody h.1.2)⟩

/-- Once the walk takes another factory for the nearest one, it is wrong about every header. -/
theorem right_traced_of_ne {forest : LoopForest} {outer : Option String} {blocks : List (Option String)} {number : Nat}
    (hne : innermostOf blocks ≠ outer) :
    (∀ t ∈ forest.traced outer blocks number, t.Right) ↔ forest.headerless = true := by
  induction forest generalizing blocks number with
  | nil => exact iff_of_true (fun _ hmem => absurd hmem List.not_mem_nil) rfl
  | blank indent rest ih =>
      rw [traced, List.forall_mem_cons, ih hne]
      exact and_iff_right (Traced.right_of_isHeader_eq_false rfl)
  | attr indent word digits rest ih =>
      rw [traced, List.forall_mem_cons, ih hne]
      exact and_iff_right (Traced.right_of_isHeader_eq_false rfl)
  | node indent opener body closing rest ihbody ihrest =>
      have hclosing : Traced.Right ⟨⟨closing, .close⟩, number + body.lines.length + 1, outer,
          innermostOf ((body.leftOpen ++ opener.opens).tail ++ blocks)⟩ := Traced.right_of_isHeader_eq_false rfl
      rw [traced, List.forall_mem_cons, List.forall_mem_append, List.forall_mem_cons, and_iff_right hclosing,
        headerless, Bool.and_eq_true, Bool.and_eq_true, Bool.not_eq_true', and_assoc]
      cases hheader : (opener.line indent).header.code.isHeader with
      | true => exact iff_of_false (fun h => hne (h.1 hheader)) nofun
      | false =>
          have hinside : innermostOf (opener.opens ++ blocks) ≠ outer := by
            rwa [innermostOf_opens, inner_of_isHeader_eq_false hheader]
          rw [inner_of_isHeader_eq_false hheader, ihbody hinside]
          refine and_congr (iff_of_true (Traced.right_of_isHeader_eq_false hheader) rfl) ?_
          refine and_congr_right fun hbody => ihrest ?_
          have hbehind := innermostOf_eq_none (eq_none_of_mem_tail hheader (eq_none_of_mem_leftOpen hbody))
          rwa [innermostOf_append, hbehind, Option.none_or]

theorem right_traced_iff {forest : LoopForest} {outer : Option String} {blocks : List (Option String)} {number : Nat}
    (houter : innermostOf blocks = outer) :
    (∀ t ∈ forest.traced outer blocks number, t.Right) ↔ forest.tidy outer = true := by
  induction forest generalizing outer blocks number with
  | nil => exact iff_of_true (fun _ hmem => absurd hmem List.not_mem_nil) rfl
  | blank indent rest ih =>
      rw [traced, List.forall_mem_cons, ih houter]
      exact and_iff_right fun _ => houter
  | attr indent word digits rest ih =>
      rw [traced, List.forall_mem_cons, ih houter]
      exact and_iff_right fun _ => houter
  | node indent opener body closing rest ihbody ihrest =>
      have hinner : innermostOf (opener.opens ++ blocks) = opener.inner outer := by rw [innermostOf_opens, houter]
      have hbehind : innermostOf ((body.leftOpen ++ opener.opens).tail ++ blocks) =
          (innermostOf (body.leftOpen ++ opener.opens).tail).or outer := by rw [innermostOf_append, houter]
      have hopening : Traced.Right ⟨(opener.line indent).header, number, outer, innermostOf blocks⟩ := fun _ => houter
      have hclosing : Traced.Right ⟨⟨closing, .close⟩, number + body.lines.length + 1, outer,
          innermostOf ((body.leftOpen ++ opener.opens).tail ++ blocks)⟩ := Traced.right_of_isHeader_eq_false rfl
      rw [traced, List.forall_mem_cons, List.forall_mem_append, List.forall_mem_cons, ihbody hinner,
        and_iff_right hopening, and_iff_right hclosing, tidy, Bool.and_eq_true]
      refine and_congr_right fun _ => ?_
      split
      · next h => exact ihrest (hbehind.trans h)
      · next h => exact right_traced_of_ne (hbehind ▸ h)

end LoopForest

/-! ### The definitions of a forest with loops -/

theorem LoopForest.nodup_numbers (forest : LoopForest) : ((forest.traced none [] 0).map Traced.number).Nodup := by
  have hnumbers : (forest.traced none [] 0).map Traced.number = List.range' 0 forest.lines.length := by
    have hpairs := congrArg (List.map Prod.snd) (forest.map_traced none [] 0)
    rw [List.map_map, List.map_map] at hpairs
    exact hpairs.trans (List.zipIdx_map_snd 0 forest.lines)
  rw [hnumbers]
  exact List.nodup_range'

theorem LoopForest.map_factories_parse (forest : LoopForest) (file : RawText) :
    (parse .scanner forest.text file).factories.map (fun factory => { factory with traits := .empty }) =
      ((forest.traced none [] 0).map Traced.walked).filterMap (Placed.factory? file) := by
  rw [forest.laid.parse_eq file, map_linkTraits (fun _ _ => rfl)]
  have hbare : ∀ factory ∈ ((forest.traced none [] 0).map Traced.walked).filterMap (Placed.factory? file),
      { factory with traits := .empty } = factory := by
    intro factory hmem
    obtain ⟨p, -, hfactory⟩ := List.mem_filterMap.1 hmem
    rw [← Placed.traits_of_factory? hfactory]
  rw [List.map_congr_left hbare, List.map_id']

/-- **Loops among definitions.** The scanner finds the factories as they are laid out, each with the nearest factory
around it as its parent, and the traits inside factories, each with the nearest factory around it, exactly if the
blocks that loops leave open do no harm. -/
theorem parse_loops_iff (forest : LoopForest) (file : RawText) :
    ((parse .scanner forest.text file).factories.map (fun factory => { factory with traits := .empty }) =
          forest.factories file ∧
        (parse .scanner forest.text file).traits = forest.traits file) ↔
      forest.tidy none = true := by
  have htraits : (parse .scanner forest.text file).traits =
      ((forest.traced none [] 0).map Traced.walked).filterMap (Placed.trait? file) := by
    rw [forest.laid.parse_eq file]
  rw [forest.map_factories_parse file, htraits, LoopForest.factories, LoopForest.traits,
    ← forest.map_placed_traced none [] 0, filterMap_walked_iff forest.nodup_numbers file]
  exact LoopForest.right_traced_iff rfl

-- Inside its factory a loop does no harm, whatever follows it there.
example :
    let user : Name := ⟨['u'], by decide, List.all_eq_true.1 rfl⟩
    let admin : Name := ⟨['a'], by decide, List.all_eq_true.1 rfl⟩
    let left : Indent := ⟨[], List.all_eq_true.1 rfl⟩
    let word : Identifier := ⟨⟨['x'], by decide, List.all_eq_true.1 rfl⟩, by decide⟩
    let forest : LoopForest := .node left (.plain (.factory user))
      (.node left (.loop ⟨_, List.mem_cons_self⟩ word) .nil left (.node left (.plain (.trait admin)) .nil left .nil))
      left .nil
    String.ofList forest.text = "factory :u do\nwhile x do\nend\ntrait :a do\nend\nend" ∧ forest.tidy none = true := by
  decide

/-- Behind a factory with a loop, a trait outside of all factories is taken to be the factory's. -/
theorem trait_taken_by_closed_factory :
    let user : Name := ⟨['u'], by decide, List.all_eq_true.1 rfl⟩
    let admin : Name := ⟨['a'], by decide, List.all_eq_true.1 rfl⟩
    let left : Indent := ⟨[], List.all_eq_true.1 rfl⟩
    let word : Identifier := ⟨⟨['x'], by decide, List.all_eq_true.1 rfl⟩, by decide⟩
    let forest : LoopForest := .node left (.plain (.factory user))
      (.node left (.loop ⟨_, List.mem_cons_self⟩ word) .nil left .nil) left
      (.node left (.plain (.trait admin)) .nil left .nil)
    String.ofList forest.text = "factory :u do\nwhile x do\nend\nend\ntrait :a do\nend" ∧
      forest.traits "f.rb" = [] ∧
      (parse .scanner forest.text "f.rb").traits.map Trait.toText = ["Trait: a in factory u at f.rb:5:1"] := by
  intro user admin left word forest
  refine ⟨by decide, by decide, ?_⟩
  rw [forest.laid.parse_eq "f.rb"]
  decide

end FactoryIndex.Outline
