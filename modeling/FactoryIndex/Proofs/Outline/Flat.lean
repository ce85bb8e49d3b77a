import FactoryIndex.Proofs.Outline.Forest
import FactoryIndex.Proofs.Outline.Moving
import FactoryIndex.Proofs.Outline.Parse
import FactoryIndex.Proofs.Pattern.Seam

/-!
# Files without nested factories

A flat file lists factories, none inside another, each with attributes and with traits that hold attributes
themselves. Everything stands on lines of its own after any spaces and tabs, and all of it may be wrapped in one
further block. The two ways of finding out which factory a trait belongs to agree on such files: the walk is outside all
factories at every header, and the bodies that are cut at the next header hold the traits of their own factory
and no others.
-/

namespace FactoryIndex.Outline

open Pattern Text

/-! ### Flat files -/

structure Attr where
  indent : Indent
  word : Identifier
  digits : Digits

def Attr.line (a : Attr) : Line := ⟨a.indent, .attr a.word a.digits⟩

/-- What a factory holds. -/
inductive Item where
  | attr (a : Attr)
  | trait (indent : Indent) (name : Name) (attrs : List Attr) (closing : Indent)

def Item.lines : Item → List Line
  | attr a => [a.line]
  | trait indent name attrs closing =>
    ⟨indent, .trait name⟩ :: (attrs.map Attr.line ++ [⟨closing, .close⟩])

/-- A factory without factories inside it. -/
structure FlatFactory where
  indent : Indent
  name : Name
  items : List Item
  closing : Indent

namespace FlatFactory

def header (factory : FlatFactory) : Line := ⟨factory.indent, .factory factory.name⟩

def body (factory : FlatFactory) : List Line := factory.items.flatMap Item.lines

def lines (factory : FlatFactory) : List Line := factory.header :: (factory.body ++ [⟨factory.closing, .close⟩])

end FlatFactory

/-- The block around all definitions of a file: the spaces and tabs before its first line and before its `end`. -/
structure Wrapper where
  indent : Indent
  closing : Indent

def Wrapper.line (wrapper : Wrapper) : List Char :=
  wrapper.indent.chars ++ ("FactoryBot".toList ++ (['.'] ++ ("define".toList ++ ([' '] ++ ['d', 'o']))))

/-- A file of factories that are not nested, with blanks behind its last `end`. -/
structure FlatFile where
  wrapper : Option Wrapper
  factories : List FlatFactory
  trailing : List Char
  isBlank_of_mem : ∀ c ∈ trailing, isBlank c = true

namespace FlatFile

/-- The lines of a file but for the first line of the block around it. -/
def lines (flat : FlatFile) : List Line :=
  flat.factories.flatMap FlatFactory.lines ++ (flat.wrapper.map fun wrapper => ⟨wrapper.closing, .close⟩).toList

/-- The text of a file but for the first line of the block around it. -/
def inner (flat : FlatFile) : List Char := layOut flat.lines ++ flat.trailing

def text (flat : FlatFile) : List Char :=
  match flat.wrapper with
  | none => flat.inner
  | some wrapper => wrapper.line ++ '\n' :: flat.inner

end FlatFile

/-! ### Lines and their offsets -/

def below (lines : List Line) : List Char := lines.flatMap fun line => '\n' :: line.chars

theorem below_append (upper lower : List Line) : below (upper ++ lower) = below upper ++ below lower :=
  List.flatMap_append

theorem layOut_cons (line : Line) (lines : List Line) : layOut (line :: lines) = line.chars ++ below lines := by
  induction lines generalizing line with
  | nil => exact (List.append_nil _).symm
  | cons second others ih =>
      have hjoin : layOut (line :: second :: others) = line.chars ++ '\n' :: layOut (second :: others) := rfl
      rw [hjoin, ih]
      rfl

theorem below_cons (line : Line) (lines : List Line) : below (line :: lines) = '\n' :: layOut (line :: lines) := by
  rw [layOut_cons]
  rfl

/-- Lines with their offsets, the first one at the given offset. -/
def places : Nat → List Line → List (Line × Nat)
  | _, [] => []
  | offset, line :: rest => (line, offset) :: places (offset + line.chars.length + 1) rest

theorem places_append (offset : Nat) (upper lower : List Line) :
    places offset (upper ++ lower) = places offset upper ++ places (offset + (below upper).length) lower := by
  induction upper generalizing offset with
  | nil => rfl
  | cons line rest ih =>
      have hwidth : offset + (below (line :: rest)).length =
          offset + line.chars.length + 1 + (below rest).length := by
        simp only [below, List.flatMap_cons, List.length_append, List.length_cons]
        omega
      rw [List.cons_append, places, ih, places, List.cons_append, hwidth]

theorem places_shift (n offset : Nat) (lines : List Line) :
    places (n + offset) lines = (places offset lines).map fun place => (place.1, n + place.2) := by
  induction lines generalizing offset with
  | nil => rfl
  | cons line rest ih =>
      have hrest := ih (offset + line.chars.length + 1)
      rw [← Nat.add_assoc, ← Nat.add_assoc] at hrest
      rw [places, places, hrest]
      rfl

theorem mem_of_mem_places {offset : Nat} {lines : List Line} {place : Line × Nat} (hmem : place ∈ places offset lines) :
    place.1 ∈ lines := by
  induction lines generalizing offset with
  | nil => exact absurd hmem List.not_mem_nil
  | cons line rest ih =>
      rcases List.mem_cons.1 hmem with rfl | hmem
      · exact List.mem_cons_self
      · exact List.mem_cons_of_mem line (ih hmem)

theorem flatMap_zipIdx {β : Type} (found : Line → Nat → List β) (lines : List Line) (offset : Nat) :
    (lines.zipIdx.flatMap fun item => found item.1 (offset + startOf lines item.2)) =
      (places offset lines).flatMap fun place => found place.1 place.2 := by
  induction lines generalizing offset with
  | nil => rfl
  | cons line rest ih =>
      have hzip : (line :: rest).zipIdx = (line, 0) :: rest.zipIdx.map (Prod.map id (· + 1)) := List.zipIdx_cons'
      have hfirst : startOf (line :: rest) 0 = 0 := rfl
      rw [hzip, List.flatMap_cons, List.flatMap_map, places, List.flatMap_cons, ← ih]
      simp only [Prod.map_fst, Prod.map_snd, id_eq, startOf_cons_succ, hfirst, Nat.add_assoc, Nat.add_zero]

/-! ### The walk over a flat file -/

def eventsOf (offset : Nat) (lines : List Line) : List BlockEvent :=
  (places offset lines).flatMap fun place => place.1.events place.2

def findingsOf (outer : Option String) (offset : Nat) (lines : List Line) : List Finding :=
  (places offset lines).flatMap fun place => place.1.findings place.2 outer

theorem eventsOf_cons (offset : Nat) (line : Line) (lines : List Line) :
    eventsOf offset (line :: lines) = line.events offset ++ eventsOf (offset + line.chars.length + 1) lines := rfl

theorem findingsOf_cons (outer : Option String) (offset : Nat) (line : Line) (lines : List Line) :
    findingsOf outer offset (line :: lines) =
      line.findings offset outer ++ findingsOf outer (offset + line.chars.length + 1) lines := rfl

theorem eventsOf_append (offset : Nat) (upper lower : List Line) :
    eventsOf offset (upper ++ lower) = eventsOf offset upper ++ eventsOf (offset + (below upper).length) lower := by
  rw [eventsOf, places_append, List.flatMap_append]
  rfl

theorem findingsOf_append (outer : Option String) (offset : Nat) (upper lower : List Line) :
    findingsOf outer offset (upper ++ lower) =
      findingsOf outer offset upper ++ findingsOf outer (offset + (below upper).length) lower := by
  rw [findingsOf, places_append, List.flatMap_append]
  rfl

section Walk

variable {nesting : Nesting}

theorem Settled.walks_attrs (h : Settled nesting) (attrs : List Attr) (offset : Nat)
    (outer : Option String) :
    Walks nesting (eventsOf offset (attrs.map Attr.line)) nesting
      (findingsOf outer offset (attrs.map Attr.line)) := by
  induction attrs generalizing offset with
  | nil => exact ⟨rfl, rfl⟩
  | cons a rest ih => exact (h.walks_attr a.indent a.word a.digits offset outer).append (ih _)

theorem Settled.walks_end (h : Settled nesting) (opener : Opener) (closing : Indent) (offset : Nat) :
    Walks (Outline.inside nesting opener) (eventsOf offset [⟨closing, .close⟩]) nesting [] :=
  ⟨h.closeBlock_inside opener, rfl⟩

theorem Settled.walks_item (h : Settled nesting) (item : Item) (offset : Nat) :
    Walks nesting (eventsOf offset item.lines) nesting (findingsOf nesting.innermost? offset item.lines) := by
  cases item with
  | attr a => exact h.walks_attrs [a] offset nesting.innermost?
  | trait indent name attrs closing =>
      rw [Item.lines, eventsOf_cons, findingsOf_cons, eventsOf_append, findingsOf_append]
      refine (h.walks_opener indent (.trait name) offset).append ?_
      refine ((h.inside (.trait name)).walks_attrs attrs _ _).append ?_
      exact h.walks_end (.trait name) closing _

theorem Settled.walks_items (h : Settled nesting) (items : List Item) (offset : Nat) :
    Walks nesting (eventsOf offset (items.flatMap Item.lines)) nesting
      (findingsOf nesting.innermost? offset (items.flatMap Item.lines)) := by
  induction items generalizing offset with
  | nil => exact ⟨rfl, rfl⟩
  | cons item rest ih =>
      rw [List.flatMap_cons, eventsOf_append, findingsOf_append]
      exact (h.walks_item item offset).append (ih _)

def FlatFactory.findings (factory : FlatFactory) (offset : Nat) : List Finding :=
  findingsOf (some factory.name.text) (offset + factory.header.chars.length + 1) factory.body

/-- What is found out about factories, the first of which is at the given offset. -/
def traitsFound : Nat → List FlatFactory → List Finding
  | _, [] => []
  | offset, factory :: rest => factory.findings offset ++ traitsFound (offset + (below factory.lines).length) rest

theorem Settled.walks_factory (h : Settled nesting) (houtside : nesting.innermost? = none) (factory : FlatFactory)
    (offset : Nat) : Walks nesting (eventsOf offset factory.lines) nesting (factory.findings offset) := by
  have hopener := h.walks_opener factory.indent (.factory factory.name) offset
  have hbody := (h.inside (.factory factory.name)).walks_items factory.items (offset + factory.header.chars.length + 1)
  have hclose := h.walks_end (.factory factory.name) factory.closing
    (offset + factory.header.chars.length + 1 + (below factory.body).length)
  rw [houtside] at hopener
  rw [innermost?_inside] at hbody
  rw [FlatFactory.lines, eventsOf_cons, eventsOf_append, FlatFactory.findings]
  have hwalk := hopener.append (hbody.append hclose)
  rw [List.append_nil] at hwalk
  exact hwalk

theorem Settled.walks_factories (h : Settled nesting) (houtside : nesting.innermost? = none)
    (factories : List FlatFactory) (offset : Nat) :
    Walks nesting (eventsOf offset (factories.flatMap FlatFactory.lines)) nesting (traitsFound offset factories) := by
  induction factories generalizing offset with
  | nil => exact ⟨rfl, rfl⟩
  | cons factory rest ih =>
      rw [List.flatMap_cons, eventsOf_append]
      exact (h.walks_factory houtside factory offset).append (ih _)

end Walk

/-! ### The blanks behind a flat file -/

theorem FlatFile.lines_eq (flat : FlatFile) :
    flat.lines = [] ∨ ∃ upper closing, flat.lines = upper ++ [⟨closing, .close⟩] := by
  unfold FlatFile.lines
  cases flat.wrapper with
  | some wrapper => exact Or.inr ⟨_, wrapper.closing, rfl⟩
  | none =>
      rcases List.eq_nil_or_concat' flat.factories with hnil | ⟨others, factory, hfactories⟩
      · rw [hnil]
        exact Or.inl rfl
      · refine Or.inr ⟨others.flatMap FlatFactory.lines ++ factory.header :: factory.body, factory.closing, ?_⟩
        simp [hfactories, FlatFactory.lines]

/-- The last line of a text is an `end` of its own. -/
theorem exists_layOut_eq (upper : List Line) (closing : Indent) :
    ∃ front, layOut (upper ++ [⟨closing, .close⟩]) = front ++ (endWord ++ []) ∧
      opensToken (lastOr none front) = true := by
  have hopens : ∀ {before : Option Char}, opensLine before = true →
      opensToken (lastOr before closing.chars) = true := fun hline =>
    opensToken_of_opensCode (opensCode_lastOr closing hline)
  cases upper with
  | nil => exact ⟨closing.chars, rfl, hopens rfl⟩
  | cons line rest =>
      refine ⟨line.chars ++ below rest ++ ['\n'] ++ closing.chars, ?_, ?_⟩
      · rw [List.cons_append, layOut_cons, below_append]
        simp [below, Line.chars, Code.chars, endWord]
      · rw [lastOr_append, lastOr_append]
        exact hopens rfl

theorem FlatFile.occurrences_inner {α : Type} {recognise : Recogniser α} (hseamless : Seamless recognise)
    (flat : FlatFile) :
    occurrences recognise flat.inner = occurrences recognise (layOut flat.lines) := by
  have hlocal : Local recognise none (layOut flat.lines) flat.trailing := by
    rcases flat.lines_eq with hnil | ⟨upper, closing, hlines⟩
    · rw [hnil]
      intro left right hempty hne
      exact absurd (List.append_eq_nil_iff.1 hempty.symm).2 hne
    · obtain ⟨front, htext, hopens⟩ := exists_layOut_eq upper closing
      rw [hlines, htext]
      exact hseamless.local_of_end hopens (fun _ hmem => absurd hmem List.not_mem_nil)
        (quiet_of_blank flat.isBlank_of_mem)
  rw [inner, occurrences, occurrencesFrom_append hseamless.fits hlocal (Nat.zero_le _),
    occurrencesFrom_blank hseamless.quiet flat.isBlank_of_mem, List.append_nil]
  rfl

theorem FlatFile.blockEvents_inner (flat : FlatFile) : blockEvents flat.inner = eventsOf 0 flat.lines := by
  have hfactories := flat.occurrences_inner seamless_factoryHeader?
  have htraits := flat.occurrences_inner seamless_traitHeader?
  have htokens := flat.occurrences_inner seamless_blockToken?
  have hlayOut : blockEvents flat.inner = blockEvents (layOut flat.lines) := by
    rw [blockEvents_eq, factoryHeaders, traitHeaders, blockTokens, hfactories, htraits, htokens]
    rfl
  have hplaces := flatMap_zipIdx Line.events flat.lines 0
  simp only [Nat.zero_add] at hplaces
  rw [hlayOut, blockEvents_layOut, hplaces]
  rfl

/-- A walk that starts outside all factories finds out the factory of each trait of a flat file. -/
theorem FlatFile.findings_inner (flat : FlatFile) {nesting : Nesting} (h : Settled nesting)
    (houtside : nesting.innermost? = none) :
    nesting.findings (blockEvents flat.inner) = traitsFound 0 flat.factories := by
  have hwalk := h.walks_factories houtside flat.factories 0
  have hends : ∀ ends, nesting.findings (eventsOf 0 (flat.factories.flatMap FlatFactory.lines) ++ ends) =
      traitsFound 0 flat.factories ++ nesting.findings ends := fun ends => (hwalk.append ⟨rfl, rfl⟩).2
  rw [blockEvents_inner, lines, eventsOf_append, hends]
  cases flat.wrapper with
  | none => exact List.append_nil _
  | some wrapper => exact List.append_nil _

/-! ### The block around a flat file -/

section Wrapper

variable {before : Option Char} {tail : List Char}

theorem Heads.wrapper {α : Type} {keyword : List Char} {recognise : Recogniser α} (h : Heads keyword recognise)
    (wrapper : Wrapper) (htail : endsLine tail = true) : Misses recognise before wrapper.line tail := by
  have hbot : "FactoryBot".toList ≠ keyword := by
    rintro rfl
    exact absurd h.mem (by decide)
  have hdefine : "define".toList ≠ keyword := by
    rintro rfl
    exact absurd h.mem (by decide)
  refine Yields.misses_append (h.indent wrapper.indent) ?_
  refine Yields.misses_append (h.word (List.all_eq_true.1 rfl) rfl hbot) ?_
  refine Yields.misses_append (h.marks rfl) ?_
  exact Yields.misses_append (h.word (List.all_eq_true.1 rfl) rfl hdefine) (h.do_word (closesWord_of_endsLine htail))

theorem Wrapper.yields_blockToken? (wrapper : Wrapper) (htail : endsLine tail = true) :
    Yields blockToken? before wrapper.line tail
      fun offset => [⟨offset + (wrapper.indent.chars.length + 18), 2, ⟨.openDo, 0, 2⟩⟩] := by
  have hstart : Misses blockToken? before (wrapper.indent.chars ++ "FactoryBot".toList)
      (['.'] ++ ("define".toList ++ ([' '] ++ ['d', 'o'])) ++ tail) :=
    misses_start wrapper.indent (List.all_eq_true.1 rfl) (by decide) rfl (by decide) (by decide)
  have hline : opensLine (lastOr before (wrapper.indent.chars ++ "FactoryBot".toList)) = false := by
    rw [lastOr_append]
    rfl
  have hdot : Misses blockToken? (lastOr before (wrapper.indent.chars ++ "FactoryBot".toList)) ['.']
      ("define".toList ++ ([' '] ++ ['d', 'o']) ++ tail) := misses_mark hline (by decide) (by decide)
  have hdefine : Misses blockToken? (some '.') "define".toList ([' '] ++ ['d', 'o'] ++ tail) :=
    misses_word rfl (List.all_eq_true.1 rfl) rfl (by decide)
  have hspace : Misses blockToken? (some 'e') [' '] (['d', 'o'] ++ tail) := misses_mark rfl (by decide) (by decide)
  have hdo := hdot.after_miss (hdefine.after_miss (hspace.after_miss (yields_do htail)))
  rw [Wrapper.line, ← List.append_assoc]
  refine Yields.congr (hstart.after_miss hdo) fun offset => ?_
  simp only [List.length_append, List.length_cons, List.length_nil, List.cons.injEq, Found.mk.injEq, and_true]
  have hlength : "FactoryBot".toList.length = 10 ∧ "define".toList.length = 6 := by decide
  omega

theorem Wrapper.blockEvents_under (wrapper : Wrapper) (text : List Char) :
    blockEvents (wrapper.line ++ '\n' :: text) =
      .token (wrapper.indent.chars.length + 18) .openDo ::
        (blockEvents text).map (.shift (wrapper.line.length + 1)) := by
  have hfactories : factoryHeaders (wrapper.line ++ '\n' :: text) =
      [] ++ (factoryHeaders text).map (Found.shift (wrapper.line.length + 1)) :=
    restarts_factoryHeader?.occurrences_under (heads_factoryHeader?.wrapper wrapper rfl)
  have htraits : traitHeaders (wrapper.line ++ '\n' :: text) =
      [] ++ (traitHeaders text).map (Found.shift (wrapper.line.length + 1)) :=
    restarts_traitHeader?.occurrences_under (heads_traitHeader?.wrapper wrapper rfl)
  have htokens : blockTokens (wrapper.line ++ '\n' :: text) =
      [⟨0 + (wrapper.indent.chars.length + 18), 2, ⟨.openDo, 0, 2⟩⟩] ++
        (blockTokens text).map (Found.shift (wrapper.line.length + 1)) :=
    restarts_blockToken?.occurrences_under (wrapper.yields_blockToken? rfl)
  have hfirst : eventsFrom [] [] [⟨0 + (wrapper.indent.chars.length + 18), 2, ⟨.openDo, 0, 2⟩⟩] =
      [.token (wrapper.indent.chars.length + 18) .openDo] := by simp [eventsFrom]
  rw [blockEvents_eq, hfactories, htraits, htokens, eventsFrom_append, hfirst]
  · rfl
  · intro event hevent
    rw [hfirst, List.mem_singleton] at hevent
    have hlength : wrapper.line.length = wrapper.indent.chars.length + 20 := by simp [Wrapper.line]
    rw [hevent]
    show wrapper.indent.chars.length + 18 < _
    omega

/-- The walk over a flat file finds out the factory of each trait. -/
theorem FlatFile.findings_text (flat : FlatFile) :
    Nesting.findings {} (blockEvents flat.text) = match flat.wrapper with
      | none => traitsFound 0 flat.factories
      | some wrapper => (traitsFound 0 flat.factories).map (.shift (wrapper.line.length + 1)) := by
  have hsettled : Settled {} := ⟨rfl, fun _ hmem => absurd hmem List.not_mem_nil⟩
  unfold FlatFile.text
  cases flat.wrapper with
  | none => exact flat.findings_inner hsettled rfl
  | some wrapper =>
      have hinside : Settled { ({} : Nesting) with depth := 1 } := hsettled.deeper
      simp only [wrapper.blockEvents_under]
      rw [← flat.findings_inner hinside rfl, ← findings_map_shift]
      rfl

end Wrapper

end FactoryIndex.Outline
