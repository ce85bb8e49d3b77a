import FactoryIndex.Proofs.Outline.Linking
import FactoryIndex.Proofs.Text.Masking

/-!
# Locations point at definitions

Headers are found in the masked copy of a text, the traits of a factory that is cut at the next header even in a piece
of the copy, and positions are looked up in the table of lines of the text itself. All of them count the same offsets.
So the location of every definition leads to the place in the text where its header is written: the keyword, then
nothing that is left by masking but whitespace, then a colon and the name, with which the location ends.
-/

namespace FactoryIndex

open Pattern Text

/-! ### Offsets of locations -/

/-- A location leads to an offset of a text, by its line and its column there, and has the given length. -/
structure Location.LiesAt (location : Location) (text : List Char) (offset length : Nat) : Prop where
  place : ∃ (i : Nat) (hi : i < (lines text).length), ∃ column ≤ (lines text)[i].length,
    location.line = i ∧ location.column = some (column : Int) ∧ offset = lineStart (lines text) i + column
  length_eq : location.length = some (length : Int)

namespace Outline

theorem liesAt_locate {text : List Char} {offset : Nat} (hoffset : offset ≤ text.length) (file : RawText)
    (length : Nat) :
    (locate (LineIndex.ofText text) file offset length).LiesAt text offset length := by
  obtain ⟨i, hi, column, hcolumn, rfl⟩ := exists_position hoffset
  refine ⟨⟨i, hi, column, hcolumn, ?_, ?_, rfl⟩, rfl⟩
  · rw [locate, position_eq hi hcolumn]
  · rw [locate, position_eq hi hcolumn]

/-! ### Headers as they are written -/

/-- A header that is written at an offset of a text: a keyword, blanks, a colon and a name. The symbol holds the place
of the name within the header. -/
def Written (keyword text : List Char) (offset : Nat) (symbol : Symbol) : Prop :=
  ∃ left blanks right, text = left ++ (keyword ++ (blanks ++ (':' :: symbol.name ++ right))) ∧ left.length = offset ∧
    (∀ c ∈ blanks, isBlank c = true) ∧ symbol.start = keyword.length + (blanks.length + 1) ∧ symbol.Named

theorem written_of_keywordSymbol? {keyword left right rest : List Char} {before : Option Char} {symbol : Symbol}
    (h : keywordSymbol? keyword before right = some (symbol, rest)) :
    Written keyword (left ++ right) left.length symbol := by
  obtain ⟨-, blanks, -, hblanks, rfl, hstart, hnamed⟩ := keywordSymbol?_eq_some h
  exact ⟨left, blanks, rest, rfl, rfl, hblanks, hstart, hnamed⟩

/-- What is written in a piece of a text is written in the text. -/
theorem Written.within {keyword piece : List Char} {offset : Nat} {symbol : Symbol}
    (h : Written keyword piece offset symbol) (left right : List Char) :
    Written keyword (left ++ (piece ++ right)) (left.length + offset) symbol := by
  obtain ⟨front, blanks, back, rfl, rfl, hblanks, hstart, hnamed⟩ := h
  refine ⟨left ++ front, blanks, back ++ right, ?_, List.length_append, hblanks, hstart, hnamed⟩
  simp only [List.append_assoc, List.cons_append]

theorem written_of_mem_factoryHeaders {masked : List Char} {found : Found FactoryHeader}
    (hmem : found ∈ factoryHeaders masked) : Written factoryWord masked found.start found.parts.name := by
  obtain ⟨left, right, rfl, -, hstart, hsome⟩ := occurs_of_mem_occurrences hmem
  rw [hstart, Nat.zero_add]
  unfold factoryHeader? at hsome
  split at hsome
  · next hname =>
    split at hsome
    · obtain ⟨-, hparts⟩ := Hit.mk.inj (Option.some.inj hsome)
      rw [← hparts]
      exact written_of_keywordSymbol? hname
    · cases hsome
  · cases hsome

theorem written_of_mem_traitHeaders {masked : List Char} {found : Found Symbol} (hmem : found ∈ traitHeaders masked) :
    Written traitWord masked found.start found.parts := by
  obtain ⟨left, right, rfl, -, hstart, hsome⟩ := occurs_of_mem_occurrences hmem
  rw [hstart, Nat.zero_add]
  unfold traitHeader? at hsome
  split at hsome
  · next hname =>
    simp only at hsome
    split at hsome
    · split at hsome
      · cases hsome
      · obtain ⟨-, hparts⟩ := Hit.mk.inj (Option.some.inj hsome)
        rw [← hparts]
        exact written_of_keywordSymbol? hname
    · cases hsome
  · cases hsome

theorem bodyStart?_eq_some {offset start : Nat} {before : Option Char} {text body : List Char}
    (h : bodyStart? offset before text = some (start, body)) :
    ∃ piece, text = piece ++ body ∧ start = offset + piece.length := by
  induction text generalizing offset before with
  | nil => cases h
  | cons c rest ih =>
      rw [bodyStart?] at h
      split at h
      · next hdo =>
        obtain ⟨rfl, rfl⟩ := Prod.mk.inj (Option.some.inj h)
        exact ⟨['d', 'o'], doWord?_eq_some hdo, rfl⟩
      · split at h
        · cases h
        · obtain ⟨piece, rfl, rfl⟩ := ih h
          refine ⟨c :: piece, rfl, ?_⟩
          rw [List.length_cons]
          omega

theorem exists_of_mem_factoryBodies {masked : List Char} {body : Found FactoryBody}
    (hmem : body ∈ factoryBodies masked) :
    ∃ left right, masked = left ++ (body.parts.text ++ right) ∧ left.length = body.start + body.parts.start := by
  obtain ⟨left, right, rfl, -, hstart, hsome⟩ := occurs_of_mem_occurrences hmem
  rw [hstart, Nat.zero_add]
  unfold factoryBody? at hsome
  split at hsome
  · next name rest hname =>
    split at hsome
    · split at hsome
      · next start inner hbody =>
        obtain ⟨length, -, hhit⟩ := Option.map_eq_some_iff.1 hsome
        obtain ⟨-, hparts⟩ := Hit.mk.inj hhit
        rw [← hparts]
        obtain ⟨-, blanks, -, -, rfl, hname, -⟩ := keywordSymbol?_eq_some hname
        obtain ⟨piece, rfl, rfl⟩ := bodyStart?_eq_some hbody
        refine ⟨left ++ (factoryWord ++ (blanks ++ ':' :: (name.name ++ piece))), inner.drop length, ?_, ?_⟩
        · simp only [List.append_assoc, List.cons_append, List.take_append_drop]
        · simp only [List.length_append, List.length_cons, Symbol.stop]
          omega
      · cases hsome
    · cases hsome
  · cases hsome

theorem written_of_mem_findings {masked : List Char} {offset length : Nat} {name factory : String}
    (hmem : .trait offset name length factory ∈ Nesting.findings {} (blockEvents masked)) :
    ∃ symbol, name = String.ofList symbol.name ∧ length = symbol.stop ∧ Written traitWord masked offset symbol := by
  obtain ⟨past, event, future, hevents, hfinding⟩ := exists_of_mem_findings hmem
  obtain rfl : event = .trait offset name length := by
    rcases finding?_eq_some hfinding with ⟨_, _, _, -, heq, -⟩ | ⟨_, _, _, _, rfl, heq, -⟩
    · cases heq
    · cases heq
      rfl
  have hevent : .trait offset name length ∈ blockEvents masked :=
    hevents ▸ List.mem_append_right past List.mem_cons_self
  rcases mem_blockEvents.1 hevent with ⟨found, -, heq⟩ | ⟨found, hfound, heq⟩ | ⟨found, -, heq⟩
  · cases heq
  · cases heq
    exact ⟨found.parts, rfl, rfl, written_of_mem_traitHeaders hfound⟩
  · cases heq

/-! ### The text behind the mask -/

theorem exists_append_of_forall₂ {R : Char → Char → Prop} {text a b : List Char} (h : List.Forall₂ R text (a ++ b)) :
    ∃ a' b', text = a' ++ b' ∧ List.Forall₂ R a' a ∧ List.Forall₂ R b' b :=
  ⟨text.take a.length, text.drop a.length, (List.take_append_drop _ _).symm, List.forall₂_take_append text a b h,
    List.forall₂_drop_append text a b h⟩

theorem eq_of_forall₂_standsFor {piece word : List Char} (h : List.Forall₂ StandsFor piece word) (hword : ' ' ∉ word) :
    piece = word := by
  induction h with
  | nil => rfl
  | cons hfirst _ ih =>
      rw [List.mem_cons, not_or] at hword
      rcases hfirst with rfl | ⟨rfl, -⟩
      · rw [ih hword.2]
      · exact absurd rfl hword.1

def IsName (name : String) : Prop := name.toList ≠ [] ∧ ∀ c ∈ name.toList, isNameChar c = true

/-- A location shows the header of a definition. At the offset it leads to the text reads the keyword, and the stretch
of its length, which lies within the text, ends with a colon and the name. All between them is whitespace in the
masked copy. -/
def Shows (text keyword : List Char) (name : String) (location : Location) : Prop :=
  ∃ offset length gap, location.LiesAt text offset length ∧ offset + length ≤ text.length ∧
    (text.drop offset).take length = keyword ++ (gap ++ ':' :: name.toList) ∧
    ∀ c ∈ ((mask text).drop (offset + keyword.length)).take gap.length, isBlank c = true

/-- A location shows the header that is written at its offset in the masked copy. -/
theorem shows_of_written {keyword text : List Char} {offset : Nat} {symbol : Symbol} (hkeyword : ' ' ∉ keyword)
    (h : Written keyword (mask text) offset symbol) (file : RawText) :
    Shows text keyword (String.ofList symbol.name) (locate (LineIndex.ofText text) file offset symbol.stop) ∧
      IsName (String.ofList symbol.name) := by
  obtain ⟨left, blanks, right, hmask, rfl, hblanks, hstart, hnamed⟩ := h
  have hname : ' ' ∉ ':' :: symbol.name := by
    rw [List.mem_cons, not_or]
    exact ⟨by decide, fun hmem => absurd (hnamed.2 ' ' hmem) (by decide)⟩
  have hstands := forall₂_mask text
  rw [hmask] at hstands
  obtain ⟨left', behind, htext, hleft, hbehind⟩ := exists_append_of_forall₂ hstands
  obtain ⟨word, behind, rfl, hword, hbehind⟩ := exists_append_of_forall₂ hbehind
  obtain ⟨gap, behind, rfl, hgap, hbehind⟩ := exists_append_of_forall₂ hbehind
  obtain ⟨named, right', rfl, hsymbol, -⟩ := exists_append_of_forall₂ hbehind
  obtain rfl := eq_of_forall₂_standsFor hword hkeyword
  obtain rfl := eq_of_forall₂_standsFor hsymbol hname
  have hstop : symbol.stop = (word ++ (gap ++ ':' :: symbol.name)).length := by
    simp only [Symbol.stop, hstart, List.length_append, List.length_cons, hgap.length_eq]
    omega
  have hlength : left.length + symbol.stop ≤ text.length := by
    rw [htext, hstop]
    simp only [List.length_append, List.length_cons, hleft.length_eq]
    omega
  refine ⟨⟨left.length, symbol.stop, gap, liesAt_locate (by omega) file _, hlength, ?_, ?_⟩, ?_⟩
  · have hheader : word ++ (gap ++ (':' :: symbol.name ++ right')) = word ++ (gap ++ ':' :: symbol.name) ++ right' := by
      simp only [List.append_assoc, List.cons_append]
    rw [htext, List.drop_left' hleft.length_eq, hheader, List.take_left' hstop.symm, String.toList_ofList]
  · rw [hmask, ← List.append_assoc, List.drop_left' List.length_append, List.take_left' hgap.length_eq.symm]
    exact hblanks
  · rw [IsName, String.toList_ofList]
    exact hnamed

/-- **Locations point at definitions.** In both modes, and whatever the text is, the location of every factory shows a
header with the keyword `factory` and the factory's name, and that of every trait one with the keyword `trait` and the
trait's name. -/
theorem locations_show_headers (mode : BlockMode) (text : List Char) (file : RawText) :
    (∀ factory ∈ (parse mode text file).factories,
      Shows text factoryWord factory.name factory.location ∧ IsName factory.name) ∧
    ∀ t ∈ (parse mode text file).traits, Shows text traitWord t.name t.location ∧ IsName t.name := by
  refine ⟨fun factory hmem => ?_, fun t hmem => ?_⟩
  · obtain ⟨found, hfound, heq⟩ :=
      exists_of_mem_parse (fun factory => (factory.name, factory.location)) (fun _ _ => rfl) hmem
    obtain ⟨hname, hlocation⟩ := Prod.mk.inj heq
    rw [hname, hlocation]
    exact shows_of_written (by decide) (written_of_mem_factoryHeaders hfound) file
  · cases mode with
    | scanner =>
        obtain ⟨finding, hfinding, heq⟩ := List.mem_filterMap.1 hmem
        cases finding with
        | nested offset outer => cases heq
        | trait offset name length factory =>
            cases heq
            obtain ⟨symbol, rfl, rfl, hwritten⟩ := written_of_mem_findings hfinding
            exact shows_of_written (by decide) hwritten file
    | regex =>
        obtain ⟨body, hbody, htrait⟩ := List.mem_flatMap.1 hmem
        obtain ⟨found, hfound, rfl⟩ := List.mem_map.1 htrait
        obtain ⟨left, right, hmask, hleft⟩ := exists_of_mem_factoryBodies hbody
        have hwritten := (written_of_mem_traitHeaders hfound).within left right
        rw [← hmask, hleft] at hwritten
        exact shows_of_written (by decide) hwritten file

end Outline

end FactoryIndex
