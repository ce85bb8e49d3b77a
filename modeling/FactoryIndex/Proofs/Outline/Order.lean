import FactoryIndex.Proofs.Outline.Composition
import FactoryIndex.Proofs.Outline.Place

/-!
# Outlines are ordered and closed

What the scanner finds in a text comes in the order of the text, and refers only to what stands further up. This holds
of every text, however its blocks are nested: the walk knows nothing but the headers it has met, and no two headers
start at one offset, since one keyword starts with another letter than the other. So a trait or a nested factory that is
given to a factory lies behind the header of that factory.
-/

namespace FactoryIndex

open Pattern Text

/-! ### The order of locations -/

/-- A location comes before another one: it is on an earlier line, or further left on the same one. -/
def Location.Before (a b : Location) : Prop :=
  a.line < b.line ∨ a.line = b.line ∧ ∃ c d, a.column = some c ∧ b.column = some d ∧ c < d

namespace Outline

theorem before_locate {text : List Char} {a b : Nat} (hab : a < b) (hb : b ≤ text.length) (file : RawText) (m n : Nat) :
    (locate (LineIndex.ofText text) file a m).Before (locate (LineIndex.ofText text) file b n) := by
  rcases position_before hab hb with hline | ⟨hline, hcolumn⟩
  · exact Or.inl hline
  · exact Or.inr ⟨hline, _, _, rfl, rfl, hcolumn⟩

/-! ### Headers in the order of a text -/

def BlockEvent.isHeader : BlockEvent → Bool
  | factory .. => true
  | trait .. => true
  | token .. => false

theorem Written.getElem?_offset {keyword text : List Char} {offset : Nat} {symbol : Symbol} {c : Char}
    (h : Written (c :: keyword) text offset symbol) : text[offset]? = some c := by
  obtain ⟨left, blanks, right, rfl, rfl, -⟩ := h
  rw [List.getElem?_append_right (Nat.le_refl _), Nat.sub_self]
  rfl

/-- No header of a factory starts where that of a trait starts, since the keywords differ in their first letter. -/
theorem start_ne_of_mem_headers {masked : List Char} {f : Found FactoryHeader} {t : Found Symbol}
    (hf : f ∈ factoryHeaders masked) (ht : t ∈ traitHeaders masked) : f.start ≠ t.start := by
  intro heq
  have hfactory := (written_of_mem_factoryHeaders hf).getElem?_offset
  have htrait := (written_of_mem_traitHeaders ht).getElem?_offset
  rw [heq, htrait] at hfactory
  cases hfactory

theorem pairwise_blockEvents (masked : List Char) :
    (blockEvents masked).Pairwise fun a b => a.isHeader = true → b.isHeader = true → a.offset < b.offset := by
  have hdistinct : (blockEvents masked).Pairwise fun a b =>
      a.isHeader = true → b.isHeader = true → a.offset ≠ b.offset := by
    unfold blockEvents
    rw [(List.mergeSort_perm _ _).pairwise_iff fun h hb ha => (h ha hb).symm]
    simp only [List.pairwise_append, List.pairwise_map, List.mem_append, List.mem_map]
    refine ⟨⟨?_, ?_, ?_⟩, ?_, ?_⟩
    · exact (pairwise_occurrences factoryHeader? masked).imp fun h _ _ => Nat.ne_of_lt h.1
    · exact (pairwise_occurrences traitHeader? masked).imp fun h _ _ => Nat.ne_of_lt h.1
    · rintro _ ⟨f, hf, rfl⟩ _ ⟨t, ht, rfl⟩ - -
      exact start_ne_of_mem_headers hf ht
    · exact List.pairwise_of_forall fun _ _ hheader => by cases hheader
    · rintro _ - _ ⟨token, -, rfl⟩ - hheader
      cases hheader
  refine (hdistinct.and (pairwise_mergeSort_key BlockEvent.offset _)).imp fun ⟨hne, hle⟩ ha hb => ?_
  exact Nat.lt_of_le_of_ne hle (hne ha hb)

/-! ### Findings in the order of a text -/

def Finding.owner : Finding → String
  | nested _ outer => outer
  | trait _ _ _ factory => factory

theorem header_of_finding? {nesting : Nesting} {event : BlockEvent} {finding : Finding}
    (h : nesting.finding? event = some finding) :
    event.isHeader = true ∧ event.offset = finding.offset ∧ nesting.innermost? = some finding.owner := by
  rcases finding?_eq_some h with ⟨offset, name, outer, rfl, rfl, hinnermost⟩ |
    ⟨offset, name, length, factory, rfl, rfl, hinnermost⟩
  · exact ⟨rfl, rfl, hinnermost⟩
  · exact ⟨rfl, rfl, hinnermost⟩

theorem pairwise_findings {events : List BlockEvent}
    (hevents : events.Pairwise fun a b => a.isHeader = true → b.isHeader = true → a.offset < b.offset)
    (nesting : Nesting) : (nesting.findings events).Pairwise fun a b => a.offset < b.offset := by
  induction events generalizing nesting with
  | nil => exact List.Pairwise.nil
  | cons event rest ih =>
      obtain ⟨hevent, hrest⟩ := List.pairwise_cons.1 hevents
      refine List.pairwise_append.2 ⟨?_, ih hrest _, fun first hfirst later hlater => ?_⟩
      · cases nesting.finding? event with
        | none => exact List.Pairwise.nil
        | some finding => exact List.pairwise_singleton _ finding
      · obtain ⟨hheader, hoffset, -⟩ := header_of_finding? (Option.mem_toList.1 hfirst)
        obtain ⟨past, other, future, rfl, hfinding⟩ := exists_of_mem_findings hlater
        obtain ⟨hheader', hoffset', -⟩ := header_of_finding? hfinding
        rw [← hoffset, ← hoffset']
        exact hevent other (List.mem_append_right past List.mem_cons_self) hheader hheader'

theorem exists_owner {masked : List Char} {finding : Finding}
    (hmem : finding ∈ Nesting.findings {} (blockEvents masked)) :
    ∃ found ∈ factoryHeaders masked, String.ofList found.parts.name.name = finding.owner ∧
      found.start < finding.offset := by
  obtain ⟨past, event, future, hevents, hfinding⟩ := exists_of_mem_findings hmem
  obtain ⟨hheader, hoffset, hinnermost⟩ := header_of_finding? hfinding
  have hknows : Knows (past.filterMap fun | .factory _ name => some name | _ => none) (past.foldl Nesting.step {}) :=
    (knows_start _).foldl fun offset name hmem => List.mem_filterMap.2 ⟨_, hmem, rfl⟩
  obtain ⟨header, hpast, hname⟩ := List.mem_filterMap.1 (hknows.innermost? hinnermost)
  cases header with
  | trait offset name length => cases hname
  | token offset token => cases hname
  | factory offset name =>
      obtain rfl : name = finding.owner := Option.some.inj hname
      have hlt : offset < finding.offset := by
        have hpairwise := pairwise_blockEvents masked
        rw [hevents] at hpairwise
        rw [← hoffset]
        exact (List.pairwise_append.1 hpairwise).2.2 _ hpast event List.mem_cons_self rfl hheader
      have hmem : .factory offset finding.owner ∈ blockEvents masked := hevents ▸ List.mem_append_left _ hpast
      rcases mem_blockEvents.1 hmem with ⟨found, hfound, heq⟩ | ⟨found, -, heq⟩ | ⟨found, -, heq⟩
      · obtain ⟨rfl, howner⟩ := BlockEvent.factory.inj heq
        exact ⟨found, hfound, howner.symm, hlt⟩
      · cases heq
      · cases heq

/-! ### Factories and their headers -/

section Headers

variable {text : List Char}

theorem exists_factory_before {finding : Finding} (hmem : finding ∈ scanned text) (file : RawText) (length : Nat) :
    ∃ factory ∈ (parse .scanner text file).factories, factory.name = finding.owner ∧
      factory.location.Before (locate (LineIndex.ofText text) file finding.offset length) := by
  obtain ⟨found, hfound, hname, hlt⟩ := exists_owner hmem
  obtain ⟨factory, hfactory, heq⟩ :=
    exists_mem_parse (fun factory => (factory.name, factory.location)) (fun _ _ => rfl) .scanner file hfound
  obtain ⟨hfound, hlocation⟩ := Prod.mk.inj heq
  refine ⟨factory, hfactory, hfound.trans hname, ?_⟩
  rw [hlocation]
  exact before_locate hlt (Nat.le_of_lt (offset_lt_of_mem_scanned hmem)) file _ _

theorem pairwise_scannedTraits (text : List Char) (file : RawText) :
    (parse .scanner text file).traits.Pairwise fun a b => a.location.Before b.location := by
  refine List.pairwise_filterMap.2 ((pairwise_findings (pairwise_blockEvents (mask text)) {}).imp_of_mem ?_)
  rintro a b - hb hlt t ht t' ht'
  have hle := Nat.le_of_lt (offset_lt_of_mem_scanned hb)
  cases a with
  | nested offset outer => cases ht
  | trait offset name length factory =>
      cases b with
      | nested offset outer => cases ht'
      | trait offset' name' length' factory' =>
          cases ht
          cases ht'
          exact before_locate hlt hle file _ _

theorem mem_of_enclosing? {findings : List Finding} {offset : Nat} {outer : String}
    (h : enclosing? findings offset = some outer) : .nested offset outer ∈ findings := by
  obtain ⟨finding, hmem, hsome⟩ := List.exists_of_findSome?_eq_some h
  cases finding with
  | trait start name length factory => cases hsome
  | nested start other =>
      simp only [Option.ite_none_right_eq_some, Option.some.injEq] at hsome
      obtain ⟨rfl, rfl⟩ := hsome
      exact hmem

/-- A factory is read from a header of a text: it has the header's name, and its location leads there. -/
structure ReadFrom (text : List Char) (factory : Factory) (header : Found FactoryHeader) : Prop where
  mem : header ∈ factoryHeaders (mask text)
  name_eq : factory.name = String.ofList header.parts.name.name
  place : factory.location.LiesAt text header.start header.parts.name.stop

/-- The parent of a factory is the one that its header gives. If the header gives none, it is the name of a factory of
the outline with an earlier location, or there is none. -/
def Descends (text : List Char) (outline : Outline) (factory : Factory) : Prop :=
  ∃ header, ReadFrom text factory header ∧ match header.parts.parent with
    | some symbol => factory.parent = some (String.ofList symbol.name)
    | none => ∀ parent, factory.parent = some parent →
        ∃ outer ∈ outline.factories, outer.name = parent ∧ outer.location.Before factory.location

theorem descends_of_mem {file : RawText} {factory : Factory}
    (hmem : factory ∈ (parse .scanner text file).factories) : Descends text (parse .scanner text file) factory := by
  obtain ⟨header, hheader, heq⟩ := exists_of_mem_parse
    (fun factory => (factory.name, factory.location, factory.parent)) (fun _ _ => rfl) hmem
  obtain ⟨hname, heq⟩ := Prod.mk.inj heq
  obtain ⟨hlocation, hparent⟩ := Prod.mk.inj heq
  have hplace := liesAt_locate (Nat.le_of_lt (start_lt_of_mem_headers hheader)) file header.parts.name.stop
  refine ⟨header, ⟨hheader, hname, hlocation ▸ hplace⟩, ?_⟩
  rw [headerFactory] at hparent
  split
  · next symbol hsymbol =>
    rw [hsymbol] at hparent
    exact hparent
  · next hnone =>
    rw [hnone] at hparent
    intro parent hsome
    have hnested := mem_of_enclosing? (hparent.symm.trans hsome)
    rw [hlocation]
    exact exists_factory_before hnested file header.parts.name.stop

end Headers

/-- **Outlines are ordered and closed.** In an outline of the scanner the locations of the factories ascend, and so do
those of the traits. A trait belongs to a factory that is located before it. A factory has the parent that its header
gives, or else one that is located before it, if any. Of the factories of one name only the last has traits, which are
the last ones of each name that belong to it. -/
theorem outline_ordered_closed (text : List Char) (file : RawText) :
    let outline := parse .scanner text file
    outline.factories.Pairwise (fun a b => a.location.Before b.location) ∧
      outline.traits.Pairwise (fun a b => a.location.Before b.location) ∧
      (∀ t ∈ outline.traits, ∃ factory ∈ outline.factories, factory.name = t.factory ∧
        factory.location.Before t.location) ∧
      (∀ factory ∈ outline.factories, Descends text outline factory) ∧
      ∀ before factory behind, outline.factories = before ++ factory :: behind →
        (factory.name ∈ behind.map Factory.name → factory.traits = .empty) ∧
        (factory.name ∉ behind.map Factory.name → ∀ name,
          factory.traits.get? name = (outline.traitsOf factory.name name).getLast?) := by
  intro outline
  refine ⟨?_, pairwise_scannedTraits text file, fun t hmem => ?_, fun factory hmem => descends_of_mem hmem,
    fun before factory behind heq => traits_of_linkTraits_eq traits_eq_empty_of_header heq⟩
  · have hlocations : (outline.factories.map Factory.location).Pairwise Location.Before := by
      rw [map_parse (fun _ _ => rfl), List.pairwise_map]
      refine (pairwise_occurrences factoryHeader? (mask text)).imp_of_mem fun _ hb hlt => ?_
      exact before_locate hlt.1 (Nat.le_of_lt (start_lt_of_mem_headers hb)) file _ _
    exact List.pairwise_map.1 hlocations
  · obtain ⟨finding, hfinding, heq⟩ := List.mem_filterMap.1 hmem
    cases finding with
    | nested offset outer => cases heq
    | trait offset name length factory =>
        cases heq
        exact exists_factory_before hfinding file length

end Outline

end FactoryIndex
