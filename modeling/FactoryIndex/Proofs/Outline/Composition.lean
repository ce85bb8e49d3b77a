import FactoryIndex.Proofs.Outline.Forest
import FactoryIndex.Proofs.Outline.Moving
import FactoryIndex.Proofs.Pattern.Seam
import FactoryIndex.Proofs.Text.Masking
import Mathlib.Data.List.TakeWhile

/-!
# Definitions below complete definitions

A text is complete if it leaves nothing open: no comment, no here-document and no block, and if the last thing on it is
the `end` of a block. Nothing that is read in such a text depends on what stands below it, and behind it the walk over
the headers and tokens is where it started. So a text that is put below a complete one is parsed as if it stood
alone, only further down, whatever it contains.
-/

namespace FactoryIndex.Outline

open Pattern Text

/-! ### Events across a seam -/

section Seam

variable {front back : List Char}

theorem occurrences_below {α : Type} {recognise : Recogniser α} (hrestarts : Restarts recognise)
    (hseamless : Seamless recognise) (hopens : opensToken (lastOr none front) = true)
    (hback : ∀ c ∈ back, isBlank c = true) (text : List Char) :
    occurrences recognise (front ++ (endWord ++ back) ++ '\n' :: text) =
      occurrences recognise (front ++ (endWord ++ back)) ++
        (occurrences recognise text).map (Found.shift ((front ++ (endWord ++ back)).length + 1)) :=
  hrestarts.occurrences_under
    (yields_of_local hseamless.fits (hseamless.local_of_end hopens hback (quiet_newline text)))

/-- The events of a text below a closing `end` come behind those of the text above. -/
theorem blockEvents_below (hopens : opensToken (lastOr none front) = true) (hback : ∀ c ∈ back, isBlank c = true)
    (text : List Char) :
    blockEvents (front ++ (endWord ++ back) ++ '\n' :: text) =
      blockEvents (front ++ (endWord ++ back)) ++
        (blockEvents text).map (.shift ((front ++ (endWord ++ back)).length + 1)) := by
  have hfactories := occurrences_below restarts_factoryHeader? seamless_factoryHeader? hopens hback text
  have htraits := occurrences_below restarts_traitHeader? seamless_traitHeader? hopens hback text
  have htokens := occurrences_below restarts_blockToken? seamless_blockToken? hopens hback text
  rw [blockEvents_eq, factoryHeaders, traitHeaders, blockTokens, hfactories, htraits, htokens]
  refine eventsFrom_append fun event hevent => ?_
  have hlt := offset_lt_of_mem_blockEvents hevent
  omega

theorem recognised_of_start_eq {α : Type} {recognise : Recogniser α} {rest : List Char} {found : Found α}
    (hmem : found ∈ occurrences recognise (front ++ rest)) (hstart : found.start = front.length) :
    recognise (lastOr none front) rest = some ⟨found.length, found.parts⟩ := by
  obtain ⟨left, right, htext, -, hleft, hsome⟩ := occurs_of_mem_occurrences hmem
  obtain ⟨rfl, rfl⟩ := List.append_inj htext (by omega)
  exact hsome

theorem start_le_of_mem_occurrences {α : Type} {recognise : Recogniser α} (h : Seamless recognise)
    (hback : ∀ c ∈ back, isBlank c = true) {found : Found α}
    (hmem : found ∈ occurrences recognise (front ++ (endWord ++ back))) : found.start ≤ front.length := by
  obtain ⟨left, right, htext, -, hleft, hsome⟩ := occurs_of_mem_occurrences hmem
  apply Nat.le_of_not_lt
  intro hlt
  have hnothing : Quiet [] := quiet_of_blank fun _ hmem => absurd hmem List.not_mem_nil
  have hnone : recognise (lastOr none left) (right ++ []) = none := h.eq_none hback hnothing htext (by omega)
  rw [List.append_nil, hsome] at hnone
  cases hnone

/-- The last event of a text is the `end` that nothing but blanks follows. -/
theorem blockEvents_eq_concat (hback : ∀ c ∈ back, isBlank c = true) {found : Found BlockTokenParts}
    (hfound : found ∈ blockTokens (front ++ (endWord ++ back))) (hstart : found.start = front.length)
    (htoken : found.parts.token = .closeEnd) :
    ∃ events, blockEvents (front ++ (endWord ++ back)) = events ++ [.token front.length .closeEnd] := by
  have hmem : .token front.length .closeEnd ∈ blockEvents (front ++ (endWord ++ back)) :=
    mem_blockEvents.2 (Or.inr (Or.inr ⟨found, hfound, by rw [hstart, htoken]⟩))
  have hle : ∀ event ∈ blockEvents (front ++ (endWord ++ back)), event.offset ≤ front.length := by
    intro event hevent
    rcases mem_blockEvents.1 hevent with ⟨other, hother, rfl⟩ | ⟨other, hother, rfl⟩ | ⟨other, hother, rfl⟩
    · exact start_le_of_mem_occurrences seamless_factoryHeader? hback hother
    · exact start_le_of_mem_occurrences seamless_traitHeader? hback hother
    · exact start_le_of_mem_occurrences seamless_blockToken? hback hother
  have honly : ∀ event ∈ blockEvents (front ++ (endWord ++ back)), event.offset = front.length →
      event = .token front.length .closeEnd := by
    intro event hevent hoffset
    rcases mem_blockEvents.1 hevent with ⟨other, hother, rfl⟩ | ⟨other, hother, rfl⟩ | ⟨other, hother, rfl⟩
    · have hsome := recognised_of_start_eq hother hoffset
      rw [needsKeyword_factoryHeader? _ _ (by simp [keywordSymbol?, factoryWord, endWord, after?])] at hsome
      cases hsome
    · have hsome := recognised_of_start_eq hother hoffset
      rw [needsKeyword_traitHeader? _ _ (by simp [keywordSymbol?, traitWord, endWord, after?])] at hsome
      cases hsome
    · have hsame := (recognised_of_start_eq hother hoffset).symm.trans (recognised_of_start_eq hfound hstart)
      obtain ⟨-, hparts⟩ := Hit.mk.inj (Option.some.inj hsame)
      rw [show other.start = front.length from hoffset, hparts, htoken]
  have hsorted : (blockEvents (front ++ (endWord ++ back))).Pairwise fun a b => a.offset ≤ b.offset :=
    pairwise_mergeSort_key BlockEvent.offset _
  rcases List.eq_nil_or_concat' (blockEvents (front ++ (endWord ++ back))) with hnil | ⟨events, last, hconcat⟩
  · rw [hnil] at hmem
    cases hmem
  · rw [hconcat] at hmem hle honly hsorted
    have hlast : front.length ≤ last.offset := by
      rcases List.mem_append.1 hmem with hearlier | hhere
      · exact (List.pairwise_append.1 hsorted).2.2 _ hearlier last List.mem_cons_self
      · rw [← List.mem_singleton.1 hhere]
        exact Nat.le_refl _
    have hmemlast : last ∈ events ++ [last] := List.mem_append_right events List.mem_cons_self
    rw [hconcat, honly last hmemlast (Nat.le_antisymm (hle last hmemlast) hlast)]
    exact ⟨events, rfl⟩

end Seam

/-! ### Complete texts -/

/-- A text that leaves nothing open. Behind it no comment and no here-document goes on, the last word of its masked copy
is an `end` that closes a block, and behind that `end` no block is open. -/
structure Complete (text : List Char) : Prop where
  mode_eq : modeAfter .code (lines text) = .code
  ends : ∃ front back, mask text = front ++ (endWord ++ back) ∧ (∀ c ∈ back, isBlank c = true) ∧
    ∃ found ∈ blockTokens (mask text), found.start = front.length ∧ found.parts.token = .closeEnd
  depth_eq : ((blockEvents (mask text)).foldl Nesting.step {}).depth = 0

theorem opensToken_of_closeEnd {before : Option Char} {text : List Char} {hit : Hit BlockTokenParts}
    (hsome : blockToken? before text = some hit) (htoken : hit.parts.token = .closeEnd) : opensToken before = true := by
  unfold blockToken? at hsome
  split at hsome
  · next inner hkeyword =>
    obtain rfl := Option.some.inj hsome
    rw [(keywordToken?_eq_some hkeyword).1] at htoken
    cases htoken
  · rcases bareToken?_eq_some hsome with ⟨hopens, -, -⟩ | ⟨hopens, -, -⟩ | ⟨rest, -, rfl⟩ | ⟨rest, -, rfl⟩
    · exact hopens
    · exact hopens
    · cases htoken
    · cases htoken

theorem Complete.walks {text : List Char} (h : Complete text) :
    Walks {} (blockEvents (mask text)) {} (Nesting.findings {} (blockEvents (mask text))) := by
  obtain ⟨front, back, hmask, hback, found, hfound, hstart, htoken⟩ := h.ends
  have hdepth := h.depth_eq
  rw [hmask] at hfound hdepth ⊢
  obtain ⟨events, hevents⟩ := blockEvents_eq_concat hback hfound hstart htoken
  refine ⟨?_, rfl⟩
  rw [hevents, List.foldl_append] at hdepth ⊢
  generalize events.foldl Nesting.step {} = nesting at hdepth ⊢
  have hzero : nesting.depth - 1 = 0 := hdepth
  show nesting.closeBlock = {}
  simp [Nesting.closeBlock, hzero, List.dropWhile_eq_nil_iff]

/-! ### Parsing -/

section Located

variable {a : List Char} {file : RawText} {offset : Nat}

theorem locate_above (b : List Char) (hoffset : offset ≤ a.length) (length : Nat) :
    locate (LineIndex.ofText (a ++ '\n' :: b)) file offset length =
      locate (LineIndex.ofText a) file offset length := by
  rw [locate, locate, position_append_left b hoffset]

theorem locate_below (a : List Char) {b : List Char} (hoffset : offset ≤ b.length) (length : Nat) :
    locate (LineIndex.ofText (a ++ '\n' :: b)) file (a.length + 1 + offset) length =
      (locate (LineIndex.ofText b) file offset length).moveDown (a.count '\n' + 1) := by
  rw [locate, position_append_right a hoffset]
  rfl

end Located

theorem enclosing?_of_ne {findings : List Finding} {offset : Nat}
    (hne : ∀ finding ∈ findings, finding.offset ≠ offset) : enclosing? findings offset = none := by
  apply List.findSome?_eq_none_iff.2
  intro finding hmem
  cases finding with
  | nested start outer => exact if_neg (hne _ hmem)
  | trait start name length factory => rfl

theorem enclosing?_map_shift (n : Nat) (findings : List Finding) (offset : Nat) :
    enclosing? (findings.map (Finding.shift n)) (n + offset) = enclosing? findings offset := by
  rw [enclosing?, enclosing?, List.findSome?_map]
  congr 1
  funext finding
  cases finding with
  | nested start outer => simp [Finding.shift]
  | trait start name length factory => rfl

def scanned (text : List Char) : List Finding := Nesting.findings {} (blockEvents (mask text))

def unlinked (file : RawText) (text : List Char) : List Factory :=
  (factoryHeaders (mask text)).map (headerFactory (LineIndex.ofText text) file (scanned text))

def attributed (file : RawText) (text : List Char) : List Trait :=
  scannedTraits (LineIndex.ofText text) file (scanned text)

theorem parse_scanner (text : List Char) (file : RawText) :
    parse .scanner text file = ⟨linkTraits (attributed file text) (unlinked file text), attributed file text⟩ := rfl

theorem map_name_unlinked (file : RawText) (text : List Char) :
    (unlinked file text).map Factory.name = factoryNames text := List.map_map

theorem start_lt_of_mem_headers {text : List Char} {found : Found FactoryHeader}
    (hmem : found ∈ factoryHeaders (mask text)) : found.start < text.length := by
  rw [← length_mask text]
  exact start_lt_of_mem_occurrences hmem

theorem offset_lt_of_mem_scanned {text : List Char} {finding : Finding} (hmem : finding ∈ scanned text) :
    finding.offset < text.length := by
  obtain ⟨event, hevent, heq⟩ := exists_event_of_mem_findings hmem
  rw [← heq, ← length_mask text]
  exact offset_lt_of_mem_blockEvents hevent

section Below

variable {a : List Char} (ha : Complete a) (b : List Char) (file : RawText)

include ha

theorem Complete.scanned_below :
    factoryHeaders (mask (a ++ '\n' :: b)) =
        factoryHeaders (mask a) ++ (factoryHeaders (mask b)).map (Found.shift (a.length + 1)) ∧
      scanned (a ++ '\n' :: b) = scanned a ++ (scanned b).map (Finding.shift (a.length + 1)) := by
  have hwalks := ha.walks
  obtain ⟨front, back, hmask, hback, found, hfound, hstart, htoken⟩ := ha.ends
  rw [scanned, scanned, mask_append ha.mode_eq, ← length_mask a]
  rw [hmask] at hfound hwalks ⊢
  have hopens := opensToken_of_closeEnd (recognised_of_start_eq hfound hstart) htoken
  refine ⟨occurrences_below restarts_factoryHeader? seamless_factoryHeader? hopens hback (mask b), ?_⟩
  rw [blockEvents_below hopens hback, scanned, ← findings_map_shift]
  exact (hwalks.append ⟨rfl, rfl⟩).2

theorem Complete.attributed_below :
    attributed file (a ++ '\n' :: b) =
      attributed file a ++ (attributed file b).map (Trait.moveDown (a.count '\n' + 1)) := by
  rw [attributed, (ha.scanned_below b).2, attributed, attributed]
  simp only [scannedTraits, List.filterMap_append, List.filterMap_map, List.map_filterMap]
  congr 1
  · refine List.filterMap_congr fun finding hmem => ?_
    cases finding with
    | nested offset outer => rfl
    | trait offset name length factory =>
        have hlt : offset < a.length := offset_lt_of_mem_scanned hmem
        simp only [locate_above b (Nat.le_of_lt hlt)]
  · refine List.filterMap_congr fun finding hmem => ?_
    cases finding with
    | nested offset outer => rfl
    | trait offset name length factory =>
        have hlt : offset < b.length := offset_lt_of_mem_scanned hmem
        simp only [Function.comp_apply, Finding.shift, locate_below a (Nat.le_of_lt hlt)]
        rfl

theorem Complete.headerFactory_above {found : Found FactoryHeader} (hstart : found.start < a.length) :
    headerFactory (LineIndex.ofText (a ++ '\n' :: b)) file (scanned (a ++ '\n' :: b)) found =
      headerFactory (LineIndex.ofText a) file (scanned a) found := by
  have hnone : enclosing? ((scanned b).map (Finding.shift (a.length + 1))) found.start = none := by
    refine enclosing?_of_ne fun finding hmem => ?_
    obtain ⟨inner, -, rfl⟩ := List.mem_map.1 hmem
    rw [Finding.offset_shift]
    omega
  have henclosing : enclosing? (scanned (a ++ '\n' :: b)) found.start = enclosing? (scanned a) found.start := by
    rw [(ha.scanned_below b).2, enclosing?, List.findSome?_append]
    exact (congrArg _ hnone).trans Option.or_none
  simp only [headerFactory, locate_above b (Nat.le_of_lt hstart), henclosing]

theorem Complete.headerFactory_below {found : Found FactoryHeader} (hstart : found.start < b.length) :
    headerFactory (LineIndex.ofText (a ++ '\n' :: b)) file (scanned (a ++ '\n' :: b)) (found.shift (a.length + 1)) =
      (headerFactory (LineIndex.ofText b) file (scanned b) found).moveDown (a.count '\n' + 1) := by
  have hnone : enclosing? (scanned a) (a.length + 1 + found.start) = none := by
    refine enclosing?_of_ne fun finding hmem => ?_
    have hlt := offset_lt_of_mem_scanned hmem
    omega
  have henclosing : enclosing? (scanned (a ++ '\n' :: b)) (a.length + 1 + found.start) =
      enclosing? (scanned b) found.start := by
    rw [(ha.scanned_below b).2, ← enclosing?_map_shift (a.length + 1) (scanned b), enclosing?, List.findSome?_append]
    exact (congrArg (Option.or · _) hnone).trans Option.none_or
  simp only [headerFactory, Found.shift, locate_below a (Nat.le_of_lt hstart), henclosing]
  rfl

theorem Complete.unlinked_below :
    unlinked file (a ++ '\n' :: b) =
      unlinked file a ++ (unlinked file b).map (Factory.moveDown (a.count '\n' + 1)) := by
  rw [unlinked, (ha.scanned_below b).1, List.map_append, List.map_map, unlinked, unlinked, List.map_map]
  congr 1
  · exact List.map_congr_left fun found hmem => ha.headerFactory_above b file (start_lt_of_mem_headers hmem)
  · exact List.map_congr_left fun found hmem => ha.headerFactory_below b file (start_lt_of_mem_headers hmem)

end Below

/-- **Parsing is compositional.** If a text is complete, and another one that is put below it defines no factory of the
same name, then the definitions of the two texts together are those of the upper one, followed by those of the lower
one moved down by the lines of the upper one. -/
theorem parse_below_complete {a b : List Char} (ha : Complete a)
    (hnames : ∀ name ∈ factoryNames a, name ∉ factoryNames b) (file : RawText) :
    parse .scanner (a ++ '\n' :: b) file =
      parse .scanner a file ++ (parse .scanner b file).moveDown (a.count '\n' + 1) := by
  have hmoved : ((unlinked file b).map (Factory.moveDown (a.count '\n' + 1))).map Factory.name = factoryNames b := by
    rw [List.map_map]
    exact map_name_unlinked file b
  have hupper : ∀ t ∈ attributed file a, t.factory ∈ (unlinked file a).map Factory.name := by
    intro t ht
    rw [map_name_unlinked]
    exact factory_mem_factoryNames ht
  have hlower : ∀ t ∈ (attributed file b).map (Trait.moveDown (a.count '\n' + 1)),
      t.factory ∈ ((unlinked file b).map (Factory.moveDown (a.count '\n' + 1))).map Factory.name := by
    intro t ht
    obtain ⟨inner, hinner, rfl⟩ := List.mem_map.1 ht
    rw [hmoved]
    exact factory_mem_factoryNames (t := inner) hinner
  rw [← map_name_unlinked file a, ← hmoved] at hnames
  rw [parse_scanner, ha.attributed_below, ha.unlinked_below, linkTraits_append hupper hlower hnames,
    linkTraits_moveDown]
  rfl

/-- A factory with a trait and a comment behind its last `end` is complete. -/
theorem complete_commented : Complete "factory :user do\n  trait :admin do\n  end\nend # done".toList where
  mode_eq := by decide
  ends := ⟨"factory :user do\n  trait :admin do\n  end\n".toList, "       ".toList, by decide, List.all_eq_true.1 rfl,
    ⟨41, 3, ⟨.closeEnd, 0, 3⟩⟩, List.mem_of_getElem? (i := 3) rfl, rfl, rfl⟩
  depth_eq := by
    have hevents : blockEvents (mask "factory :user do\n  trait :admin do\n  end\nend # done".toList) =
        [.factory 0 "user", .token 14 .openDo, .trait 19 "admin" 12, .token 32 .openDo, .token 37 .closeEnd,
          .token 41 .closeEnd] :=
      mergeSort_key_eq_of_perm BlockEvent.offset (by decide) (by decide)
    rw [hevents]
    rfl

theorem parse_below_commented :
    let upper := "factory :user do\n  trait :admin do\n  end\nend # done".toList
    let lower := "end \x7d\nfactory :guest do\n  trait :vip do".toList
    Complete upper ∧ (∀ name ∈ factoryNames upper, name ∉ factoryNames lower) ∧
      parse .scanner (upper ++ '\n' :: lower) "f.rb" =
        parse .scanner upper "f.rb" ++ (parse .scanner lower "f.rb").moveDown 4 :=
  ⟨complete_commented, by decide, parse_below_complete complete_commented (by decide) "f.rb"⟩

end FactoryIndex.Outline
