import FactoryIndex.Pattern.FactoryBody
import FactoryIndex.Proofs.Pattern.Header

/-!
# Nothing is read beyond a closing `end`

Patterns look ahead: a header may go on over several lines, a name ends where the word around it ends, and blanks may
run on into the next line. None of them looks further than an `end` that closes a block and has nothing behind it on
its line. So what is recognised before such an `end` is the same whatever follows.
-/

namespace FactoryIndex.Pattern

open Text

/-! ### The rest of a line -/

theorem not_isWordChar_of_isBlank {c : Char} (h : isBlank c = true) : isWordChar c = false := by
  have htable : (blankRanges.all fun range => (List.range' range.1 (range.2 + 1 - range.1)).all fun n =>
      !(decide (128 ≤ n) && inRanges wordRanges n)) = true := by decide +kernel
  obtain ⟨range, hrange, hbounds⟩ := List.any_eq_true.1 h
  rw [Bool.and_eq_true, decide_eq_true_eq, decide_eq_true_eq] at hbounds
  have hmem : c.toNat ∈ List.range' range.1 (range.2 + 1 - range.1) := List.mem_range'_1.2 (by omega)
  have hword := List.all_eq_true.1 (List.all_eq_true.1 htable range hrange) c.toNat hmem
  rw [isWordChar, not_isNameChar_of_isBlank h, Bool.false_or]
  exact Bool.not_eq_true' _ ▸ hword

/-- The rest of a line on which nothing but blanks stands, and whatever follows the line. -/
def Quiet (text : List Char) : Prop :=
  ∃ blanks tail, text = blanks ++ tail ∧ (∀ c ∈ blanks, isBlank c = true) ∧ Option.all (· == '\n') tail.head? = true

theorem quiet_of_blank {text : List Char} (h : ∀ c ∈ text, isBlank c = true) : Quiet text :=
  ⟨text, [], (List.append_nil text).symm, h, rfl⟩

theorem quiet_newline (text : List Char) : Quiet ('\n' :: text) :=
  ⟨[], '\n' :: text, rfl, fun _ hmem => absurd hmem List.not_mem_nil, rfl⟩

namespace Quiet

variable {text : List Char}

theorem append (h : Quiet text) {blanks : List Char} (hblanks : ∀ c ∈ blanks, isBlank c = true) :
    Quiet (blanks ++ text) := by
  obtain ⟨inner, tail, rfl, hinner, htail⟩ := h
  exact ⟨blanks ++ inner, tail, (List.append_assoc ..).symm, List.forall_mem_append.2 ⟨hblanks, hinner⟩, htail⟩

theorem isBlank_head (h : Quiet text) {c : Char} {rest : List Char} (htext : text = c :: rest) : isBlank c = true := by
  obtain ⟨blanks, tail, rfl, hblanks, htail⟩ := h
  cases blanks with
  | nil =>
      rw [List.nil_append] at htext
      obtain rfl : c = '\n' := by simpa [htext] using htail
      decide
  | cons d blanks =>
      obtain ⟨rfl, -⟩ := List.cons.inj htext
      exact hblanks d List.mem_cons_self

theorem closesWord (h : Quiet text) : closesWord text = true := by
  cases text with
  | nil => rfl
  | cons c rest => simp [Pattern.closesWord, not_isWordChar_of_isBlank (h.isBlank_head rfl)]

theorem head?_ne_colon (h : Quiet text) : text.head? ≠ some ':' := by
  cases text with
  | nil => simp
  | cons c rest =>
      rintro heq
      obtain rfl : c = ':' := by simpa using heq
      exact absurd (h.isBlank_head rfl) (by decide)

theorem parentIn?_eq_none (h : Quiet text) (offset : Nat) (before : Option Char) :
    parentIn? offset false before text = none := by
  obtain ⟨blanks, tail, rfl, hblanks, htail⟩ := h
  have hclause : ∀ {c : Char} {before : Option Char} {rest : List Char}, isBlank c = true →
      parentClause? before (c :: rest) = none := by
    intro c before rest hc
    have hne : 'p' ≠ c := by
      rintro rfl
      exact absurd hc (by decide)
    simp [parentClause?, after?, parentWord, hne]
  induction blanks generalizing offset before with
  | nil =>
      cases tail with
      | nil => rfl
      | cons c rest =>
          obtain rfl : c = '\n' := by simpa using htail
          rw [List.nil_append, parentIn?, hclause (by decide)]
          rfl
  | cons c blanks ih =>
      have hc := hblanks c List.mem_cons_self
      have hcomma : (c == ',') = false := by
        rw [beq_eq_false_iff_ne]
        rintro rfl
        exact absurd hc (by decide)
      have hrest := ih (offset + 1) (some c) fun d hd => hblanks d (List.mem_cons_of_mem c hd)
      rw [List.cons_append, parentIn?, hclause hc, hcomma]
      simp only [Bool.false_and, Bool.or_self, Bool.false_eq_true, hrest, ite_self]

/-- A header that runs up to an `end` with nothing behind it ends there, even if a comma stands before the `end`. -/
theorem parentIn?_end (h : Quiet text) (offset : Nat) (comma : Bool) (before : Option Char) :
    parentIn? offset comma before (endWord ++ text) = none := by
  have hclause : ∀ c ∈ endWord, ∀ before rest, parentClause? before (c :: rest) = none := by
    intro c hc before rest
    have hne : 'p' ≠ c := by
      rintro rfl
      exact absurd hc (by decide)
    simp [parentClause?, after?, parentWord, hne]
  have hcomma : ∀ c ∈ endWord, (c == ',') = false ∧ isIndent c = false ∧ c ≠ '\n' := by
    simp only [endWord, List.forall_mem_cons, List.not_mem_nil, false_imp_iff, implies_true, and_true]
    decide
  simp only [endWord, List.forall_mem_cons] at hclause hcomma
  simp [endWord, parentIn?, hclause, hcomma, h.parentIn?_eq_none]

theorem dropWhile (h : Quiet text) {p : Char → Bool} (hp : p '\n' = false) : Quiet (text.dropWhile p) := by
  obtain ⟨blanks, tail, rfl, hblanks, htail⟩ := h
  induction blanks with
  | nil =>
      cases tail with
      | nil => exact quiet_of_blank hblanks
      | cons c rest =>
          obtain rfl : c = '\n' := by simpa using htail
          rw [List.nil_append, List.dropWhile_cons, hp]
          exact quiet_newline rest
  | cons c blanks ih =>
      rw [List.cons_append, List.dropWhile_cons]
      split
      · exact ih fun d hd => hblanks d (List.mem_cons_of_mem c hd)
      · exact ⟨c :: blanks, tail, rfl, hblanks, htail⟩

theorem blockKeyword?_eq_none (h : Quiet text) : blockKeyword? text = none := by
  have hword : ∀ word ∈ blockKeywords, bareWord? word (text.dropWhile isIndent) = none := by
    intro word hmem
    have hletters : blockKeywords.all (fun word => Option.any isNameChar word.head?) = true := rfl
    have hletter := List.all_eq_true.1 hletters word hmem
    cases hlength : bareWord? word (text.dropWhile isIndent) with
    | none => rfl
    | some length =>
        obtain ⟨-, rest, hdrop, -⟩ := bareWord?_eq_some hlength
        cases word with
        | nil => cases hletter
        | cons c word =>
            have hblank := (h.dropWhile (by decide)).isBlank_head hdrop
            exact absurd hletter (by simp [not_isNameChar_of_isBlank hblank])
  rw [blockKeyword?, List.findSome?_eq_none_iff.2 hword]
  rfl

end Quiet

/-! ### Texts that agree up to a closing `end` -/

/-- Two texts agree up to an `end` that closes a block and has nothing behind it on its line. The first argument is
the character before both texts. -/
inductive Seam : Option Char → List Char → List Char → Prop where
  | close {before : Option Char} {u v : List Char} (hopens : opensToken before = true) (hu : Quiet u) (hv : Quiet v) :
      Seam before (endWord ++ u) (endWord ++ v)
  | cons {before : Option Char} {x y : List Char} (c : Char) (h : Seam (some c) x y) :
      Seam before (c :: x) (c :: y)

theorem seam_append {before : Option Char} {piece u v : List Char} (hopens : opensToken (lastOr before piece) = true)
    (hu : Quiet u) (hv : Quiet v) : Seam before (piece ++ (endWord ++ u)) (piece ++ (endWord ++ v)) := by
  induction piece generalizing before with
  | nil => exact .close hopens hu hv
  | cons c rest ih =>
      rw [lastOr_cons] at hopens
      exact .cons c (ih hopens)

/-- A word that cannot run into a closing `end`. -/
def keepsOff : Option Char → List Char → Bool
  | _, [] => true
  | before, c :: rest => (c != 'e' || !opensToken before) && keepsOff (some c) rest

namespace Seam

variable {before : Option Char} {x y : List Char}

theorem head?_eq (h : Seam before x y) : x.head? = y.head? := by
  cases h with
  | close => rfl
  | cons => rfl

theorem closesWord_eq (h : Seam before x y) : closesWord x = closesWord y := by
  rw [closesWord, closesWord, h.head?_eq]

theorem reads_after? (h : Seam before x y) {word : List Char} (hword : keepsOff before word = true) :
    (after? word x = none ∧ after? word y = none) ∨
      ∃ x' y', after? word x = some x' ∧ after? word y = some y' ∧ Seam (lastOr before word) x' y' := by
  induction h generalizing word with
  | @close before u v hopens hu hv =>
      cases word with
      | nil => exact Or.inr ⟨_, _, rfl, rfl, .close hopens hu hv⟩
      | cons c word =>
          have hc : c ≠ 'e' := by
            rintro rfl
            simp [keepsOff, hopens] at hword
          exact Or.inl ⟨if_neg hc, if_neg hc⟩
  | @cons before x y c h ih =>
      cases word with
      | nil => exact Or.inr ⟨_, _, rfl, rfl, .cons c h⟩
      | cons d word =>
          rw [keepsOff, Bool.and_eq_true] at hword
          simp only [after?]
          by_cases hd : d = c
          · subst hd
            simpa using ih hword.2
          · exact Or.inl ⟨if_neg hd, if_neg hd⟩

theorem dropWhile (h : Seam before x y) {p : Char → Bool} (hp : p 'e' = false) :
    x.takeWhile p = y.takeWhile p ∧ ∃ before', Seam before' (x.dropWhile p) (y.dropWhile p) := by
  induction h with
  | @close before u v hopens hu hv =>
      have hstop : ∀ text : List Char,
          (endWord ++ text).takeWhile p = [] ∧ (endWord ++ text).dropWhile p = endWord ++ text :=
        fun text => by simp [endWord, hp]
      rw [(hstop u).1, (hstop v).1, (hstop u).2, (hstop v).2]
      exact ⟨rfl, before, .close hopens hu hv⟩
  | @cons before x y c h ih =>
      rw [List.takeWhile_cons, List.takeWhile_cons, List.dropWhile_cons, List.dropWhile_cons]
      cases hc : p c with
      | true => exact ⟨congrArg _ ih.1, ih.2⟩
      | false => exact ⟨rfl, before, .cons c h⟩

theorem dropName (h : Seam before x y) (hbefore : opensToken before = false) :
    x.takeWhile isNameChar = y.takeWhile isNameChar ∧
      ∃ before', Seam before' (x.dropWhile isNameChar) (y.dropWhile isNameChar) := by
  induction h with
  | close hopens => rw [hopens] at hbefore; cases hbefore
  | @cons before x y c h ih =>
      rw [List.takeWhile_cons, List.takeWhile_cons, List.dropWhile_cons, List.dropWhile_cons]
      cases hc : isNameChar c with
      | true =>
          have hinside : opensToken (some c) = false := by simp [opensToken, isWordChar_of_isNameChar hc]
          exact ⟨congrArg _ (ih hinside).1, (ih hinside).2⟩
      | false => exact ⟨rfl, before, .cons c h⟩

/-! ### Headers -/

/-- What is read at the start of the two texts is the same, and so is what is left of them up to the `end`. -/
def Reads {β : Type} (r s : Option (β × List Char)) : Prop :=
  (r = none ∧ s = none) ∨ ∃ found before x y, r = some (found, x) ∧ s = some (found, y) ∧ Seam before x y

theorem Reads.none {β : Type} : Reads (none : Option (β × List Char)) none := Or.inl ⟨rfl, rfl⟩

theorem Reads.some {β : Type} (found : β) (h : Seam before x y) : Reads (some (found, x)) (some (found, y)) :=
  Or.inr ⟨found, before, x, y, rfl, rfl, h⟩

theorem Reads.map {β : Type} {r s : Option (β × List Char)} (h : Reads r s) (f : β → β) :
    Reads (r.map fun (found, rest) => (f found, rest)) (s.map fun (found, rest) => (f found, rest)) := by
  rcases h with ⟨rfl, rfl⟩ | ⟨found, before, x, y, rfl, rfl, h⟩
  · exact .none
  · exact .some (f found) h

theorem reads_symbol? (h : Seam before x y) : Reads (symbol? x) (symbol? y) := by
  cases h with
  | close => exact .none
  | cons c h =>
      by_cases hc : c = ':'
      · subst hc
        obtain ⟨htake, before', hdrop⟩ := h.dropName (by decide)
        rw [symbol?, symbol?, htake]
        split
        · exact .none
        · exact .some _ hdrop
      · have hnone : ∀ text, symbol? (c :: text) = none := fun text => by
          unfold symbol?
          split
          · next heq => exact absurd (List.cons.inj heq).1 hc
          · rfl
        rw [hnone, hnone]
        exact .none

theorem reads_blankSymbol? (h : Seam before x y) : Reads (blankSymbol? x) (blankSymbol? y) := by
  obtain ⟨htake, before', hdrop⟩ := h.dropWhile (show isBlank 'e' = false by decide)
  rw [blankSymbol?, blankSymbol?, htake]
  exact hdrop.reads_symbol?.map _

theorem reads_keywordSymbol? (h : Seam before x y) {keyword : List Char} (hkeyword : keepsOff before keyword = true) :
    Reads (keywordSymbol? keyword before x) (keywordSymbol? keyword before y) := by
  unfold keywordSymbol?
  split
  · rcases h.reads_after? hkeyword with ⟨hx, hy⟩ | ⟨x', y', hx, hy, hrest⟩
    · rw [hx, hy]
      exact .none
    · rw [hx, hy]
      simp only [hrest.head?_eq]
      split
      · exact hrest.reads_blankSymbol?.map _
      · exact .none
  · exact .none

theorem reads_parentMark? (h : Seam before x y) : Reads (parentMark? x) (parentMark? y) := by
  -- Without a colon right at the start both texts are read in the same way.
  have harrow : (∀ rest, x ≠ ':' :: rest) → (∀ rest, y ≠ ':' :: rest) → Reads (parentMark? x) (parentMark? y) := by
    intro hx hy
    obtain ⟨htake, before', hdrop⟩ := h.dropWhile (show isBlank 'e' = false by decide)
    have hafter := hdrop.reads_after? (show keepsOff before' ['=', '>'] = true from rfl)
    rw [parentMark?.eq_2 x hx, parentMark?.eq_2 y hy, htake]
    rcases hafter with ⟨hnonex, hnoney⟩ | ⟨x', y', hsomex, hsomey, hrest⟩
    · rw [hnonex, hnoney]
      exact .none
    · rw [hsomex, hsomey]
      exact .some _ hrest
  cases h with
  | close =>
      have hne : ∀ text rest, endWord ++ text ≠ ':' :: rest := fun _ _ heq => absurd (List.cons.inj heq).1 (by decide)
      exact harrow (hne _) (hne _)
  | cons c h =>
      by_cases hc : c = ':'
      · subst hc
        exact .some 1 h
      · exact harrow (fun _ heq => hc (List.cons.inj heq).1) fun _ heq => hc (List.cons.inj heq).1

theorem parentClause?_eq (h : Seam before x y) (b : Option Char) : parentClause? b x = parentClause? b y := by
  unfold parentClause?
  split
  · rcases h.reads_after? (show keepsOff before parentWord = true from rfl) with ⟨hx, hy⟩ | ⟨x', y', hx, hy, hrest⟩
    · rw [hx, hy]
    · rw [hx, hy]
      rcases hrest.reads_parentMark? with ⟨hmarkx, hmarky⟩ | ⟨mark, before', x'', y'', hmarkx, hmarky, hmark⟩
      · simp only [hmarkx, hmarky]
      · simp only [hmarkx, hmarky]
        rcases hmark.reads_blankSymbol? with ⟨hsymbolx, hsymboly⟩ | ⟨symbol, _, _, _, hsymbolx, hsymboly, -⟩
        · rw [hsymbolx, hsymboly]
        · rw [hsymbolx, hsymboly]
          rfl
  · rfl

theorem parentIn?_eq (h : Seam before x y) (offset : Nat) (comma : Bool) (b : Option Char) :
    parentIn? offset comma b x = parentIn? offset comma b y := by
  induction h generalizing offset comma b with
  | close hopens hu hv => rw [hu.parentIn?_end, hv.parentIn?_end]
  | @cons before x y c h ih =>
      have hclause : parentClause? b (c :: x) = parentClause? b (c :: y) :=
        parentClause?_eq (show Seam before _ _ from .cons c h) b
      rw [parentIn?, parentIn?, hclause]
      simp only [ih]

theorem factoryHeader?_eq (h : Seam before x y) : factoryHeader? before x = factoryHeader? before y := by
  unfold factoryHeader?
  rcases h.reads_keywordSymbol? (show keepsOff before factoryWord = true from rfl) with
    ⟨hx, hy⟩ | ⟨name, before', x', y', hx, hy, hrest⟩
  · rw [hx, hy]
  · rw [hx, hy]
    simp only [hrest.closesWord_eq, hrest.parentIn?_eq]

theorem reads_doWord? (h : Seam before x y) (b : Option Char) :
    (doWord? b x = none ∧ doWord? b y = none) ∨ ∃ x' y', doWord? b x = some x' ∧ doWord? b y = some y' := by
  unfold doWord?
  split
  · rcases h.reads_after? (show keepsOff before ['d', 'o'] = true from rfl) with ⟨hx, hy⟩ | ⟨x', y', hx, hy, hrest⟩
    · exact Or.inl ⟨by rw [hx], by rw [hy]⟩
    · rw [hx, hy]
      simp only [hrest.closesWord_eq]
      split
      · exact Or.inr ⟨x', y', rfl, rfl⟩
      · exact Or.inl ⟨rfl, rfl⟩
  · exact Or.inl ⟨rfl, rfl⟩

theorem traitHeader?_eq (h : Seam before x y) : traitHeader? before x = traitHeader? before y := by
  unfold traitHeader?
  rcases h.reads_keywordSymbol? (show keepsOff before traitWord = true from rfl) with
    ⟨hx, hy⟩ | ⟨name, before', x', y', hx, hy, hrest⟩
  · rw [hx, hy]
  · obtain ⟨htake, before'', hdrop⟩ := hrest.dropWhile (show isBlank 'e' = false by decide)
    rw [hx, hy]
    simp only [htake]
    rcases hdrop.reads_doWord? (y'.takeWhile isBlank).getLast? with ⟨hdox, hdoy⟩ | ⟨_, _, hdox, hdoy⟩
    · rw [hdox, hdoy]
    · rw [hdox, hdoy]

/-! ### Tokens -/

theorem bareWord?_eq (h : Seam before x y) {word : List Char} (hword : keepsOff before word = true) :
    bareWord? word x = bareWord? word y := by
  unfold bareWord?
  rcases h.reads_after? hword with ⟨hx, hy⟩ | ⟨x', y', hx, hy, hrest⟩
  · rw [hx, hy]
  · rw [hx, hy]
    simp only [hrest.closesWord_eq, hrest.head?_eq]

theorem bareWord?_end_eq (h : Seam before x y) : bareWord? endWord x = bareWord? endWord y := by
  cases h with
  | close hopens hu hv =>
      rw [bareWord?_self hu.closesWord hu.head?_ne_colon, bareWord?_self hv.closesWord hv.head?_ne_colon]
  | cons c h =>
      by_cases hc : 'e' = c
      · subst hc
        rcases h.reads_after? (show keepsOff (some 'e') ['n', 'd'] = true from rfl) with
          ⟨hx, hy⟩ | ⟨x', y', hx, hy, hrest⟩
        · simp only [bareWord?, endWord, after?, if_true, hx, hy]
        · simp only [bareWord?, endWord, after?, if_true, hx, hy, hrest.closesWord_eq, hrest.head?_eq]
      · have hnone : ∀ text, bareWord? endWord (c :: text) = none := fun text => by
          simp [bareWord?, endWord, after?, hc]
        rw [hnone, hnone]

theorem blockKeyword?_eq (h : Seam before x y) : blockKeyword? x = blockKeyword? y := by
  obtain ⟨htake, before', hdrop⟩ := h.dropWhile (show isIndent 'e' = false by decide)
  have hoff : ∀ words : List (List Char), words.all (keepsOff before') = true →
      (words.findSome? fun word => bareWord? word (x.dropWhile isIndent)) =
        words.findSome? fun word => bareWord? word (y.dropWhile isIndent) := by
    intro words hwords
    induction words with
    | nil => rfl
    | cons word words ih =>
        rw [List.all_cons, Bool.and_eq_true] at hwords
        rw [List.findSome?_cons, List.findSome?_cons, hdrop.bareWord?_eq hwords.1, ih hwords.2]
  rw [blockKeyword?, blockKeyword?, htake, hoff blockKeywords rfl]

theorem keywordToken?_eq (h : Seam before x y) (b : Option Char) : keywordToken? b x = keywordToken? b y := by
  have hline := h.blockKeyword?_eq
  -- Only behind an equals sign is more looked at than the keyword at the start of the line.
  have hother : ∀ {c : Char} {text : List Char}, c ≠ '=' → keywordToken? b (c :: text) =
      (if opensLine b then blockKeyword? (c :: text) else none).map fun found =>
        ⟨found.1 + found.2, ⟨.keyword, found.1, found.2⟩⟩ := by
    intro c text hc
    rw [keywordToken?, Option.or_none]
    exact fun _ heq => hc (List.cons.inj heq).1
  cases h with
  | close =>
      have hend : ∀ text, endWord ++ text = 'e' :: (['n', 'd'] ++ text) := fun _ => rfl
      rw [hend, hend] at hline ⊢
      rw [hother (by decide), hother (by decide), hline]
  | cons c h =>
      by_cases hc : c = '='
      · subst hc
        simp only [keywordToken?, hline, h.blockKeyword?_eq]
      · rw [hother hc, hother hc, hline]

theorem bareToken?_eq (h : Seam before x y) (b : Option Char) : bareToken? b x = bareToken? b y := by
  have hdo := h.bareWord?_eq (show keepsOff before ['d', 'o'] = true from rfl)
  have hend := h.bareWord?_end_eq
  unfold bareToken?
  rw [hdo, show bareWord? ['e', 'n', 'd'] x = bareWord? ['e', 'n', 'd'] y from hend]
  cases h with
  | close => rfl
  | cons c h =>
      congr 2
      split
      · next heq => obtain ⟨rfl, -⟩ := List.cons.inj heq; rfl
      · next heq => obtain ⟨rfl, -⟩ := List.cons.inj heq; rfl
      · next hopen hclose =>
        split
        · next heq => obtain ⟨rfl, -⟩ := List.cons.inj heq; exact absurd rfl (hopen _)
        · next heq => obtain ⟨rfl, -⟩ := List.cons.inj heq; exact absurd rfl (hclose _)
        · rfl

theorem blockToken?_eq (h : Seam before x y) : blockToken? before x = blockToken? before y := by
  rw [blockToken?, blockToken?, h.keywordToken?_eq, h.bareToken?_eq]

end Seam

/-! ### Scanning up to a closing `end` -/

section Scan

variable {α : Type} {recognise : Recogniser α}

/-- A pattern whose occurrences lie inside the text, and that reads nothing beyond a closing `end`. -/
structure Seamless (recognise : Recogniser α) : Prop where
  fits : Fits recognise
  seam : ∀ {before : Option Char} {x y : List Char}, Seam before x y → recognise before x = recognise before y
  staysOutside : StaysOutside recognise
  quiet : ∀ {before : Option Char} {text : List Char}, Quiet text → recognise before text = none

theorem NeedsKeyword.quiet {keyword : List Char} (h : NeedsKeyword keyword recognise)
    (hkeyword : ∀ c ∈ keyword, isNameChar c = true) (hne : keyword ≠ []) {before : Option Char} {text : List Char}
    (hquiet : Quiet text) : recognise before text = none := by
  apply h before text
  cases text with
  | nil =>
      cases keyword with
      | nil => exact absurd rfl hne
      | cons c rest => simp [keywordSymbol?, after?]
  | cons c rest =>
      exact keywordSymbol?_of_not_isNameChar hkeyword hne (not_isNameChar_of_isBlank (hquiet.isBlank_head rfl)) rest

theorem seamless_factoryHeader? : Seamless factoryHeader? where
  fits := fits_factoryHeader?
  seam h := h.factoryHeader?_eq
  staysOutside := needsKeyword_factoryHeader?.staysOutside
  quiet h := needsKeyword_factoryHeader?.quiet (List.all_eq_true.1 rfl) (by decide) h

theorem seamless_traitHeader? : Seamless traitHeader? where
  fits := fits_traitHeader?
  seam h := h.traitHeader?_eq
  staysOutside := needsKeyword_traitHeader?.staysOutside
  quiet h := needsKeyword_traitHeader?.quiet (List.all_eq_true.1 rfl) (by decide) h

theorem seamless_blockToken? : Seamless blockToken? where
  fits := fits_blockToken?
  seam h := h.blockToken?_eq
  staysOutside := staysOutside_blockToken?
  quiet := by
    intro before text h
    have hequals : text.head? ≠ some '=' := by
      intro heq
      obtain ⟨rest, htext⟩ := List.head?_eq_some_iff.1 heq
      exact absurd (h.isBlank_head htext) (by decide)
    rw [blockToken?_of_keywordToken? (keywordToken?_of_blockKeyword? h.blockKeyword?_eq_none hequals)]
    cases text with
    | nil => simp [bareToken?, bareWord?, after?]
    | cons c rest =>
        have hblank := h.isBlank_head rfl
        refine bareToken?_of_not_isNameChar (not_isNameChar_of_isBlank hblank) ?_ ?_ rest
        · rintro rfl
          exact absurd hblank (by decide)
        · rintro rfl
          exact absurd hblank (by decide)

theorem any_isWordChar_lastOr {before : Option Char} {piece : List Char} (hpiece : ∀ c ∈ piece, isNameChar c = true)
    (hne : piece ≠ []) : Option.any isWordChar (lastOr before piece) = true := by
  rw [lastOr, List.getLast?_eq_some_getLast hne]
  exact isWordChar_of_isNameChar (hpiece _ (List.getLast_mem hne))

variable {before : Option Char} {front back tail left right : List Char}

theorem Seamless.eq_none (h : Seamless recognise) (hback : ∀ c ∈ back, isBlank c = true) (htail : Quiet tail)
    (htext : front ++ (endWord ++ back) = left ++ right) (hlt : front.length < left.length) :
    recognise (lastOr before left) (right ++ tail) = none := by
  rcases List.append_eq_append_iff.1 htext with ⟨middle, rfl, hmiddle⟩ | ⟨middle, rfl, -⟩
  · rcases List.append_eq_append_iff.1 hmiddle with ⟨blanks, rfl, rfl⟩ | ⟨word, hword, rfl⟩
    · exact h.quiet (htail.append fun c hc => hback c (List.mem_append_right blanks hc))
    · cases word with
      | nil => exact h.quiet (htail.append hback)
      | cons c word =>
          have hname : ∀ d ∈ middle ++ c :: word, isNameChar d = true := by
            rw [← hword]
            exact List.all_eq_true.1 rfl
          have hne : middle ≠ [] := by
            rintro rfl
            simp at hlt
          have hc := hname c (List.mem_append_right _ List.mem_cons_self)
          rw [lastOr_append]
          exact h.staysOutside _ c _ (any_isWordChar_lastOr (fun d hd => hname d (List.mem_append_left _ hd)) hne) hc
  · rw [List.length_append] at hlt
    omega

/-- What is found up to a closing `end` does not depend on the lines below it. -/
theorem Seamless.local_of_end (h : Seamless recognise) (hopens : opensToken (lastOr before front) = true)
    (hback : ∀ c ∈ back, isBlank c = true) (htail : Quiet tail) :
    Local recognise before (front ++ (endWord ++ back)) tail := by
  intro left right htext _
  by_cases hlt : front.length < left.length
  · have hnothing : Quiet [] := quiet_of_blank fun _ hmem => absurd hmem List.not_mem_nil
    have hbehind : recognise (lastOr before left) (right ++ []) = none := h.eq_none hback hnothing htext hlt
    rw [List.append_nil] at hbehind
    rw [h.eq_none hback htail htext hlt, hbehind]
  · obtain ⟨middle, rfl, rfl⟩ : ∃ middle, front = left ++ middle ∧ right = middle ++ (endWord ++ back) := by
      rcases List.append_eq_append_iff.1 htext with ⟨middle, rfl, hmiddle⟩ | hfront
      · obtain rfl : middle = [] := by
          rw [List.length_append] at hlt
          exact List.length_eq_zero_iff.1 (by omega)
        exact ⟨[], by simp, by simpa using hmiddle.symm⟩
      · exact hfront
    rw [lastOr_append] at hopens
    rw [List.append_assoc, List.append_assoc]
    exact h.seam (seam_append hopens (htail.append hback) (quiet_of_blank hback))

theorem occurrencesFrom_blank
    (hquiet : ∀ {before : Option Char} {text : List Char}, Quiet text → recognise before text = none) {text : List Char}
    (htext : ∀ c ∈ text, isBlank c = true) (skip offset : Nat) (before : Option Char) :
    occurrencesFrom recognise skip offset before text = [] := by
  cases hfound : occurrencesFrom recognise skip offset before text with
  | nil => rfl
  | cons found founds =>
      have hmem : found ∈ occurrencesFrom recognise skip offset before text := hfound ▸ List.mem_cons_self
      obtain ⟨left, right, rfl, -, -, hsome⟩ := occurs_of_mem_occurrencesFrom hmem
      rw [hquiet (quiet_of_blank fun c hc => htext c (List.mem_append_right left hc))] at hsome
      cases hsome

end Scan

end FactoryIndex.Pattern
