import FactoryIndex.Proofs.Pattern.Scan

/-!
# Headers and tokens at a word

The headers of factories and traits start with a keyword, a blank and a symbol, so that a word which is not that
keyword, or is followed by something else, starts no header. A block token is one of the words `do` and `end`, a
brace, or a keyword with nothing but spaces and tabs before it on its line.
-/

namespace FactoryIndex.Pattern

open Text

variable {before : Option Char} {keyword word name tail : List Char}

theorem head?_of_closesWord (htail : closesWord tail = true) : Option.any isNameChar tail.head? = false := by
  cases tail with
  | nil => rfl
  | cons c rest =>
      cases hc : isNameChar c with
      | false => exact hc
      | true =>
          have hword := isWordChar_of_isNameChar hc
          simp [closesWord, hword] at htail

/-! ### Keywords of headers -/

/-- A recogniser of headers that start with a keyword. -/
def NeedsKeyword {α : Type} (keyword : List Char) (recognise : Recogniser α) : Prop :=
  ∀ before text, keywordSymbol? keyword before text = none → recognise before text = none

theorem needsKeyword_factoryHeader? : NeedsKeyword factoryWord factoryHeader? := by
  intro before text hnone
  rw [factoryHeader?, hnone]

theorem needsKeyword_traitHeader? : NeedsKeyword traitWord traitHeader? := by
  intro before text hnone
  rw [traitHeader?, hnone]

theorem keywordSymbol?_of_inside (hbefore : Option.any isWordChar before = true) (text : List Char) :
    keywordSymbol? keyword before text = none := by
  simp [keywordSymbol?, opensWord, hbefore]

theorem NeedsKeyword.staysOutside {α : Type} {recognise : Recogniser α} (h : NeedsKeyword keyword recognise) :
    StaysOutside recognise :=
  fun before c text hbefore _ => h before (c :: text) (keywordSymbol?_of_inside hbefore (c :: text))

theorem keywordSymbol?_of_not_isNameChar (hkeyword : ∀ c ∈ keyword, isNameChar c = true) (hne : keyword ≠ [])
    {c : Char} (hc : isNameChar c = false) (text : List Char) : keywordSymbol? keyword before (c :: text) = none := by
  have hafter : after? keyword (c :: text) = none := by
    cases keyword with
    | nil => exact absurd rfl hne
    | cons d rest =>
        have hd := hkeyword d List.mem_cons_self
        rw [after?, if_neg]
        rintro rfl
        rw [hc] at hd
        cases hd
  simp [keywordSymbol?, hafter]

theorem keywordSymbol?_of_ne (hkeyword : ∀ c ∈ keyword, isNameChar c = true)
    (hword : ∀ c ∈ word, isNameChar c = true) (htail : closesWord tail = true) (hne : word ≠ keyword) :
    keywordSymbol? keyword before (word ++ tail) = none := by
  unfold keywordSymbol?
  split
  · split
    · next rest hafter =>
      rw [if_neg]
      intro hblank
      -- The keyword would end where a blank follows, and so it would be the word.
      have hrest : Option.any isNameChar rest.head? = false := by
        cases rest with
        | nil => rfl
        | cons c rest => exact not_isNameChar_of_isBlank hblank
      have heq := after?_eq_some_iff.1 hafter
      exact hne (word_unique hword (head?_of_closesWord htail) hkeyword hrest heq).1
    · rfl
  · rfl

/-- A word that is followed by another word starts no header, whatever it is. -/
theorem keywordSymbol?_of_word_after (hkeyword : ∀ c ∈ keyword, isNameChar c = true)
    (hword : ∀ c ∈ word, isNameChar c = true) {c : Char} (hc : isNameChar c = true) (text : List Char) :
    keywordSymbol? keyword before (word ++ ' ' :: c :: text) = none := by
  by_cases heq : word = keyword
  · subst heq
    have hafter : after? word (word ++ ' ' :: c :: text) = some (' ' :: c :: text) := after?_eq_some_iff.2 rfl
    have hblank : isBlank c = false := by
      cases hb : isBlank c with
      | false => rfl
      | true => rw [not_isNameChar_of_isBlank hb] at hc; cases hc
    have hdrop : (' ' :: c :: text).dropWhile isBlank = c :: text := by
      rw [List.dropWhile_cons, if_pos (by decide), List.dropWhile_cons, hblank]
      rfl
    have hcolon : c ≠ ':' := by
      rintro rfl
      exact absurd hc (by decide)
    have hsymbol : symbol? (c :: text) = none := by
      unfold symbol?
      split
      · next heq => exact absurd (List.cons.inj heq).1 hcolon
      · rfl
    unfold keywordSymbol?
    split
    · rw [hafter]
      simp only
      split
      · rw [blankSymbol?, hdrop, hsymbol]
        rfl
      · rfl
    · rfl
  · exact keywordSymbol?_of_ne hkeyword hword (by rfl) heq

theorem keywordSymbol?_header (hopens : opensWord before = true) (hname : ∀ c ∈ name, isNameChar c = true)
    (hne : name ≠ []) (htail : closesWord tail = true) :
    keywordSymbol? keyword before (keyword ++ ' ' :: ':' :: (name ++ tail)) =
      some (⟨keyword.length + 2, name⟩, tail) := by
  have hafter : after? keyword (keyword ++ ' ' :: ':' :: (name ++ tail)) = some (' ' :: ':' :: (name ++ tail)) :=
    after?_eq_some_iff.2 rfl
  have hsymbol : symbol? (':' :: (name ++ tail)) = some (⟨1, name⟩, tail) := by
    rw [symbol?, takeWhile_word hname (head?_of_closesWord htail), dropWhile_word hname (head?_of_closesWord htail)]
    simp [hne]
  have htake : (' ' :: ':' :: (name ++ tail)).takeWhile isBlank = [' '] := by
    rw [List.takeWhile_cons, if_pos (by decide), List.takeWhile_cons, if_neg (by decide)]
  have hdrop : (' ' :: ':' :: (name ++ tail)).dropWhile isBlank = ':' :: (name ++ tail) := by
    rw [List.dropWhile_cons, if_pos (by decide), List.dropWhile_cons, if_neg (by decide)]
  have hblank : Option.any isBlank (' ' :: ':' :: (name ++ tail)).head? = true := by
    rw [List.head?_cons]
    decide
  rw [keywordSymbol?, if_pos hopens, hafter]
  simp only [hblank, if_true, blankSymbol?, htake, hdrop, hsymbol]
  rfl

/-! ### Tokens of blocks -/

theorem bareWord?_of_ne {token : List Char} (htoken : ∀ c ∈ token, isNameChar c = true)
    (hword : ∀ c ∈ word, isNameChar c = true) (htail : closesWord tail = true) (hne : word ≠ token) :
    bareWord? token (word ++ tail) = none := by
  unfold bareWord?
  split
  · next rest hafter =>
    rw [if_neg]
    intro hcloses
    rw [Bool.and_eq_true] at hcloses
    exact hne (word_unique hword (head?_of_closesWord htail) htoken (head?_of_closesWord hcloses.1)
      (after?_eq_some_iff.1 hafter)).1
  · rfl

theorem bareWord?_self (htail : closesWord tail = true) (hlabel : tail.head? ≠ some ':') :
    bareWord? word (word ++ tail) = some word.length := by
  have hafter : after? word (word ++ tail) = some tail := after?_eq_some_iff.2 rfl
  have hcloses : (closesWord tail && tail.head? != some ':') = true := by simp [htail, hlabel]
  rw [bareWord?, hafter]
  simp only [hcloses, if_true]

/-- The words that are tokens wherever they stand. -/
def tokenWords : List (List Char) := [['d', 'o'], ['e', 'n', 'd']]

theorem bareToken?_of_symbol (hopens : opensToken before = false) {c : Char} (hc : isNameChar c = true)
    (text : List Char) : bareToken? before (c :: text) = none := by
  unfold bareToken?
  simp only [hopens, Bool.false_and, Bool.false_eq_true, if_false]
  split
  · next heq => exact absurd ((List.cons.inj heq).1 ▸ hc) (by decide)
  · next heq => exact absurd ((List.cons.inj heq).1 ▸ hc) (by decide)
  · rfl

theorem bareToken?_of_word (hword : ∀ c ∈ word, isNameChar c = true) (hne : word ≠ [])
    (htail : closesWord tail = true) (htoken : word ∉ tokenWords) : bareToken? before (word ++ tail) = none := by
  have hdo : bareWord? ['d', 'o'] (word ++ tail) = none :=
    bareWord?_of_ne (List.all_eq_true.1 rfl) hword htail fun heq => htoken (heq ▸ by decide)
  have hend : bareWord? ['e', 'n', 'd'] (word ++ tail) = none :=
    bareWord?_of_ne (List.all_eq_true.1 rfl) hword htail fun heq => htoken (heq ▸ by decide)
  unfold bareToken?
  simp only [hdo, hend, Option.isSome_none, Bool.and_false, Bool.false_eq_true, if_false]
  cases word with
  | nil => exact absurd rfl hne
  | cons c rest =>
      have hc := hword c List.mem_cons_self
      split
      · next heq => exact absurd ((List.cons.inj heq).1 ▸ hc) (by decide)
      · next heq => exact absurd ((List.cons.inj heq).1 ▸ hc) (by decide)
      · rfl

theorem bareToken?_of_not_isNameChar {c : Char} (hc : isNameChar c = false) (hopen : c ≠ '{')
    (hclose : c ≠ '}') (text : List Char) : bareToken? before (c :: text) = none := by
  have hword : ∀ token : List Char, token ∈ tokenWords → bareWord? token (c :: text) = none := by
    intro token htoken
    have hafter : after? token (c :: text) = none := by
      cases hrest : after? token (c :: text) with
      | none => rfl
      | some rest =>
          have heq := after?_eq_some_iff.1 hrest
          simp only [tokenWords, List.mem_cons, List.not_mem_nil, or_false] at htoken
          rcases htoken with rfl | rfl
          · exact absurd hc ((List.cons.inj heq).1 ▸ by decide)
          · exact absurd hc ((List.cons.inj heq).1 ▸ by decide)
    rw [bareWord?, hafter]
  unfold bareToken?
  simp only [hword _ (List.mem_cons_self ..), hword ['e', 'n', 'd'] (by decide), Option.isSome_none, Bool.and_false,
    Bool.false_eq_true, if_false]
  split
  · next heq => exact absurd (List.cons.inj heq).1 hopen
  · next heq => exact absurd (List.cons.inj heq).1 hclose
  · rfl

theorem bareToken?_do (hopens : opensToken before = true) (htail : closesWord tail = true)
    (hlabel : tail.head? ≠ some ':') : bareToken? before (['d', 'o'] ++ tail) = some ⟨2, ⟨.openDo, 0, 2⟩⟩ := by
  unfold bareToken?
  rw [hopens, bareWord?_self htail hlabel]
  rfl

theorem bareToken?_end (hopens : opensToken before = true) (htail : closesWord tail = true)
    (hlabel : tail.head? ≠ some ':') :
    bareToken? before (['e', 'n', 'd'] ++ tail) = some ⟨3, ⟨.closeEnd, 0, 3⟩⟩ := by
  have hdo : bareWord? ['d', 'o'] (['e', 'n', 'd'] ++ tail) = none := rfl
  unfold bareToken?
  rw [hopens, hdo, bareWord?_self htail hlabel]
  rfl

/-! ### Keywords at the start of a line -/

theorem keywordToken?_of_not_opensLine (hline : opensLine before = false) {c : Char} (hc : c ≠ '=')
    (text : List Char) : keywordToken? before (c :: text) = none := by
  unfold keywordToken?
  simp only [hline, Bool.false_eq_true, if_false, Option.none_or, Option.map_eq_none_iff]
  split
  · next heq => exact absurd (List.cons.inj heq).1 hc
  · rfl

theorem keywordToken?_of_blockKeyword? {text : List Char} (hkeyword : blockKeyword? text = none)
    (hhead : text.head? ≠ some '=') : keywordToken? before text = none := by
  unfold keywordToken?
  simp only [hkeyword, ite_self, Option.none_or, Option.map_eq_none_iff]
  split
  · next heq => exact absurd rfl hhead
  · rfl

section Indent

variable {indent : List Char}

theorem isIndent_iff {c : Char} : isIndent c = true ↔ c = ' ' ∨ c = '\t' := by
  simp [isIndent]

theorem not_isIndent_of_isNameChar {c : Char} (hc : isNameChar c = true) : isIndent c = false := by
  cases hindent : isIndent c with
  | false => rfl
  | true =>
      rcases isIndent_iff.1 hindent with rfl | rfl
      · exact absurd hc (by decide)
      · exact absurd hc (by decide)

theorem blockKeyword?_of_word (indent : List Char) (hindent : ∀ c ∈ indent, isIndent c = true)
    (hword : ∀ c ∈ word, isNameChar c = true) (hne : word ≠ []) (htail : closesWord tail = true)
    (hkeyword : word ∉ blockKeywords) : blockKeyword? (indent ++ (word ++ tail)) = none := by
  have hhead : Option.any isIndent (word ++ tail).head? = false := by
    cases word with
    | nil => exact absurd rfl hne
    | cons c rest => exact not_isIndent_of_isNameChar (hword c List.mem_cons_self)
  have hnone : (blockKeywords.findSome? fun keyword => bareWord? keyword (word ++ tail)) = none := by
    rw [List.findSome?_eq_none_iff]
    intro keyword hmem
    have hkeywords : blockKeywords.all (List.all · isNameChar) = true := rfl
    have hchars := List.all_eq_true.1 (List.all_eq_true.1 hkeywords keyword hmem)
    exact bareWord?_of_ne hchars hword htail fun heq => hkeyword (heq ▸ hmem)
  rw [blockKeyword?, dropWhile_word hindent hhead, hnone]
  rfl

theorem blockKeyword?_of_blank (hindent : ∀ c ∈ indent, isIndent c = true)
    (htail : Option.all (· == '\n') tail.head? = true) : blockKeyword? (indent ++ tail) = none := by
  cases tail with
  | nil =>
      rw [blockKeyword?, dropWhile_word hindent rfl]
      rfl
  | cons c rest =>
      obtain rfl : c = '\n' := by simpa using htail
      rw [blockKeyword?, dropWhile_word hindent rfl]
      rfl

theorem keywordToken?_of_mem (hkeyword : keyword ∈ blockKeywords) (hline : opensLine before = true)
    (hindent : ∀ c ∈ indent, isIndent c = true) (text : List Char) :
    keywordToken? before (indent ++ (keyword ++ ' ' :: text)) =
      some ⟨indent.length + keyword.length, ⟨.keyword, indent.length, keyword.length⟩⟩ := by
  have hkeywords : blockKeywords.all (fun word => !word.isEmpty && word.all isNameChar) = true := rfl
  have hfound : blockKeywords.findSome? (fun word => bareWord? word (keyword ++ ' ' :: text)) =
      some keyword.length := by
    simp only [blockKeywords, List.mem_cons, List.not_mem_nil, or_false] at hkeyword
    rcases hkeyword with rfl | rfl | rfl | rfl | rfl | rfl | rfl | rfl | rfl <;> rfl
  have hhead : Option.any isIndent (keyword ++ ' ' :: text).head? = false := by
    have hword := List.all_eq_true.1 hkeywords keyword hkeyword
    rw [Bool.and_eq_true, List.all_eq_true] at hword
    cases keyword with
    | nil => cases hword.1
    | cons c rest => exact not_isIndent_of_isNameChar (hword.2 c List.mem_cons_self)
  have htoken : blockKeyword? (indent ++ (keyword ++ ' ' :: text)) = some (indent.length, keyword.length) := by
    rw [blockKeyword?, dropWhile_word hindent hhead, takeWhile_word hindent hhead, hfound]
    rfl
  unfold keywordToken?
  simp only [hline, if_true, htoken]
  rfl

end Indent

/-! ### All tokens together -/

theorem blockToken?_of_keywordToken? {text : List Char} (hnone : keywordToken? before text = none) :
    blockToken? before text = bareToken? before text := by
  rw [blockToken?, hnone]

theorem staysOutside_blockToken? : StaysOutside blockToken? := by
  intro before c text hbefore hc
  have hequals : c ≠ '=' := by
    rintro rfl
    exact absurd hc (by decide)
  cases before with
  | none => cases hbefore
  | some d =>
      have hd : isWordChar d = true := hbefore
      have hline : opensLine (some d) = false := by
        have hne : d ≠ '\n' := by
          rintro rfl
          exact absurd hd (by decide)
        simp [opensLine, hne]
      have hopens : opensToken (some d) = false := by simp [opensToken, hd]
      rw [blockToken?_of_keywordToken? (keywordToken?_of_not_opensLine hline hequals text)]
      exact bareToken?_of_symbol hopens hc text

end FactoryIndex.Pattern
