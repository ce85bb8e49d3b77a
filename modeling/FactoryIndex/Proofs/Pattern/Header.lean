import FactoryIndex.Proofs.Pattern.Occurrence

/-!
# What headers and tokens are made of

A header that is recognised starts with its keyword, blanks, a colon and a name, and ends inside the text. This is
read off the recognisers once, together with what makes texts scannable line by line: no header and no token starts
at a newline, and the start of a line is to them like the start of a text.
-/

namespace FactoryIndex.Pattern

open Text

variable {before : Option Char} {keyword text rest : List Char} {symbol : Symbol}

theorem length_takeWhile_add (p : Char → Bool) (text : List Char) :
    (text.takeWhile p).length + (text.dropWhile p).length = text.length := by
  rw [← List.length_append, List.takeWhile_append_dropWhile]

/-! ### Symbols -/

/-- The name of a symbol: at least one character, and only those of names. -/
def Symbol.Named (symbol : Symbol) : Prop := symbol.name ≠ [] ∧ ∀ c ∈ symbol.name, isNameChar c = true

theorem symbol?_eq_some (h : symbol? text = some (symbol, rest)) :
    text = ':' :: (symbol.name ++ rest) ∧ symbol.start = 1 ∧ symbol.Named := by
  unfold symbol? at h
  split at h
  · next tail =>
    simp only at h
    split at h
    · cases h
    · next hname =>
      obtain ⟨rfl, rfl⟩ := Prod.mk.inj (Option.some.inj h)
      refine ⟨?_, rfl, by simpa using hname, List.all_eq_true.1 List.all_takeWhile⟩
      rw [List.takeWhile_append_dropWhile]
  · cases h

theorem blankSymbol?_eq_some (h : blankSymbol? text = some (symbol, rest)) :
    ∃ blanks, (∀ c ∈ blanks, isBlank c = true) ∧ text = blanks ++ ':' :: (symbol.name ++ rest) ∧
      symbol.start = blanks.length + 1 ∧ symbol.Named := by
  obtain ⟨⟨inner, rest'⟩, hsymbol, heq⟩ := Option.map_eq_some_iff.1 h
  obtain ⟨rfl, rfl⟩ := Prod.mk.inj heq
  obtain ⟨htext, hstart, hnamed⟩ := symbol?_eq_some hsymbol
  refine ⟨text.takeWhile isBlank, List.all_eq_true.1 List.all_takeWhile, ?_, ?_, hnamed⟩
  · show text = text.takeWhile isBlank ++ ':' :: (inner.name ++ rest')
    rw [← htext, List.takeWhile_append_dropWhile]
  · rw [Symbol.shift, hstart]

theorem keywordSymbol?_eq_some (h : keywordSymbol? keyword before text = some (symbol, rest)) :
    opensWord before = true ∧ ∃ blanks, blanks ≠ [] ∧ (∀ c ∈ blanks, isBlank c = true) ∧
      text = keyword ++ (blanks ++ ':' :: (symbol.name ++ rest)) ∧
      symbol.start = keyword.length + (blanks.length + 1) ∧ symbol.Named := by
  unfold keywordSymbol? at h
  split at h
  · next hopens =>
    split at h
    · next tail hafter =>
      split at h
      · next hblank =>
        obtain ⟨⟨inner, rest'⟩, hsymbol, heq⟩ := Option.map_eq_some_iff.1 h
        obtain ⟨rfl, rfl⟩ := Prod.mk.inj heq
        obtain ⟨blanks, hblanks, htail, hstart, hnamed⟩ := blankSymbol?_eq_some hsymbol
        refine ⟨hopens, blanks, ?_, hblanks, ?_, by rw [Symbol.shift, hstart], hnamed⟩
        · rintro rfl
          rw [htail] at hblank
          exact absurd (show isBlank ':' = true from hblank) (by decide)
        · exact htail ▸ after?_eq_some_iff.1 hafter
      · cases h
    · cases h
  · cases h

theorem length_of_keywordSymbol? (h : keywordSymbol? keyword before text = some (symbol, rest)) :
    text.length = symbol.stop + rest.length := by
  obtain ⟨-, blanks, -, -, rfl, hstart, -⟩ := keywordSymbol?_eq_some h
  simp only [List.length_append, List.length_cons, Symbol.stop, hstart]
  omega

/-! ### Headers -/

theorem parentMark?_eq_some {mark : Nat} (h : parentMark? text = some (mark, rest)) :
    ∃ piece, text = piece ++ rest ∧ piece.length = mark := by
  unfold parentMark? at h
  split at h
  · obtain ⟨rfl, rfl⟩ := Prod.mk.inj (Option.some.inj h)
    exact ⟨[':'], rfl, rfl⟩
  · obtain ⟨behind, hbehind, heq⟩ := Option.map_eq_some_iff.1 h
    obtain ⟨rfl, rfl⟩ := Prod.mk.inj heq
    refine ⟨text.takeWhile isBlank ++ ['=', '>'], ?_, List.length_append⟩
    rw [List.append_assoc, ← after?_eq_some_iff.1 hbehind, List.takeWhile_append_dropWhile]

theorem parentClause?_eq_some (h : parentClause? before text = some symbol) :
    ∃ front rest, text = front ++ (symbol.name ++ rest) ∧ front.length = symbol.start ∧ symbol.Named := by
  unfold parentClause? at h
  split at h
  · split at h
    · next behind hafter =>
      split at h
      · next mark tail hmark =>
        obtain ⟨⟨inner, rest⟩, hsymbol, rfl⟩ := Option.map_eq_some_iff.1 h
        obtain ⟨blanks, -, rfl, hstart, hnamed⟩ := blankSymbol?_eq_some hsymbol
        obtain ⟨piece, rfl, rfl⟩ := parentMark?_eq_some hmark
        refine ⟨parentWord ++ (piece ++ (blanks ++ [':'])), rest, ?_, ?_, hnamed⟩
        · rw [after?_eq_some_iff.1 hafter]
          simp only [Symbol.shift, List.append_assoc, List.singleton_append]
        · simp only [Symbol.shift, hstart, List.length_append, List.length_singleton]
          omega
      · cases h
    · cases h
  · cases h

theorem stop_le_of_parentClause? (h : parentClause? before text = some symbol) : symbol.stop ≤ text.length := by
  obtain ⟨front, rest, rfl, hstart, -⟩ := parentClause?_eq_some h
  simp only [Symbol.stop, ← hstart, List.length_append]
  omega

theorem stop_le_of_parentIn? {offset : Nat} {comma : Bool} (h : parentIn? offset comma before text = some symbol) :
    symbol.stop ≤ offset + text.length := by
  induction text generalizing offset comma before with
  | nil => cases h
  | cons c rest ih =>
      rw [parentIn?] at h
      have hrest : ∀ {comma : Bool}, parentIn? (offset + 1) comma (some c) rest = some symbol →
          symbol.stop ≤ offset + (c :: rest).length := by
        intro comma hsome
        have hle := ih hsome
        rw [List.length_cons]
        omega
      split at h
      · next inner hclause =>
        obtain rfl := Option.some.inj h
        have hle := stop_le_of_parentClause? hclause
        simp only [Symbol.stop, Symbol.shift] at hle ⊢
        omega
      · split at h
        · split at h
          · exact hrest h
          · cases h
        · exact hrest h

theorem fits_factoryHeader? : Fits factoryHeader? := by
  intro before text hit h
  unfold factoryHeader? at h
  split at h
  · next name rest hname =>
    have hlength := length_of_keywordSymbol? hname
    split at h
    · obtain rfl := Option.some.inj h
      show (Option.getD _ name).stop ≤ text.length
      cases hparent : parentIn? name.stop false name.name.getLast? rest with
      | none =>
          show name.stop ≤ text.length
          omega
      | some parent =>
          have hle := stop_le_of_parentIn? hparent
          show parent.stop ≤ text.length
          omega
    · cases h
  · cases h

theorem doWord?_eq_some (h : doWord? before text = some rest) : text = ['d', 'o'] ++ rest := by
  unfold doWord? at h
  split at h
  · split at h
    · next behind hafter =>
      split at h
      · obtain rfl := Option.some.inj h
        exact after?_eq_some_iff.1 hafter
      · cases h
    · cases h
  · cases h

theorem fits_traitHeader? : Fits traitHeader? := by
  intro before text hit h
  unfold traitHeader? at h
  split at h
  · next name rest hname =>
    have hlength := length_of_keywordSymbol? hname
    simp only at h
    split at h
    · next behind hdo =>
      split at h
      · cases h
      · obtain rfl := Option.some.inj h
        rw [← length_takeWhile_add isBlank rest, doWord?_eq_some hdo] at hlength
        simp only [List.length_append, List.length_cons, List.length_nil] at hlength
        show name.stop + (rest.takeWhile isBlank).length + 2 ≤ text.length
        omega
    · cases h
  · cases h

/-! ### Tokens -/

theorem bareWord?_eq_some {word : List Char} {length : Nat} (h : bareWord? word text = some length) :
    length = word.length ∧ ∃ rest, text = word ++ rest ∧ closesWord rest = true ∧ rest.head? ≠ some ':' := by
  unfold bareWord? at h
  split at h
  · next rest hafter =>
    split at h
    · next hcloses =>
      rw [Bool.and_eq_true] at hcloses
      exact ⟨(Option.some.inj h).symm, rest, after?_eq_some_iff.1 hafter, hcloses.1, by simpa using hcloses.2⟩
    · cases h
  · cases h

theorem length_le_of_bareWord? {word : List Char} {length : Nat} (h : bareWord? word text = some length) :
    word.length ≤ text.length := by
  obtain ⟨-, rest, rfl, -⟩ := bareWord?_eq_some h
  rw [List.length_append]
  omega

theorem length_le_of_blockKeyword? {start length : Nat} (h : blockKeyword? text = some (start, length)) :
    start + length ≤ text.length := by
  obtain ⟨found, hfound, heq⟩ := Option.map_eq_some_iff.1 h
  obtain ⟨rfl, rfl⟩ := Prod.mk.inj heq
  obtain ⟨word, -, hword⟩ := List.exists_of_findSome?_eq_some hfound
  have hle := length_le_of_bareWord? hword
  have htake := length_takeWhile_add isIndent text
  rw [(bareWord?_eq_some hword).1]
  omega

theorem keywordToken?_eq_some {hit : Hit BlockTokenParts} (h : keywordToken? before text = some hit) :
    hit.parts.token = .keyword ∧ hit.length ≤ text.length := by
  obtain ⟨⟨start, length⟩, hkeyword, rfl⟩ := Option.map_eq_some_iff.1 h
  refine ⟨rfl, ?_⟩
  rcases Option.or_eq_some_iff.1 hkeyword with hline | ⟨-, hequals⟩
  · split at hline
    · exact length_le_of_blockKeyword? hline
    · cases hline
  · split at hequals
    · next rest =>
      obtain ⟨⟨start', length'⟩, hinner, heq⟩ := Option.map_eq_some_iff.1 hequals
      obtain ⟨rfl, rfl⟩ := Prod.mk.inj heq
      have hle := length_le_of_blockKeyword? hinner
      rw [List.length_cons]
      show start' + 1 + length' ≤ rest.length + 1
      omega
    · cases hequals

theorem bareToken?_eq_some {hit : Hit BlockTokenParts} (h : bareToken? before text = some hit) :
    (opensToken before = true ∧ (∃ length, bareWord? ['d', 'o'] text = some length) ∧ hit = ⟨2, ⟨.openDo, 0, 2⟩⟩) ∨
      (opensToken before = true ∧ (∃ length, bareWord? ['e', 'n', 'd'] text = some length) ∧
        hit = ⟨3, ⟨.closeEnd, 0, 3⟩⟩) ∨
      (∃ rest, text = '{' :: rest ∧ hit = ⟨1, ⟨.openBrace, 0, 1⟩⟩) ∨
      ∃ rest, text = '}' :: rest ∧ hit = ⟨1, ⟨.closeBrace, 0, 1⟩⟩ := by
  unfold bareToken? at h
  split at h
  · next hdo =>
    rw [Bool.and_eq_true, Option.isSome_iff_exists] at hdo
    exact Or.inl ⟨hdo.1, hdo.2, (Option.some.inj h).symm⟩
  · split at h
    · next hend =>
      rw [Bool.and_eq_true, Option.isSome_iff_exists] at hend
      exact Or.inr (Or.inl ⟨hend.1, hend.2, (Option.some.inj h).symm⟩)
    · split at h
      · next rest _ _ => exact Or.inr (Or.inr (Or.inl ⟨rest, rfl, (Option.some.inj h).symm⟩))
      · next rest _ _ => exact Or.inr (Or.inr (Or.inr ⟨rest, rfl, (Option.some.inj h).symm⟩))
      · cases h

theorem fits_blockToken? : Fits blockToken? := by
  intro before text hit h
  unfold blockToken? at h
  split at h
  · next hkeyword =>
    obtain rfl := Option.some.inj h
    exact (keywordToken?_eq_some hkeyword).2
  · rcases bareToken?_eq_some h with ⟨-, ⟨length, hdo⟩, rfl⟩ | ⟨-, ⟨length, hend⟩, rfl⟩ | ⟨rest, rfl, rfl⟩ |
      ⟨rest, rfl, rfl⟩
    · exact length_le_of_bareWord? hdo
    · exact length_le_of_bareWord? hend
    · exact Nat.succ_le_succ (Nat.zero_le _)
    · exact Nat.succ_le_succ (Nat.zero_le _)

/-! ### Line by line -/

theorem opensWord_newline : opensWord (some '\n') = opensWord none := by decide

theorem restarts_factoryHeader? : Restarts factoryHeader? where
  newline before tail := needsKeyword_factoryHeader? before _
    (keywordSymbol?_of_not_isNameChar (List.all_eq_true.1 rfl) (by decide) (by decide) tail)
  lineStart text := by simp only [factoryHeader?, keywordSymbol?, opensWord_newline]

theorem restarts_traitHeader? : Restarts traitHeader? where
  newline before tail := needsKeyword_traitHeader? before _
    (keywordSymbol?_of_not_isNameChar (List.all_eq_true.1 rfl) (by decide) (by decide) tail)
  lineStart text := by simp only [traitHeader?, keywordSymbol?, opensWord_newline]

theorem restarts_blockToken? : Restarts blockToken? where
  newline before tail := by
    have hkeyword : blockKeyword? ('\n' :: tail) = none :=
      blockKeyword?_of_blank (fun _ hmem => absurd hmem List.not_mem_nil) rfl
    rw [blockToken?_of_keywordToken? (keywordToken?_of_blockKeyword? hkeyword (by simp))]
    exact bareToken?_of_not_isNameChar (by decide) (by decide) (by decide) tail
  lineStart text := by
    have hline : opensLine (some '\n') = opensLine none := by decide
    have htoken : opensToken (some '\n') = opensToken none := by decide
    simp only [blockToken?, keywordToken?, bareToken?, hline, htoken]

end FactoryIndex.Pattern
