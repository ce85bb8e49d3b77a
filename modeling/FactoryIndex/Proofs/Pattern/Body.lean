import FactoryIndex.Proofs.Pattern.Seam

/-!
# Where the body of a factory ends

A body that is cut at the next header runs on over every line that starts with another word than `factory`, and over
every `end` behind which the text goes on. It stops at a line that starts with `factory`, and at the `end` behind
which there is nothing left but blanks.
-/

namespace FactoryIndex.Pattern

open Text

variable {indent word rest piece tail : List Char}

/-! ### The end of a body -/

theorem dropWhile_isBlank (hindent : ∀ c ∈ indent, isIndent c = true) (hword : ∀ c ∈ word, isNameChar c = true)
    (hne : word ≠ []) : (indent ++ (word ++ rest)).dropWhile isBlank = word ++ rest := by
  refine dropWhile_word (fun c hc => ?_) ?_
  · rcases isIndent_iff.1 (hindent c hc) with rfl | rfl
    · decide
    · decide
  · cases word with
    | nil => exact absurd rfl hne
    | cons c word =>
        cases hblank : isBlank c with
        | false => exact hblank
        | true =>
            have hc := hword c List.mem_cons_self
            rw [not_isNameChar_of_isBlank hblank] at hc
            cases hc

theorem endsBody_factory (hindent : ∀ c ∈ indent, isIndent c = true) (hrest : closesWord rest = true) :
    endsBody ('\n' :: (indent ++ (factoryWord ++ rest))) = true := by
  have hafter : after? factoryWord (factoryWord ++ rest) = some rest := after?_eq_some_iff.2 rfl
  simp only [endsBody, dropWhile_isBlank hindent (List.all_eq_true.1 rfl) (show factoryWord ≠ [] by decide), hafter,
    Option.any_some, hrest, Bool.true_or]

theorem endsBody_end (hindent : ∀ c ∈ indent, isIndent c = true) (hrest : ∀ c ∈ rest, isBlank c = true) :
    endsBody ('\n' :: (indent ++ (endWord ++ rest))) = true := by
  have hafter : after? endWord (endWord ++ rest) = some rest := after?_eq_some_iff.2 rfl
  simp only [endsBody, dropWhile_isBlank hindent (List.all_eq_true.1 rfl) (show endWord ≠ [] by decide), hafter,
    Option.any_some, List.all_eq_true.2 hrest, Bool.or_true]

/-- A body goes on over a line that starts with another word, if there is more than blanks behind its first letters. -/
theorem endsBody_of_ne (hindent : ∀ c ∈ indent, isIndent c = true) (hword : ∀ c ∈ word, isNameChar c = true)
    (hne : word ≠ []) (hrest : closesWord rest = true) (hfactory : word ≠ factoryWord)
    (hmore : ∃ c ∈ (word ++ rest).drop endWord.length, isBlank c = false) :
    endsBody ('\n' :: (indent ++ (word ++ rest))) = false := by
  have hstop : (after? factoryWord (word ++ rest)).any closesWord = false := by
    cases hafter : after? factoryWord (word ++ rest) with
    | none => rfl
    | some behind =>
        cases hcloses : closesWord behind with
        | false => exact hcloses
        | true =>
            have hunique := word_unique hword (head?_of_closesWord hrest) (List.all_eq_true.1 rfl)
              (head?_of_closesWord hcloses) (after?_eq_some_iff.1 hafter)
            exact absurd hunique.1 hfactory
  have hend : (after? endWord (word ++ rest)).any (·.all isBlank) = false := by
    cases hafter : after? endWord (word ++ rest) with
    | none => rfl
    | some behind =>
        rw [after?_eq_some_iff.1 hafter, List.drop_left] at hmore
        obtain ⟨c, hc, hblank⟩ := hmore
        show behind.all isBlank = false
        rw [List.all_eq_false]
        exact ⟨c, hc, by simp [hblank]⟩
  simp only [endsBody, dropWhile_isBlank hindent hword hne, hstop, hend, Bool.or_false]

/-! ### The length of a body -/

theorem bodyLength?_of_endsBody (htail : endsBody tail = true) : bodyLength? tail = some 0 := by
  cases tail with
  | nil => cases htail
  | cons c rest => rw [bodyLength?, if_pos htail]

theorem bodyLength?_append (hpiece : '\n' ∉ piece) (tail : List Char) :
    bodyLength? (piece ++ tail) = (bodyLength? tail).map (· + piece.length) := by
  induction piece with
  | nil => simp
  | cons c piece ih =>
      rw [List.mem_cons, not_or] at hpiece
      have hends : endsBody (c :: (piece ++ tail)) = false := by
        unfold endsBody
        split
        · next heq => exact absurd (List.cons.inj heq).1.symm hpiece.1
        · rfl
      rw [List.cons_append, bodyLength?, hends, ih hpiece.2, Option.map_map]
      rfl

/-- A body goes on over a line at the start of which it does not end. -/
theorem bodyLength?_line (hpiece : '\n' ∉ piece) (hends : endsBody ('\n' :: (piece ++ tail)) = false) :
    bodyLength? ('\n' :: (piece ++ tail)) = (bodyLength? tail).map (· + ('\n' :: piece).length) := by
  rw [bodyLength?, hends, bodyLength?_append hpiece, Option.map_map]
  rfl

/-! ### Factories with their bodies -/

theorem needsKeyword_factoryBody? : NeedsKeyword factoryWord factoryBody? := by
  intro before text hnone
  rw [factoryBody?, hnone]

theorem restarts_factoryBody? : Restarts factoryBody? where
  newline before tail := needsKeyword_factoryBody? before _
    (keywordSymbol?_of_not_isNameChar (List.all_eq_true.1 rfl) (by decide) (by decide) tail)
  lineStart text := by simp only [factoryBody?, keywordSymbol?, opensWord_newline]

theorem bodyStart?_do (offset : Nat) (before : Option Char) (htail : closesWord tail = true) :
    bodyStart? offset before ([' '] ++ ['d', 'o'] ++ tail) = some (offset + 3, tail) := by
  have hspace : doWord? before (' ' :: (['d', 'o'] ++ tail)) = none := by simp [doWord?, after?]
  have hdo : doWord? (some ' ') ('d' :: 'o' :: tail) = some tail := by
    have hopens : opensWord (some ' ') = true := by decide
    simp [doWord?, after?, hopens, htail]
  have hne : ' ' ≠ '\n' := by decide
  show bodyStart? offset before (' ' :: (['d', 'o'] ++ tail)) = _
  rw [bodyStart?, hspace]
  simp only [hne, if_false]
  show bodyStart? (offset + 1) (some ' ') ('d' :: 'o' :: tail) = _
  rw [bodyStart?, hdo]

theorem factoryBody?_header {before : Option Char} {name body : List Char} (hopens : opensWord before = true)
    (hname : ∀ c ∈ name, isNameChar c = true) (hne : name ≠ []) (hcloses : closesWord (body ++ tail) = true)
    (hlength : bodyLength? (body ++ tail) = some body.length) :
    factoryBody? before (factoryWord ++ ' ' :: ':' :: (name ++ ([' '] ++ ['d', 'o'] ++ (body ++ tail)))) =
      some ⟨factoryWord.length + 2 + name.length + 3 + body.length,
        ⟨⟨factoryWord.length + 2, name⟩, factoryWord.length + 2 + name.length + 3, body⟩⟩ := by
  have hspace : closesWord ([' '] ++ ['d', 'o'] ++ (body ++ tail)) = true := by rfl
  rw [factoryBody?, keywordSymbol?_header hopens hname hne hspace]
  simp only [hspace, if_true, bodyStart?_do _ _ hcloses, hlength, Option.map_some, List.take_left]
  rfl

end FactoryIndex.Pattern
