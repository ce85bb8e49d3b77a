import FactoryIndex.Text.Mask

/-!
# Texts that are their own mask

Comments, quoted strings and here-documents all start with one of a few characters. A text without these
characters is left as it is by masking.
-/

namespace FactoryIndex.Text

open Pattern

/-- A character that opens neither a comment nor a string nor a here-document. -/
def isPlain (c : Char) : Bool := c != '#' && c != '\x27' && c != '\x22' && c != '<' && c != '='

theorem isPlain_iff {c : Char} :
    isPlain c = true ↔ c ≠ '#' ∧ c ≠ '\x27' ∧ c ≠ '\x22' ∧ c ≠ '<' ∧ c ≠ '=' := by
  simp [isPlain, and_assoc]

theorem maskCode_of_plain {line : List Char} (hline : ∀ c ∈ line, isPlain c = true) :
    maskCode 0 .code line = (line, []) := by
  induction line with
  | nil => rfl
  | cons c rest ih =>
      obtain ⟨hhash, hsingle, hdouble, hless, -⟩ := isPlain_iff.1 (hline c List.mem_cons_self)
      have hrest := ih fun d hd => hline d (List.mem_cons_of_mem c hd)
      have hheredoc : heredoc? none (c :: rest) = none := by
        unfold heredoc?
        split
        · next heq => exact absurd (List.cons.inj heq).1 hless
        · rfl
      simp [maskCode, hhash, hsingle, hdouble, hheredoc, hrest]

theorem maskLine_of_plain {line : List Char} (hline : ∀ c ∈ line, isPlain c = true) :
    maskLine .code line = (line, .code) := by
  have hstart : startsWith blockCommentStart line = false := by
    cases line with
    | nil => rfl
    | cons c rest =>
        have hequals := (isPlain_iff.1 (hline c List.mem_cons_self)).2.2.2.2
        simp [startsWith, blockCommentStart, List.isPrefixOf, Ne.symm hequals]
  simp only [maskLine, hstart, Bool.false_eq_true, if_false, maskCode_of_plain hline]
  rfl

theorem maskLines_of_plain {pieces : List (List Char)} (hpieces : ∀ line ∈ pieces, ∀ c ∈ line, isPlain c = true) :
    maskLines .code pieces = pieces := by
  induction pieces with
  | nil => rfl
  | cons line rest ih =>
      rw [maskLines, maskLine_of_plain (hpieces line List.mem_cons_self)]
      simp only [ih fun other hother => hpieces other (List.mem_cons_of_mem line hother)]

theorem mem_of_mem_split {α : Type} [DecidableEq α] {separator : α} {text piece : List α}
    (hpiece : piece ∈ split separator text) {c : α} (hc : c ∈ piece) : c ∈ text := by
  induction text generalizing piece with
  | nil =>
      obtain rfl : piece = [] := by simpa [split] using hpiece
      exact absurd hc List.not_mem_nil
  | cons d rest ih =>
      unfold split at hpiece
      split at hpiece
      · rcases List.mem_cons.1 hpiece with rfl | hpiece
        · exact absurd hc List.not_mem_nil
        · exact List.mem_cons_of_mem d (ih hpiece hc)
      · split at hpiece
        · obtain rfl : piece = [d] := List.mem_singleton.1 hpiece
          exact List.mem_singleton.1 hc ▸ List.mem_cons_self
        · next first others hsplit =>
          rcases List.mem_cons.1 hpiece with rfl | hpiece
          · rcases List.mem_cons.1 hc with rfl | hc
            · exact List.mem_cons_self
            · exact List.mem_cons_of_mem d (ih (hsplit ▸ List.mem_cons_self) hc)
          · exact List.mem_cons_of_mem d (ih (hsplit ▸ List.mem_cons_of_mem first hpiece) hc)

theorem mask_of_plain {text : List Char} (htext : ∀ c ∈ text, isPlain c = true) : mask text = text := by
  have hlines : maskLines .code (lines text) = lines text :=
    maskLines_of_plain fun line hline c hc => htext c (mem_of_mem_split hline hc)
  rw [mask, hlines, unlines_lines]

end FactoryIndex.Text
