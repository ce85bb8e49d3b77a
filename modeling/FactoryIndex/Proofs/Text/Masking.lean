import FactoryIndex.Proofs.Text.Lines
import FactoryIndex.Proofs.Text.Mask
import Mathlib.Data.List.Forall2

/-!
# Masked copies

A masked copy has a character in the place of every character of the text. A line is masked without its newline,
and within a line every character is kept or becomes one space, so newlines stay where they are and both copies
have the same lines and columns.

What a line leaves to the next one is its mode alone. Behind a text whose last line leaves the mode of code, masking
starts anew.
-/

namespace FactoryIndex.Text

open Pattern

/-! ### Every character is kept or blanked -/

/-- What may stand in a masked copy in the place of a character: the character itself, or a space unless the
character is a newline. -/
def StandsFor (c d : Char) : Prop := d = c ∨ d = ' ' ∧ c ≠ '\n'

theorem forall₂_blankLine {line : List Char} (hline : '\n' ∉ line) :
    List.Forall₂ StandsFor line (blankLine line) := by
  rw [blankLine, List.forall₂_map_right_iff, List.forall₂_same]
  intro c hc
  exact Or.inr ⟨rfl, fun heq => hline (heq ▸ hc)⟩

theorem forall₂_maskCode {keep : Nat} {state : CodeState} {line : List Char} (hline : '\n' ∉ line) :
    List.Forall₂ StandsFor line (maskCode keep state line).1 := by
  have hkeep : ∀ {c : Char} {rest masked : List Char}, List.Forall₂ StandsFor rest masked →
      List.Forall₂ StandsFor (c :: rest) (c :: masked) := fun h => .cons (Or.inl rfl) h
  have hblank : ∀ {c : Char} {rest masked : List Char}, c ≠ '\n' → List.Forall₂ StandsFor rest masked →
      List.Forall₂ StandsFor (c :: rest) (' ' :: masked) := fun hc h => .cons (Or.inr ⟨rfl, hc⟩) h
  fun_induction maskCode keep state line with
  | case1 => exact .nil
  | case2 keep state c rest masked openers hrest ih | case5 c rest _ masked openers hrest ih
  | case8 c rest _ _ masked openers hrest ih | case9 c rest _ _ hit _ masked openers hrest ih
  | case10 c rest _ _ _ masked openers hrest ih =>
      rw [List.mem_cons, not_or] at hline
      rw [hrest] at ih
      exact hkeep (ih hline.2)
  | case3 c rest masked openers hrest ih | case6 quote c rest _ _ masked openers hrest ih
  | case7 rest masked openers hrest ih =>
      rw [List.mem_cons, not_or] at hline
      rw [hrest] at ih
      exact hblank (Ne.symm hline.1) (ih hline.2)
  | case4 quote c rest masked openers hrest ih =>
      rw [List.mem_cons, List.mem_cons, not_or, not_or] at hline
      rw [hrest] at ih
      exact hblank (by decide) (hblank (Ne.symm hline.2.1) (ih hline.2.2))

theorem forall₂_maskLine (mode : LineMode) {line : List Char} (hline : '\n' ∉ line) :
    List.Forall₂ StandsFor line (maskLine mode line).1 := by
  cases mode with
  | heredoc terminator others => exact forall₂_blankLine hline
  | blockComment => exact forall₂_blankLine hline
  | code =>
      rw [maskLine]
      split
      · exact forall₂_blankLine hline
      · exact forall₂_maskCode hline

theorem forall₂_maskLines (mode : LineMode) {pieces : List (List Char)} (hpieces : ∀ line ∈ pieces, '\n' ∉ line) :
    List.Forall₂ (List.Forall₂ StandsFor) pieces (maskLines mode pieces) := by
  induction pieces generalizing mode with
  | nil => exact .nil
  | cons line rest ih =>
      refine .cons (forall₂_maskLine mode (hpieces line List.mem_cons_self)) (ih _ fun other hother => ?_)
      exact hpieces other (List.mem_cons_of_mem line hother)

theorem forall₂_unlines {pieces masked : List (List Char)}
    (h : List.Forall₂ (List.Forall₂ StandsFor) pieces masked) :
    List.Forall₂ StandsFor (unlines pieces) (unlines masked) := by
  induction h with
  | nil => exact .nil
  | cons hfirst hrest ih =>
      cases hrest with
      | nil => exact hfirst
      | cons hsecond hothers => exact List.rel_append hfirst (.cons (Or.inl rfl) ih)

theorem forall₂_mask (text : List Char) : List.Forall₂ StandsFor text (mask text) := by
  have hlines := forall₂_unlines (forall₂_maskLines .code (newline_not_mem_lines text))
  rwa [unlines_lines] at hlines

theorem StandsFor.eq_newline_iff {c d : Char} (h : StandsFor c d) : d = '\n' ↔ c = '\n' := by
  rcases h with rfl | ⟨rfl, hc⟩
  · exact Iff.rfl
  · simp [hc]

theorem startsAfterNewlines_congr {text masked : List Char} (h : List.Forall₂ StandsFor text masked) (offset : Nat) :
    LineIndex.startsAfterNewlines offset masked = LineIndex.startsAfterNewlines offset text := by
  induction h generalizing offset with
  | nil => rfl
  | cons hfirst _ ih => simp only [LineIndex.startsAfterNewlines, hfirst.eq_newline_iff, ih]

theorem ofText_mask (text : List Char) : LineIndex.ofText (mask text) = LineIndex.ofText text := by
  rw [LineIndex.ofText, LineIndex.ofText, startsAfterNewlines_congr (forall₂_mask text)]

theorem length_mask (text : List Char) : (mask text).length = text.length := (forall₂_mask text).length_eq.symm

/-- **Masking keeps every offset.** A masked copy is as long as its text. In the place of every character stands the
character itself, or a space unless it is a newline. So newlines are at the same offsets, and every offset has
the same line and column in both copies. -/
theorem mask_keeps_offsets (text : List Char) :
    (mask text).length = text.length ∧
      (∀ (i : Nat) (c : Char), text[i]? = some c → (mask text)[i]? = some c ∨ (mask text)[i]? = some ' ' ∧ c ≠ '\n') ∧
      (∀ i : Nat, (mask text)[i]? = some '\n' ↔ text[i]? = some '\n') ∧
      ∀ offset, (LineIndex.ofText (mask text)).position offset = (LineIndex.ofText text).position offset := by
  obtain ⟨hlength, hget⟩ := List.forall₂_iff_get.1 (forall₂_mask text)
  have hstands : ∀ (i : Nat) (c : Char), text[i]? = some c → ∃ d, (mask text)[i]? = some d ∧ StandsFor c d := by
    intro i c hc
    obtain ⟨hi, rfl⟩ := List.getElem?_eq_some_iff.1 hc
    exact ⟨_, List.getElem?_eq_getElem (hlength ▸ hi), hget i hi (hlength ▸ hi)⟩
  refine ⟨hlength.symm, fun i c hc => ?_, fun i => ?_, fun offset => by rw [ofText_mask]⟩
  · obtain ⟨d, hd, rfl | ⟨rfl, hnewline⟩⟩ := hstands i c hc
    · exact Or.inl hd
    · exact Or.inr ⟨hd, hnewline⟩
  · cases hc : text[i]? with
    | none =>
        have hnone : (mask text)[i]? = none := by
          rw [List.getElem?_eq_none_iff] at hc ⊢
          omega
        simp [hnone]
    | some c =>
        obtain ⟨d, hd, hstands⟩ := hstands i c hc
        simp only [hd, Option.some.injEq]
        exact hstands.eq_newline_iff

/-! ### Masking starts anew -/

def modeAfter (mode : LineMode) (pieces : List (List Char)) : LineMode :=
  pieces.foldl (fun mode line => (maskLine mode line).2) mode

theorem modeAfter_append (mode : LineMode) (left right : List (List Char)) :
    modeAfter mode (left ++ right) = modeAfter (modeAfter mode left) right := List.foldl_append

theorem maskLines_append (mode : LineMode) (left right : List (List Char)) :
    maskLines mode (left ++ right) = maskLines mode left ++ maskLines (modeAfter mode left) right := by
  induction left generalizing mode with
  | nil => rfl
  | cons line rest ih =>
      have hrest := ih (maskLine mode line).2
      rw [List.cons_append, maskLines, maskLines]
      simp only [hrest, List.cons_append]
      rfl

theorem maskLines_ne_nil (mode : LineMode) {pieces : List (List Char)} (hne : pieces ≠ []) :
    maskLines mode pieces ≠ [] := by
  cases pieces with
  | nil => exact absurd rfl hne
  | cons line rest => exact List.cons_ne_nil _ _

/-- The masked copy of a text whose first line is in the given mode, and the mode behind its last line. -/
def maskFromMode (mode : LineMode) (text : List Char) : List Char × LineMode :=
  (unlines (maskLines mode (lines text)), modeAfter mode (lines text))

theorem maskFromMode_append (mode : LineMode) (a b : List Char) :
    maskFromMode mode (a ++ '\n' :: b) =
      ((maskFromMode mode a).1 ++ '\n' :: (maskFromMode (maskFromMode mode a).2 b).1,
        (maskFromMode (maskFromMode mode a).2 b).2) := by
  simp only [maskFromMode]
  rw [lines_append, maskLines_append, modeAfter_append,
    unlines_append (maskLines_ne_nil _ (lines_ne_nil a)) (maskLines_ne_nil _ (lines_ne_nil b))]

theorem mask_append {a : List Char} (ha : modeAfter .code (lines a) = .code) (b : List Char) :
    mask (a ++ '\n' :: b) = mask a ++ '\n' :: mask b := by
  have happend := congrArg Prod.fst (maskFromMode_append .code a b)
  simp only [maskFromMode, ha] at happend
  exact happend

end FactoryIndex.Text
