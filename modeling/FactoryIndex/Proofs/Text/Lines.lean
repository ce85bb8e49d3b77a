import FactoryIndex.Proofs.Text.LineIndex

/-!
# Texts put one under the other

A text that is put under another one, with a newline between them, adds its lines to those of the other. So the
upper text keeps its positions, and a position of the lower text moves down by the number of lines of the upper
one and stays in its column.
-/

namespace FactoryIndex.Text

/-! ### Lines -/

theorem not_mem_of_mem_split {α : Type} [DecidableEq α] {separator : α} {text piece : List α}
    (hpiece : piece ∈ split separator text) : separator ∉ piece := by
  induction text generalizing piece with
  | nil =>
      obtain rfl : piece = [] := by simpa [split] using hpiece
      exact List.not_mem_nil
  | cons c rest ih =>
      unfold split at hpiece
      split at hpiece
      · rcases List.mem_cons.1 hpiece with rfl | hpiece
        · exact List.not_mem_nil
        · exact ih hpiece
      · next hc =>
        split at hpiece
        · obtain rfl : piece = [c] := List.mem_singleton.1 hpiece
          rw [List.mem_singleton]
          exact Ne.symm hc
        · next first others hsplit =>
          rcases List.mem_cons.1 hpiece with rfl | hpiece
          · rw [List.mem_cons, not_or]
            exact ⟨Ne.symm hc, ih (hsplit ▸ List.mem_cons_self)⟩
          · exact ih (hsplit ▸ List.mem_cons_of_mem first hpiece)

theorem newline_not_mem_lines (text : List Char) : ∀ line ∈ lines text, '\n' ∉ line :=
  fun _ hline => not_mem_of_mem_split hline

theorem lines_ne_nil (text : List Char) : lines text ≠ [] := split_ne_nil '\n' text

theorem lines_append (left right : List Char) : lines (left ++ '\n' :: right) = lines left ++ lines right := by
  induction left with
  | nil => rfl
  | cons c rest ih =>
      simp only [lines] at ih ⊢
      rw [List.cons_append, split, split, ih]
      split
      · rfl
      · cases hsplit : split '\n' rest with
        | nil => exact absurd hsplit (split_ne_nil '\n' rest)
        | cons piece pieces => rfl

theorem unlines_append {left right : List (List Char)} (hleft : left ≠ []) (hright : right ≠ []) :
    unlines (left ++ right) = unlines left ++ '\n' :: unlines right := by
  induction left with
  | nil => exact absurd rfl hleft
  | cons piece rest ih =>
      cases rest with
      | nil => exact unlines_cons piece hright
      | cons second others =>
          have hne := List.cons_ne_nil second others
          rw [List.cons_append, unlines_cons piece (List.append_ne_nil_of_left_ne_nil hne right), ih hne,
            unlines_cons piece hne, List.append_assoc, List.cons_append]

theorem takeWhile_line {line tail : List Char} (hline : '\n' ∉ line)
    (htail : Option.all (· == '\n') tail.head? = true) : (line ++ tail).takeWhile (· != '\n') = line := by
  have hkeep : ∀ c ∈ line, (c != '\n') = true := fun c hc => bne_iff_ne.2 fun heq => hline (heq ▸ hc)
  rw [List.takeWhile_append_of_pos hkeep]
  cases tail with
  | nil => exact List.append_nil line
  | cons c below =>
      obtain rfl : c = '\n' := beq_iff_eq.1 htail
      exact List.append_nil line

theorem length_lines (text : List Char) : (lines text).length = text.count '\n' + 1 := by
  induction text with
  | nil => rfl
  | cons c rest ih =>
      rw [lines] at ih
      rw [lines, split, List.count_cons]
      split
      · next hc =>
        rw [List.length_cons, ih, hc]
        simp
      · next hc =>
        cases hsplit : split '\n' rest with
        | nil => exact absurd hsplit (split_ne_nil '\n' rest)
        | cons piece pieces =>
            rw [hsplit] at ih
            simpa [hc] using ih

/-! ### Positions -/

theorem lineStart_append_left {left : List (List Char)} (right : List (List Char)) {i : Nat} (hi : i < left.length) :
    lineStart (left ++ right) i = lineStart left i := by
  induction left generalizing i with
  | nil => exact absurd hi (Nat.not_lt_zero i)
  | cons piece rest ih =>
      cases i with
      | zero => rfl
      | succ i => rw [List.cons_append, lineStart, lineStart, ih (Nat.lt_of_succ_lt_succ hi)]

theorem lineStart_append_right {left : List (List Char)} (hleft : left ≠ []) (right : List (List Char)) (i : Nat) :
    lineStart (left ++ right) (left.length + i) = (unlines left).length + 1 + lineStart right i := by
  induction left with
  | nil => exact absurd rfl hleft
  | cons piece rest ih =>
      rw [List.cons_append, List.length_cons, Nat.add_right_comm, lineStart]
      cases rest with
      | nil => simp [unlines, join]
      | cons second others =>
          have hne := List.cons_ne_nil second others
          rw [ih hne, unlines_cons piece hne, List.length_append, List.length_cons]
          omega

theorem exists_lineStart {pieces : List (List Char)} (hne : pieces ≠ []) {offset : Nat}
    (hoffset : offset ≤ (unlines pieces).length) :
    ∃ (i : Nat) (hi : i < pieces.length), ∃ column ≤ pieces[i].length, offset = lineStart pieces i + column := by
  induction pieces generalizing offset with
  | nil => exact absurd rfl hne
  | cons piece rest ih =>
      by_cases hpiece : offset ≤ piece.length
      · exact ⟨0, Nat.succ_pos _, offset, hpiece, (Nat.zero_add offset).symm⟩
      · cases rest with
        | nil => exact absurd hoffset hpiece
        | cons second others =>
            have hlength : (unlines (piece :: second :: others)).length =
                piece.length + 1 + (unlines (second :: others)).length := by
              rw [unlines_cons piece (List.cons_ne_nil second others), List.length_append, List.length_cons]
              omega
            obtain ⟨i, hi, column, hcolumn, heq⟩ := ih (List.cons_ne_nil second others)
              (show offset - (piece.length + 1) ≤ _ by omega)
            refine ⟨i + 1, Nat.succ_lt_succ hi, column, hcolumn, ?_⟩
            rw [lineStart]
            omega

theorem position_eq {text : List Char} {i : Nat} (hi : i < (lines text).length) {column : Nat}
    (hcolumn : column ≤ (lines text)[i].length) :
    (LineIndex.ofText text).position (lineStart (lines text) i + column : Nat) = ⟨i, column⟩ := by
  have hposition := position_lineStart (newline_not_mem_lines text) hi hcolumn
  rwa [unlines_lines] at hposition

theorem position_of_getElem? {text : List Char} {i : Nat} {line : List Char} (hline : (lines text)[i]? = some line)
    {column : Nat} (hcolumn : column ≤ line.length) :
    (LineIndex.ofText text).position (lineStart (lines text) i + column : Nat) = ⟨i, column⟩ := by
  obtain ⟨hi, rfl⟩ := List.getElem?_eq_some_iff.1 hline
  exact position_eq hi hcolumn

theorem exists_position {text : List Char} {offset : Nat} (hoffset : offset ≤ text.length) :
    ∃ (i : Nat) (hi : i < (lines text).length), ∃ column ≤ (lines text)[i].length,
      offset = lineStart (lines text) i + column := by
  refine exists_lineStart (lines_ne_nil text) ?_
  rwa [unlines_lines]

/-- A position comes before another one: it is on an earlier line, or further left on the same one. -/
def Position.Before (a b : Position) : Prop := a.line < b.line ∨ a.line = b.line ∧ a.column < b.column

theorem position_before {text : List Char} {a b : Nat} (hab : a < b) (hb : b ≤ text.length) :
    ((LineIndex.ofText text).position a).Before ((LineIndex.ofText text).position b) := by
  obtain ⟨i, hi, column, hcolumn, rfl⟩ := exists_position (Nat.le_trans (Nat.le_of_lt hab) hb)
  obtain ⟨j, hj, column', hcolumn', rfl⟩ := exists_position hb
  rw [position_eq hi hcolumn, position_eq hj hcolumn']
  rcases Nat.lt_trichotomy i j with hij | rfl | hji
  · exact Or.inl (Int.ofNat_lt.2 hij)
  · exact Or.inr ⟨rfl, Int.ofNat_lt.2 (Nat.lt_of_add_lt_add_left hab)⟩
  · have hlt := lineStart_add_lt hji (Nat.le_of_lt hi) hj
    omega

theorem position_append_left {left : List Char} (right : List Char) {offset : Nat} (hoffset : offset ≤ left.length) :
    (LineIndex.ofText (left ++ '\n' :: right)).position offset = (LineIndex.ofText left).position offset := by
  obtain ⟨i, hi, column, hcolumn, rfl⟩ := exists_position hoffset
  have hlines := lines_append left right
  have hget : (lines (left ++ '\n' :: right))[i]? = some (lines left)[i] := by
    rw [hlines, List.getElem?_append_left hi, List.getElem?_eq_getElem hi]
  have hstart : lineStart (lines (left ++ '\n' :: right)) i = lineStart (lines left) i := by
    rw [hlines, lineStart_append_left _ hi]
  rw [position_eq hi hcolumn, ← hstart, position_of_getElem? hget hcolumn]

theorem position_append_right (left : List Char) {right : List Char} {offset : Nat} (hoffset : offset ≤ right.length) :
    (LineIndex.ofText (left ++ '\n' :: right)).position (left.length + 1 + offset : Nat) =
      ⟨(left.count '\n' + 1 : Nat) + ((LineIndex.ofText right).position offset).line,
        ((LineIndex.ofText right).position offset).column⟩ := by
  obtain ⟨i, hi, column, hcolumn, rfl⟩ := exists_position hoffset
  have hlines := lines_append left right
  have hget : (lines (left ++ '\n' :: right))[(lines left).length + i]? = some (lines right)[i] := by
    rw [hlines, List.getElem?_append_right (Nat.le_add_right _ _), Nat.add_sub_cancel_left,
      List.getElem?_eq_getElem hi]
  have hstart : left.length + 1 + (lineStart (lines right) i + column) =
      lineStart (lines (left ++ '\n' :: right)) ((lines left).length + i) + column := by
    rw [hlines, lineStart_append_right (lines_ne_nil left), unlines_lines]
    omega
  rw [position_eq hi hcolumn, hstart, position_of_getElem? hget hcolumn, length_lines]
  simp

end FactoryIndex.Text
