import FactoryIndex.Proofs.Text.Lines

/-!
# Exact positions

The line that bisection finds for an offset is the number of newlines before it, and the column is the number of
characters behind the last of them. This holds at every offset, also at a newline, right behind one, on an empty line
and at the end of the text: what stands before an offset is some whole lines with their newlines and then the front of
one line, in which there is no newline.
-/

namespace FactoryIndex.Text

/-- What stands before a column of a line: the lines above it, each with its newline, and the front of the line. -/
theorem exists_above {pieces : List (List Char)} (hpieces : ∀ line ∈ pieces, '\n' ∉ line) {i : Nat}
    (hi : i < pieces.length) {column : Nat} (hcolumn : column ≤ pieces[i].length) :
    ∃ above, (unlines pieces).take (lineStart pieces i + column) = above ++ pieces[i].take column ∧
      above.count '\n' = i ∧ Option.all (· == '\n') above.getLast? = true := by
  induction pieces generalizing i with
  | nil => exact absurd hi (Nat.not_lt_zero i)
  | cons piece rest ih =>
      cases i with
      | zero =>
          rw [List.getElem_cons_zero] at hcolumn
          have htake : (unlines (piece :: rest)).take column = piece.take column := by
            cases rest with
            | nil => rfl
            | cons second others =>
                rw [unlines_cons piece (List.cons_ne_nil second others), List.take_append_of_le_length hcolumn]
          have hstart : lineStart (piece :: rest) 0 = 0 := rfl
          rw [hstart, Nat.zero_add]
          exact ⟨[], htake, rfl, rfl⟩
      | succ i =>
          have hi' : i < rest.length := Nat.lt_of_succ_lt_succ hi
          obtain ⟨above, htake, hcount, hlast⟩ :=
            ih (fun line hline => hpieces line (List.mem_cons_of_mem piece hline)) hi' hcolumn
          refine ⟨piece ++ '\n' :: above, ?_, ?_, ?_⟩
          · have hlength : lineStart (piece :: rest) (i + 1) + column =
                (piece ++ ['\n']).length + (lineStart rest i + column) := by
              rw [lineStart, List.length_append, List.length_singleton]
              omega
            rw [unlines_cons piece (List.ne_nil_of_length_pos (Nat.zero_lt_of_lt hi')), hlength,
              List.append_cons piece '\n' (unlines rest), List.take_length_add_append, htake, List.getElem_cons_succ]
            simp only [List.append_assoc, List.cons_append, List.nil_append]
          · have hpiece := List.count_eq_zero_of_not_mem (hpieces piece List.mem_cons_self)
            rw [List.count_append, List.count_cons_self, hpiece, hcount, Nat.zero_add]
          · rw [List.getLast?_append, List.getLast?_cons, Option.some_or, Option.all_some]
            cases habove : above.getLast? with
            | none => rfl
            | some c => rwa [habove] at hlast

theorem takeWhile_reverse_line {above front : List Char} (hlast : Option.all (· == '\n') above.getLast? = true)
    (hfront : '\n' ∉ front) : (above ++ front).reverse.takeWhile (· != '\n') = front.reverse := by
  rw [← List.head?_reverse] at hlast
  rw [List.reverse_append]
  exact takeWhile_line (fun hmem => hfront (List.mem_reverse.1 hmem)) hlast

/-- **Positions are exact.** The line of an offset, found by bisection, is the number of newlines before the offset, and
its column is the number of characters behind the last of them. The start of the line and the column give the offset
back. Every smaller offset has a position that comes before. -/
theorem position_exact {text : List Char} {offset : Nat} (hoffset : offset ≤ text.length) :
    let index := LineIndex.ofText text
    let line := (text.take offset).count '\n'
    let column := ((text.take offset).reverse.takeWhile (· != '\n')).length
    index.position offset = ⟨line, column⟩ ∧ index.startOf line + column = offset ∧
      ∀ smaller < offset, (index.position smaller).Before (index.position offset) := by
  obtain ⟨i, hi, column, hcolumn, rfl⟩ := exists_position hoffset
  obtain ⟨above, htake, hcount, hlast⟩ := exists_above (newline_not_mem_lines text) hi hcolumn
  rw [unlines_lines] at htake
  have hfront : '\n' ∉ (lines text)[i].take column := fun hmem =>
    newline_not_mem_lines text _ (List.getElem_mem hi) (List.mem_of_mem_take hmem)
  have hline : (text.take (lineStart (lines text) i + column)).count '\n' = i := by
    rw [htake, List.count_append, hcount, List.count_eq_zero_of_not_mem hfront, Nat.add_zero]
  have hcolumns : ((text.take (lineStart (lines text) i + column)).reverse.takeWhile (· != '\n')).length = column := by
    rw [htake, takeWhile_reverse_line hlast hfront, List.length_reverse, List.length_take_of_le hcolumn]
  have hposition := position_eq hi hcolumn
  simp only [hline, hcolumns]
  refine ⟨hposition, ?_, fun smaller hlt => position_before hlt hoffset⟩
  -- The column is measured from the start of the line.
  have hstart := congrArg Position.column hposition
  simp only [LineIndex.position] at hstart
  rw [show (LineIndex.ofText text).lineOf _ = (i : Int) from congrArg Position.line hposition] at hstart
  omega

/-- On an empty line between two newlines. -/
theorem position_exact_empty_line :
    let text := ['a', '\n', 'b', 'c', '\n', '\n', 'd']
    let index := LineIndex.ofText text
    5 ≤ text.length ∧ index.position 5 = ⟨2, 0⟩ ∧ index.startOf 2 + 0 = 5 ∧
      ∀ smaller : Nat, smaller < 5 → (index.position smaller).Before (index.position 5) :=
  ⟨by decide, @position_exact ['a', '\n', 'b', 'c', '\n', '\n', 'd'] 5 (by decide)⟩

end FactoryIndex.Text
