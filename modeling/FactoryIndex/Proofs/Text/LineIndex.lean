import FactoryIndex.Text.LineIndex
import FactoryIndex.Text.Split

/-!
# Positions in a text that is given by its lines

In a text that is given line by line, the offset at which a line starts is the length of the lines before it, with
their newlines. Bisection over these offsets finds the line of every offset on it, so the position of a column
of a line is that line and that column.
-/

namespace FactoryIndex.Text

def lineStart : List (List Char) → Nat → Nat
  | piece :: pieces, i + 1 => piece.length + 1 + lineStart pieces i
  | _, _ => 0

theorem lineStart_succ {pieces : List (List Char)} {i : Nat} (hi : i < pieces.length) :
    lineStart pieces (i + 1) = lineStart pieces i + (pieces[i].length + 1) := by
  induction pieces generalizing i with
  | nil => exact absurd hi (Nat.not_lt_zero i)
  | cons piece rest ih =>
      cases i with
      | zero => simp [lineStart]
      | succ i =>
          have hrest := ih (Nat.lt_of_succ_lt_succ hi)
          rw [lineStart, hrest, lineStart, List.getElem_cons_succ]
          omega

theorem lineStart_mono {pieces : List (List Char)} {i j : Nat} (hij : i ≤ j) (hj : j ≤ pieces.length) :
    lineStart pieces i ≤ lineStart pieces j := by
  induction j with
  | zero =>
      obtain rfl : i = 0 := by omega
      exact Nat.le_refl _
  | succ j ih =>
      rcases Nat.lt_or_eq_of_le hij with hlt | rfl
      · have hle := ih (by omega) (by omega)
        rw [lineStart_succ (by omega)]
        omega
      · exact Nat.le_refl _

theorem lineStart_add_lt {pieces : List (List Char)} {i j : Nat} (hij : i < j) (hj : j ≤ pieces.length)
    (hi : i < pieces.length) : lineStart pieces i + pieces[i].length < lineStart pieces j := by
  have hmono := lineStart_mono (show i + 1 ≤ j from hij) hj
  rw [lineStart_succ hi] at hmono
  omega

theorem unlines_cons (piece : List Char) {pieces : List (List Char)} (hne : pieces ≠ []) :
    unlines (piece :: pieces) = piece ++ '\n' :: unlines pieces := by
  cases pieces with
  | nil => exact absurd rfl hne
  | cons second others => rfl

theorem startsAfterNewlines_append {piece : List Char} (hpiece : '\n' ∉ piece) (offset : Nat) (tail : List Char) :
    LineIndex.startsAfterNewlines offset (piece ++ tail) =
      LineIndex.startsAfterNewlines (offset + piece.length) tail := by
  induction piece generalizing offset with
  | nil => rfl
  | cons c rest ih =>
      rw [List.mem_cons, not_or] at hpiece
      rw [List.cons_append, LineIndex.startsAfterNewlines, if_neg (Ne.symm hpiece.1), ih hpiece.2, List.length_cons]
      congr 1
      omega

theorem startsAfterNewlines_unlines {piece : List Char} {pieces : List (List Char)}
    (hpieces : ∀ line ∈ piece :: pieces, '\n' ∉ line) (offset : Nat) :
    offset :: LineIndex.startsAfterNewlines offset (unlines (piece :: pieces)) =
      (List.range (pieces.length + 1)).map fun i => offset + lineStart (piece :: pieces) i := by
  induction pieces generalizing piece offset with
  | nil =>
      have hpiece := startsAfterNewlines_append (hpieces piece List.mem_cons_self) offset []
      rw [List.append_nil] at hpiece
      simp [unlines, join, hpiece, LineIndex.startsAfterNewlines, lineStart]
  | cons second rest ih =>
      have hrest := ih (fun line hline => hpieces line (List.mem_cons_of_mem piece hline)) (offset + piece.length + 1)
      rw [unlines_cons piece (List.cons_ne_nil second rest),
        startsAfterNewlines_append (hpieces piece List.mem_cons_self), LineIndex.startsAfterNewlines, if_pos rfl, hrest,
        List.length_cons]
      have hrange : List.range (rest.length + 1 + 1) = 0 :: (List.range (rest.length + 1)).map Nat.succ :=
        List.range_succ_eq_map
      rw [hrange, List.map_cons, List.map_map]
      refine List.cons_eq_cons.2 ⟨rfl, List.map_congr_left fun i _ => ?_⟩
      rw [Function.comp_apply, lineStart]
      omega

theorem bisect_eq {starts : Array Nat} {offset : Int} {k : Nat}
    (hbelow : ∀ j < k, (starts.getD j 0 : Int) ≤ offset)
    (habove : ∀ j < starts.size, k ≤ j → offset < (starts.getD j 0 : Int)) {low high : Nat} (hlow : low ≤ k)
    (hhigh : k ≤ high) (hsize : high ≤ starts.size) : LineIndex.bisect starts offset low high = k := by
  fun_induction LineIndex.bisect starts offset low high with
  | case1 low high hlt middle hbefore ih =>
      have hmiddle : k ≤ middle := by
        refine Nat.le_of_not_lt fun hmiddle => ?_
        have hstart := hbelow middle hmiddle
        omega
      exact ih hlow hmiddle (by omega)
  | case2 low high hlt middle hbefore ih =>
      have hmiddle : middle + 1 ≤ k := by
        refine Nat.le_of_not_lt fun hmiddle => ?_
        have hstart := habove middle (by omega) (by omega)
        omega
      exact ih hmiddle hhigh hsize
  | case3 low high hge => omega

theorem position_lineStart {pieces : List (List Char)} (hpieces : ∀ line ∈ pieces, '\n' ∉ line) {i : Nat}
    (hi : i < pieces.length) {column : Nat} (hcolumn : column ≤ pieces[i].length) :
    (LineIndex.ofText (unlines pieces)).position (lineStart pieces i + column : Nat) = ⟨i, column⟩ := by
  have hstarts : (LineIndex.ofText (unlines pieces)).starts =
      ((List.range pieces.length).map (lineStart pieces)).toArray := by
    cases pieces with
    | nil => exact absurd hi (Nat.not_lt_zero i)
    | cons piece rest =>
        have hafter := startsAfterNewlines_unlines hpieces 0
        simp only [Nat.zero_add] at hafter
        rw [LineIndex.ofText, hafter, List.length_cons]
  have hget : ∀ j < pieces.length, (LineIndex.ofText (unlines pieces)).starts.getD j 0 = lineStart pieces j := by
    intro j hj
    simp [hstarts, hj]
  have hsize : (LineIndex.ofText (unlines pieces)).starts.size = pieces.length := by simp [hstarts]
  have hline : (LineIndex.ofText (unlines pieces)).lineOf (lineStart pieces i + column : Nat) = i := by
    have hbisect : LineIndex.bisect (LineIndex.ofText (unlines pieces)).starts (lineStart pieces i + column : Nat) 0
        (LineIndex.ofText (unlines pieces)).starts.size = i + 1 := by
      refine bisect_eq (fun j hj => ?_) (fun j hj hij => ?_) (Nat.zero_le _) (by omega) (Nat.le_refl _)
      · rw [hget j (by omega)]
        have hmono := lineStart_mono (show j ≤ i by omega) (Nat.le_of_lt hi)
        omega
      · rw [hget j (by omega)]
        have hlt := lineStart_add_lt (show i < j from hij) (by omega) hi
        omega
    rw [LineIndex.lineOf, hbisect]
    omega
  have hstart : (LineIndex.ofText (unlines pieces)).startOf i = lineStart pieces i := by
    rw [LineIndex.startOf, if_neg (by omega), Int.toNat_natCast, hget i hi]
  rw [LineIndex.position, hline, hstart]
  congr 1
  omega

end FactoryIndex.Text
