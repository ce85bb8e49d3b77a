import FactoryIndex.Text.RawText
import Mathlib.Data.List.Lex
import Mathlib.Data.List.Sort

/-!
# The order of texts

Texts are compared by the numbers of their code points. These numbers tell code points apart, since no character lies
between U+D800 and U+DFFF, so this is a linear order of texts. It is the one by which listed files are sorted.
-/

namespace FactoryIndex

theorem Point.code_injective : Function.Injective Point.code := by
  intro a b hcode
  have hchar (c : Char) (half : Half) : c.toNat ≠ half.code := by
    have hvalid : c.toNat < 0xd800 ∨ 0xdfff < c.toNat := c.valid.imp id And.left
    have hindex := half.index.isLt
    unfold Half.code
    omega
  cases a with
  | char c =>
      cases b with
      | char d => exact congrArg char (Char.toNat_inj.1 hcode)
      | half h => exact absurd hcode (hchar c h)
  | half h =>
      cases b with
      | char d => exact absurd hcode.symm (hchar d h)
      | half k =>
          have hindex : h.index.val = k.index.val := Nat.add_left_cancel hcode
          exact congrArg half (congrArg Half.mk (Fin.ext hindex))

namespace RawText

def codes (text : RawText) : List Nat := text.points.map Point.code

theorem codes_injective : Function.Injective codes := by
  intro a b hcodes
  rw [← ofPoints_points a, ← ofPoints_points b, List.map_injective_iff.2 Point.code_injective hcodes]

instance : LinearOrder RawText := LinearOrder.lift' codes codes_injective

theorem precedes_iff_not_lt {as bs : List Point} :
    precedes as bs = true ↔ ¬ bs.map Point.code < as.map Point.code := by
  induction as generalizing bs with
  | nil => simp [precedes]
  | cons a as ih =>
      cases bs with
      | nil => simp [precedes]
      | cons b bs =>
          rw [precedes, List.map_cons, List.map_cons, List.cons_lt_cons_iff, Bool.or_eq_true, Bool.and_eq_true, ih,
            decide_eq_true_iff, beq_iff_eq]
          rcases lt_trichotomy a.code b.code with hlt | heq | hgt
          · simp [hlt, hlt.not_gt, hlt.ne']
          · simp [heq]
          · simp [hgt, hgt.not_gt, hgt.ne']

theorem precedes_iff {a b : RawText} : precedes a.points b.points = true ↔ a ≤ b :=
  precedes_iff_not_lt.trans not_lt

theorem pairwise_sorted (texts : List RawText) : (sorted texts).Pairwise (· ≤ ·) := by
  have horder : (fun a b : RawText => precedes a.points b.points) = fun a b => decide (a ≤ b) := by
    funext a b
    rw [Bool.eq_iff_iff, precedes_iff, decide_eq_true_iff]
  rw [sorted, horder]
  exact List.pairwise_mergeSort' (· ≤ ·) texts

end RawText

end FactoryIndex
