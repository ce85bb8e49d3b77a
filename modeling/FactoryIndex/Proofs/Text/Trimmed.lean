import FactoryIndex.Text.RawText
import Mathlib.Data.List.TakeWhile

/-!
# Trimmed texts

A text loses only whitespace when it is trimmed, and then it does not end in whitespace. So what is left of it is
nothing exactly if there is only whitespace in it. Turning slashes keeps the code points at their places; no backslash
is left, and a text without backslashes stays as it is.
-/

namespace FactoryIndex

theorem mem_dropWhile_of_eq_false {α : Type} {p : α → Bool} {a : α} {items : List α} (hmem : a ∈ items)
    (hnot : p a = false) : a ∈ items.dropWhile p := by
  rw [← List.takeWhile_append_dropWhile (p := p) (l := items), List.mem_append] at hmem
  rcases hmem with hfront | hback
  · rw [List.mem_takeWhile_imp hfront] at hnot
    cases hnot
  · exact hback

namespace RawText

variable {text : RawText} {point : Point}

theorem points_injective : Function.Injective points := by
  intro a b heq
  rw [← ofPoints_points a, heq, ofPoints_points]

theorem isEmpty_eq_true_iff : text.isEmpty = true ↔ text.points = [] := by
  cases text with
  | plain s => simp [isEmpty, points]
  | broken s half rest => simp [isEmpty, points]

/-! ### Whitespace at the ends -/

theorem mem_points_trim (hmem : point ∈ text.points) (hnot : point.isBlank = false) : point ∈ text.trim.points := by
  rw [trim, points_ofPoints, trimmedRight, List.mem_reverse]
  apply mem_dropWhile_of_eq_false _ hnot
  rw [List.mem_reverse]
  exact mem_dropWhile_of_eq_false hmem hnot

theorem mem_points_of_trim (hmem : point ∈ text.trim.points) : point ∈ text.points := by
  rw [trim, points_ofPoints, trimmedRight, List.mem_reverse] at hmem
  exact (List.dropWhile_sublist _).subset (List.mem_reverse.1 ((List.dropWhile_sublist _).subset hmem))

theorem isBlank_getLast_trim (hlast : text.trim.points.getLast? = some point) : point.isBlank = false := by
  rw [trim, points_ofPoints, trimmedRight, List.getLast?_reverse] at hlast
  have hhead := List.head?_dropWhile_not Point.isBlank (text.points.dropWhile Point.isBlank).reverse
  rw [hlast] at hhead
  exact hhead

theorem trim_isEmpty_eq_false_iff : text.trim.isEmpty = false ↔ ∃ point ∈ text.points, point.isBlank = false := by
  rw [← Bool.not_eq_true, isEmpty_eq_true_iff]
  constructor
  · intro hne
    have hlast := List.getLast?_eq_some_getLast hne
    exact ⟨_, mem_points_of_trim (List.getLast_mem hne), isBlank_getLast_trim hlast⟩
  · rintro ⟨point, hmem, hnot⟩ hempty
    have := mem_points_trim hmem hnot
    rw [hempty] at this
    cases this

/-! ### Slashes -/

theorem points_forwardSlashes (text : RawText) : text.forwardSlashes.points =
    text.points.map fun point => if point = .char '\\' then .char '/' else point := by
  have hplain (s : String) : (Text.forwardSlashes s).toList.map Point.char =
      (s.toList.map Point.char).map fun point => if point = .char '\\' then .char '/' else point := by
    rw [Text.forwardSlashes, String.toList_ofList, List.map_map, List.map_map]
    apply List.map_congr_left
    intro c _
    by_cases hc : c = '\\' <;> simp [hc]
  induction text with
  | plain s => exact hplain s
  | broken s half rest ih =>
      rw [forwardSlashes, points, points, hplain, ih, List.map_append, List.map_cons, if_neg Point.noConfusion]

theorem not_mem_points_forwardSlashes (text : RawText) : .char '\\' ∉ text.forwardSlashes.points := by
  rw [points_forwardSlashes, List.mem_map]
  rintro ⟨point, -, hpoint⟩
  split at hpoint
  · cases hpoint
  · next hne => exact hne hpoint

theorem forwardSlashes_eq_self (hnot : .char '\\' ∉ text.points) : text.forwardSlashes = text := by
  apply points_injective
  rw [points_forwardSlashes]
  have hkept : ∀ point ∈ text.points, (if point = .char '\\' then .char '/' else point) = id point := by
    intro point hmem
    rw [if_neg, id]
    rintro rfl
    exact hnot hmem
  rw [List.map_congr_left hkept, List.map_id]

/-- No code point becomes whitespace when slashes are turned. -/
theorem exists_not_blank_forwardSlashes (h : ∃ point ∈ text.points, point.isBlank = false) :
    ∃ point ∈ text.forwardSlashes.points, point.isBlank = false := by
  obtain ⟨point, hmem, hnot⟩ := h
  rw [points_forwardSlashes]
  refine ⟨_, List.mem_map_of_mem hmem, ?_⟩
  split
  · rfl
  · exact hnot

end RawText

end FactoryIndex
