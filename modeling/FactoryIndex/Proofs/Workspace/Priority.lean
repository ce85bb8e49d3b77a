import FactoryIndex.Proofs.StableSort
import FactoryIndex.Proofs.Text.Order
import FactoryIndex.Workspace.Folder

/-!
# The order of priority

The priority of a file is the index of the first marker that its path holds. Files that were listed in the
order of their names are sorted by their priorities first and by their names second, so the file that comes
first is the one whose definitions win.

A marker may be any value, but only a text can be looked for in a path. A marker that is none goes unnoticed as long as
an earlier one stands in every path.
-/

namespace FactoryIndex

def Value.marks (path : List Point) : Value → Bool
  | .raw marker => Text.hasInfix marker.points path
  | _ => false

/-- The index of the first marker that stands in the path of a file; the number of markers if none does. -/
def priority (markers : List Value) (file : RawText) : Nat :=
  markers.findIdx (Value.marks file.forwardSlashes.points)

/-- One file comes before another one: by its priority, and else by its name. -/
def Precedes (markers : List Value) (a b : RawText) : Prop :=
  priority markers a < priority markers b ∨ (priority markers a = priority markers b ∧ a < b)

theorem Precedes.not_precedes {markers : List Value} {a b : RawText} (h : Precedes markers a b) :
    ¬ Precedes markers b a := by
  rintro (hlt | ⟨heq, hlt⟩)
  · rcases h with hlt' | ⟨heq', -⟩
    · exact Nat.lt_asymm hlt hlt'
    · exact Nat.ne_of_gt hlt heq'
  · rcases h with hlt' | ⟨-, hlt'⟩
    · exact Nat.ne_of_gt hlt' heq
    · exact lt_asymm hlt' hlt

theorem rank_eq_findIdx {markers : List Value} {path : List Point} {r : Nat}
    (hrank : rank markers path = .ok r) : r = markers.findIdx (Value.marks path) := by
  induction markers generalizing r with
  | nil => cases hrank; rfl
  | cons marker rest ih =>
      cases marker with
      | raw text =>
          rw [rank] at hrank
          rw [List.findIdx_cons, Value.marks]
          cases hholds : Text.hasInfix text.points path with
          | true =>
              rw [hholds] at hrank
              cases hrank
              rfl
          | false =>
              rw [hholds] at hrank
              cases hrest : rank rest path with
              | error failure => rw [hrest] at hrank; cases hrank
              | ok r' =>
                  rw [hrest] at hrank
                  cases hrank
                  rw [ih hrest]
                  rfl
      | _ => cases hrank

theorem mapM_eq_ok_map {α β : Type} {f : α → Except Failure β} {g : α → β}
    (hf : ∀ a b, f a = .ok b → b = g a) {items : List α} {results : List β}
    (hok : items.mapM f = .ok results) : results = items.map g := by
  induction items generalizing results with
  | nil => cases hok; rfl
  | cons item rest ih =>
      rw [List.mapM_cons] at hok
      cases hitem : f item with
      | error failure => rw [hitem] at hok; cases hok
      | ok result =>
          rw [hitem] at hok
          cases hrest : rest.mapM f with
          | error failure => rw [hrest] at hok; cases hok
          | ok others =>
              rw [hrest] at hok
              cases hok
              rw [List.map_cons, ← hf item result hitem, ← ih hrest]

theorem sortByPriority_eq_mergeSort {files sorted : List RawText} {markers : List Value}
    (hsorted : sortByPriority files markers = .ok sorted) :
    sorted = files.mergeSort fun a b => decide (priority markers a ≤ priority markers b) := by
  unfold sortByPriority at hsorted
  split at hsorted
  · cases hsorted
  · next ranked hranked =>
    cases hsorted
    have hmap := mapM_eq_ok_map (g := fun file => (priority markers file, file)) (fun file result hfile => by
      cases hrank : rank markers file.forwardSlashes.points with
      | error failure => rw [hrank] at hfile; cases hfile
      | ok r =>
          rw [hrank] at hfile
          cases hfile
          rw [rank_eq_findIdx hrank, priority]) hranked
    have hsort : (files.mergeSort fun a b => decide (priority markers a ≤ priority markers b)).map
          (fun file => (priority markers file, file))
        = (files.map fun file => (priority markers file, file)).mergeSort fun a b => decide (a.1 ≤ b.1) :=
      List.map_mergeSort fun _ _ _ _ => rfl
    rw [hmap, ← hsort, List.map_map]
    exact List.map_id _

theorem perm_of_sortByPriority {files sorted : List RawText} {markers : List Value}
    (hsorted : sortByPriority files markers = .ok sorted) : sorted.Perm files := by
  rw [sortByPriority_eq_mergeSort hsorted]
  exact List.mergeSort_perm _ _

theorem pairwise_precedes_of_sortByPriority {files sorted : List RawText} {markers : List Value}
    (hfiles : files.Pairwise (· < ·)) (hsorted : sortByPriority files markers = .ok sorted) :
    sorted.Pairwise (Precedes markers) := by
  rw [sortByPriority_eq_mergeSort hsorted, List.pairwise_iff_forall_sublist]
  intro a b hpair
  have hle := List.pairwise_iff_forall_sublist.1 (pairwise_mergeSort_key (priority markers) files) hpair
  rcases Nat.lt_or_eq_of_le hle with hlt | heq
  · exact Or.inl hlt
  · -- Files of one priority keep the order in which they were listed.
    have hsub := hpair.filter fun file => decide (priority markers file = priority markers b)
    rw [filter_mergeSort_key] at hsub
    simp only [List.filter_cons, heq, decide_true, if_true, List.filter_nil] at hsub
    have hlisted := hsub.trans List.filter_sublist
    exact Or.inr ⟨heq, List.pairwise_iff_forall_sublist.1 hfiles hlisted⟩

theorem sortByPriority_nil (files : List RawText) : sortByPriority files [] = .ok files := by
  have hranked : (files.mapM fun file => (rank [] file.forwardSlashes.points).map fun r => (r, file)) =
      .ok (files.map fun file => (0, file)) := List.mapM_pure
  have hsorted : (files.map fun file => (0, file)).Pairwise fun a b => decide (a.1 ≤ b.1) = true := by
    rw [List.pairwise_map]
    exact List.pairwise_of_forall fun _ _ => rfl
  rw [sortByPriority, hranked]
  simp only [List.mergeSort_of_pairwise hsorted, List.map_map]
  exact congrArg Except.ok (List.map_id files)

/-! ### When files can be put in order -/

def Value.isText : Value → Bool
  | .raw _ => true
  | _ => false

section Markers

variable {markers : List Value}

theorem exists_rank_eq_ok (hmarkers : ∀ marker ∈ markers, marker.isText = true) (path : List Point) :
    ∃ r, rank markers path = .ok r := by
  induction markers with
  | nil => exact ⟨0, rfl⟩
  | cons marker rest ih =>
      rw [List.forall_mem_cons] at hmarkers
      obtain ⟨r, hr⟩ := ih hmarkers.2
      cases marker with
      | raw text =>
          rw [rank]
          split
          · exact ⟨0, rfl⟩
          · exact ⟨r + 1, by rw [hr]; rfl⟩
      | _ => cases hmarkers.1

/-- A marker with something in it does not stand in the empty path, so that all markers are tried there. -/
theorem isText_of_rank_nil (htruthy : ∀ marker ∈ markers, marker.truthy = true) {r : Nat}
    (hrank : rank markers [] = .ok r) : ∀ marker ∈ markers, marker.isText = true := by
  induction markers generalizing r with
  | nil => exact List.forall_mem_nil _
  | cons marker rest ih =>
      rw [List.forall_mem_cons] at htruthy ⊢
      cases marker with
      | raw text =>
          have habsent : Text.hasInfix text.points [] = false := by
            cases text with
            | plain s => simpa [RawText.points, Text.hasInfix, Value.truthy, RawText.isEmpty] using htruthy.1
            | broken s half rest => simp [RawText.points, Text.hasInfix]
          rw [rank, habsent] at hrank
          cases hrest : rank rest [] with
          | error failure =>
              rw [hrest] at hrank
              cases hrank
          | ok r' => exact ⟨rfl, ih htruthy.2 hrest⟩
      | _ => cases hrank

theorem exists_mapM_eq_ok {α β : Type} {f : α → Except Failure β} {items : List α}
    (hf : ∀ item ∈ items, ∃ result, f item = .ok result) : ∃ results, items.mapM f = .ok results := by
  induction items with
  | nil => exact ⟨[], rfl⟩
  | cons item rest ih =>
      rw [List.forall_mem_cons] at hf
      obtain ⟨⟨result, hresult⟩, hrest⟩ := hf
      obtain ⟨results, hresults⟩ := ih hrest
      exact ⟨result :: results, by rw [List.mapM_cons, hresult, hresults]; rfl⟩

theorem sortByPriority_all_iff (htruthy : ∀ marker ∈ markers, marker.truthy = true) :
    (∀ files, ∃ sorted, sortByPriority files markers = .ok sorted) ↔ ∀ marker ∈ markers, marker.isText = true := by
  constructor
  · intro hall
    obtain ⟨sorted, hsorted⟩ := hall [""]
    cases hrank : rank markers [] with
    | error failure =>
        have hmapM : ([RawText.plain ""].mapM fun file =>
            (rank markers file.forwardSlashes.points).map fun r => (r, file)) = .error failure := by
          rw [List.mapM_cons, show (RawText.plain "").forwardSlashes.points = [] from rfl, hrank]
          rfl
        rw [sortByPriority, hmapM] at hsorted
        cases hsorted
    | ok r => exact isText_of_rank_nil htruthy hrank
  · intro hmarkers files
    have hranked : ∃ ranked, (files.mapM fun file =>
        (rank markers file.forwardSlashes.points).map fun r => (r, file)) = .ok ranked := by
      refine exists_mapM_eq_ok fun file _ => ?_
      obtain ⟨r, hr⟩ := exists_rank_eq_ok hmarkers file.forwardSlashes.points
      exact ⟨(r, file), by rw [hr]; rfl⟩
    obtain ⟨ranked, hranked⟩ := hranked
    exact ⟨_, by rw [sortByPriority, hranked]⟩

end Markers

end FactoryIndex
