import FactoryIndex.Proofs.Session.Pass
import FactoryIndex.Request.Basic

/-!
# The files of a folder as a source

What sessions rely on in a source holds of the files below a folder: they are listed once each and in order, and
a file whose text can be read also tells when it was modified. Conversely, where that time is known, a text that
cannot be read fails in a way that is taken for an empty file.
-/

namespace FactoryIndex

theorem pairwise_lt_eraseDups {names : List RawText} (hsorted : names.Pairwise (· ≤ ·)) :
    names.eraseDups.Pairwise (· < ·) := by
  induction hn : names.length using Nat.strong_induction_on generalizing names with
  | _ n ih =>
      cases names with
      | nil => simp
      | cons name rest =>
          obtain ⟨hfirst, hrest⟩ := List.pairwise_cons.1 hsorted
          have hlength : (rest.filter fun other => !other == name).length < n := by
            have hle := List.length_filter_le (fun other => !other == name) rest
            rw [← hn, List.length_cons]
            omega
          rw [List.eraseDups_cons]
          refine List.pairwise_cons.2 ⟨fun other hother => ?_, ih _ hlength (hrest.filter _) rfl⟩
          obtain ⟨hmem, hne⟩ := List.mem_filter.1 (List.mem_eraseDups.1 hother)
          have hne' : name ≠ other := by
            rintro rfl
            simp at hne
          exact lt_of_le_of_ne (hfirst other hmem) hne'

namespace Tree

variable {tree : Tree}

theorem listsInOrder_source (tree : Tree) (folder : Path) : (tree.source folder).ListsInOrder := by
  intro globs listed hlisted
  simp only [source, list] at hlisted
  split at hlisted
  · cases hlisted
    exact List.Pairwise.nil
  · split at hlisted
    · cases hlisted
    · split at hlisted
      · cases hlisted
      · split at hlisted
        · cases hlisted
          exact pairwise_lt_eraseDups (RawText.pairwise_sorted _)
        · cases hlisted
          exact List.Pairwise.nil

theorem modified_of_read {path : Path} {text : List Char} (hread : tree.read path = .ok text) :
    ∃ time, tree.modified path = .ok time := by
  unfold read at hread
  unfold modified
  cases hfault : pathFault? path with
  | some failure =>
      rw [hfault] at hread
      cases hread
  | none =>
      rw [hfault] at hread
      generalize tree.place path = place at hread ⊢
      cases place with
      | file there node =>
          cases node with
          | file bytes time => exact ⟨time, rfl⟩
          | dangling => cases hread
      | folder there => cases hread
      | missing => cases hread
      | blocked => cases hread
      | tooLong => cases hread

theorem isUnreadable_of_modified {path : Path} {time : Int} (hmodified : tree.modified path = .ok time)
    {failure : Failure} (hread : tree.read path = .error failure) : failure.kind.isUnreadable = true := by
  unfold read at hread
  unfold modified at hmodified
  cases hfault : pathFault? path with
  | some failure =>
      rw [hfault] at hmodified
      cases hmodified
  | none =>
      rw [hfault] at hread hmodified
      generalize tree.place path = place at hread hmodified
      cases place with
      | file there node =>
          cases node with
          | file bytes time => cases hread
          | dangling => cases hmodified
      | folder there =>
          cases hread
          rfl
      | missing => cases hmodified
      | blocked => cases hmodified
      | tooLong => cases hmodified

end Tree

end FactoryIndex
