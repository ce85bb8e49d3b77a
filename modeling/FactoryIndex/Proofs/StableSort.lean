import Mathlib.Data.List.Sort

/-!
# Stable sorting by a key

Definitions are sorted by the rank of their file, files by the rank of their path, and the events of a text by
their offset. A stable sort keeps the elements of each key in their order. So a list that is sorted by its keys,
and has the same elements as another list under each key, in the same order, is what that other list is
sorted to.
-/

namespace FactoryIndex

variable {α : Type} (key : α → Nat)

theorem pairwise_mergeSort_key (items : List α) :
    (items.mergeSort fun a b => decide (key a ≤ key b)).Pairwise fun a b => key a ≤ key b := by
  have htrans : ∀ a b c : α, decide (key a ≤ key b) = true → decide (key b ≤ key c) = true →
      decide (key a ≤ key c) = true := fun a b c hab hbc =>
    decide_eq_true (Nat.le_trans (of_decide_eq_true hab) (of_decide_eq_true hbc))
  have htotal : ∀ a b : α, (decide (key a ≤ key b) || decide (key b ≤ key a)) = true := fun a b => by
    simpa using Nat.le_total (key a) (key b)
  exact (List.pairwise_mergeSort htrans htotal items).imp of_decide_eq_true

theorem filter_mergeSort_key (items : List α) (k : Nat) :
    (items.mergeSort fun a b => decide (key a ≤ key b)).filter (fun a => key a = k) =
      items.filter fun a => key a = k := by
  have hsorted : (items.filter fun a => key a = k).Pairwise fun a b => decide (key a ≤ key b) = true := by
    refine List.pairwise_of_forall_mem_list fun a ha b hb => decide_eq_true (Nat.le_of_eq ?_)
    exact (of_decide_eq_true (List.mem_filter.1 ha).2).trans (of_decide_eq_true (List.mem_filter.1 hb).2).symm
  have hsublist : (items.filter fun a => key a = k).Sublist
      (items.mergeSort fun a b => decide (key a ≤ key b)) := by
    apply List.sublist_mergeSort _ _ hsorted List.filter_sublist
    · intro a b c hab hbc
      exact decide_eq_true (Nat.le_trans (of_decide_eq_true hab) (of_decide_eq_true hbc))
    · intro a b
      simpa using Nat.le_total (key a) (key b)
  have hfilter := hsublist.filter fun a => decide (key a = k)
  rw [List.filter_filter] at hfilter
  simp only [Bool.and_self] at hfilter
  refine (hfilter.eq_of_length ?_).symm
  exact ((List.mergeSort_perm items _).filter _).length_eq.symm

/-- Sorted lists that agree under every key are the same. -/
theorem eq_of_filter_key_eq {left right : List α} (hleft : left.Pairwise fun a b => key a ≤ key b)
    (hright : right.Pairwise fun a b => key a ≤ key b)
    (hfilter : ∀ k, left.filter (fun a => key a = k) = right.filter fun a => key a = k) : left = right := by
  induction left generalizing right with
  | nil =>
      cases right with
      | nil => rfl
      | cons b right =>
          have h := hfilter (key b)
          simp at h
  | cons a left ih =>
      cases right with
      | nil =>
          have h := hfilter (key a)
          simp at h
      | cons b right =>
          have hb : b ∈ (a :: left).filter fun c => key c = key b := by
            rw [hfilter]
            simp
          have ha : a ∈ (b :: right).filter fun c => key c = key a := by
            rw [← hfilter]
            simp
          have hab : key a ≤ key b := by
            rcases List.mem_cons.1 (List.mem_filter.1 hb).1 with rfl | hmem
            · exact Nat.le_refl _
            · exact (List.pairwise_cons.1 hleft).1 b hmem
          have hba : key b ≤ key a := by
            rcases List.mem_cons.1 (List.mem_filter.1 ha).1 with rfl | hmem
            · exact Nat.le_refl _
            · exact (List.pairwise_cons.1 hright).1 a hmem
          have hkey : key a = key b := Nat.le_antisymm hab hba
          have hhead := hfilter (key a)
          simp only [List.filter_cons, hkey, decide_true, if_true] at hhead
          obtain ⟨rfl, -⟩ := List.cons.inj hhead
          congr 1
          refine ih (List.pairwise_cons.1 hleft).2 (List.pairwise_cons.1 hright).2 fun k => ?_
          have htail := hfilter k
          by_cases hk : key a = k
          · simpa [List.filter_cons, hk] using htail
          · simpa [List.filter_cons, hk] using htail

theorem mergeSort_key_eq {items sorted : List α} (hsorted : sorted.Pairwise fun a b => key a ≤ key b)
    (hfilter : ∀ k, items.filter (fun a => key a = k) = sorted.filter fun a => key a = k) :
    (items.mergeSort fun a b => decide (key a ≤ key b)) = sorted := by
  refine eq_of_filter_key_eq key (pairwise_mergeSort_key key items) hsorted fun k => ?_
  rw [filter_mergeSort_key, hfilter]

/-- The first hit in a sorted list is also the first one among the elements of its key, and no hit has a lower key. -/
theorem find?_of_sorted {items : List α} {hit : α → Bool} {a : α} (hsorted : items.Pairwise fun a b => key a ≤ key b)
    (hfind : items.find? hit = some a) :
    (items.filter fun b => key b = key a).find? hit = some a ∧ ∀ b ∈ items, hit b = true → key a ≤ key b := by
  obtain ⟨hhit, before, behind, rfl, hbefore⟩ := List.find?_eq_some_iff_append.1 hfind
  constructor
  · rw [List.filter_append, List.filter_cons, if_pos (decide_eq_true rfl)]
    refine List.find?_eq_some_iff_append.2 ⟨hhit, _, _, rfl, fun b hb => ?_⟩
    exact hbefore b (List.mem_filter.1 hb).1
  · intro b hb hhit'
    rcases List.mem_append.1 hb with hb | hb
    · have hmiss := hbefore b hb
      rw [hhit'] at hmiss
      cases hmiss
    · rcases List.mem_cons.1 hb with rfl | hb
      · exact Nat.le_refl _
      · exact (List.pairwise_cons.1 (List.pairwise_append.1 hsorted).2.1).1 b hb

theorem eq_of_mem_iff_of_pairwise_key {items others : List α} (hitems : items.Pairwise fun a b => key a < key b)
    (hothers : others.Pairwise fun a b => key a < key b) (h : ∀ a, a ∈ items ↔ a ∈ others) : items = others := by
  have hirrefl : Std.Irrefl fun a b : α => key a < key b := ⟨fun a => Nat.lt_irrefl (key a)⟩
  have hantisymm : Std.Antisymm fun a b : α => key a < key b := ⟨fun a b hab hba => absurd hab (Nat.lt_asymm hba)⟩
  exact hitems.eq_of_mem_iff hothers h

theorem filter_key_eq_of_perm {items sorted : List α} (hperm : items.Perm sorted)
    (hkeys : sorted.Pairwise fun a b => key a ≠ key b) (k : Nat) :
    items.filter (fun a => key a = k) = sorted.filter fun a => key a = k := by
  have hfilter := hperm.filter fun a => decide (key a = k)
  have hone : (sorted.filter fun a => key a = k).Pairwise fun _ _ => False := by
    rw [List.pairwise_filter]
    exact hkeys.imp fun hne hka hkb => hne ((of_decide_eq_true hka).trans (of_decide_eq_true hkb).symm)
  generalize (sorted.filter fun a => decide (key a = k)) = one at hfilter hone
  cases one with
  | nil => exact hfilter.eq_nil
  | cons first rest =>
      cases rest with
      | nil => exact List.perm_singleton.1 hfilter
      | cons second rest => exact ((List.pairwise_cons.1 hone).1 second List.mem_cons_self).elim

theorem mergeSort_key_eq_of_perm {items sorted : List α} (hperm : items.Perm sorted)
    (hsorted : sorted.Pairwise fun a b => key a < key b) :
    (items.mergeSort fun a b => decide (key a ≤ key b)) = sorted :=
  mergeSort_key_eq key (hsorted.imp Nat.le_of_lt) (filter_key_eq_of_perm key hperm (hsorted.imp Nat.ne_of_lt))

/-- Lists are sorted one after the other if all keys of their first parts are below those of their second parts. -/
theorem mergeSort_key_append {a b c a' b' c' : List α} (hlt : ∀ x ∈ a ++ b ++ c, ∀ y ∈ a' ++ b' ++ c', key x < key y) :
    ((a ++ a' ++ (b ++ b') ++ (c ++ c')).mergeSort fun x y => decide (key x ≤ key y)) =
      ((a ++ b ++ c).mergeSort fun x y => decide (key x ≤ key y)) ++
        (a' ++ b' ++ c').mergeSort fun x y => decide (key x ≤ key y) := by
  refine mergeSort_key_eq key ?_ fun k => ?_
  · refine List.pairwise_append.2 ⟨pairwise_mergeSort_key key _, pairwise_mergeSort_key key _, ?_⟩
    intro x hx y hy
    exact Nat.le_of_lt (hlt x (List.mem_mergeSort.1 hx) y (List.mem_mergeSort.1 hy))
  · -- Under one key there are elements of the first parts or of the second parts, but not of both.
    have hone : (a ++ b ++ c).filter (fun x => key x = k) = [] ∨ (a' ++ b' ++ c').filter (fun x => key x = k) = [] := by
      rw [Classical.or_iff_not_imp_left]
      intro hne
      obtain ⟨x, hx⟩ := List.exists_mem_of_ne_nil _ hne
      obtain ⟨hmem, hkey⟩ := List.mem_filter.1 hx
      refine List.filter_eq_nil_iff.2 fun y hy hkey' => ?_
      have h := hlt x hmem y hy
      rw [of_decide_eq_true hkey, of_decide_eq_true hkey'] at h
      exact Nat.lt_irrefl k h
    simp only [List.filter_append, filter_mergeSort_key, List.append_eq_nil_iff] at hone ⊢
    rcases hone with ⟨⟨ha, hb⟩, hc⟩ | ⟨⟨ha, hb⟩, hc⟩
    · simp only [ha, hb, hc, List.nil_append]
    · simp only [ha, hb, hc, List.append_nil]

end FactoryIndex
