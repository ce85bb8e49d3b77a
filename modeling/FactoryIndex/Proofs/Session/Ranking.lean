import FactoryIndex.Proofs.Outline.Completion
import FactoryIndex.Session.Indexing
import Mathlib.Data.List.Nodup

/-!
# Definitions in the order of their files

The definitions of a pass are sorted by the ranks of their files before they are filed. Reads that complete in
any order lead to the same list: every file has a rank of its own, and the definitions of one file stay in
document order. So what is filed is what the files define, one file after another in the order of the pass.
-/

namespace FactoryIndex.Session

variable {files : List RawText}

theorem rankAmong_getElem (hnodup : files.Nodup) {i : Nat} (hi : i < files.length) :
    rankAmong files files[i] = i := by
  have hmem : files.reverse.idxOf? files[i] = some (files.length - 1 - i) := by
    rw [List.idxOf?_eq_some_iff]
    refine ⟨by rw [List.length_reverse]; omega, ?_, ?_⟩
    · rw [List.getElem_reverse]
      congr 1
      omega
    · intro j hj heq
      rw [List.getElem_reverse] at heq
      have hindex := hnodup.getElem_inj_iff.1 heq
      omega
  rw [rankAmong, hmem]
  simp only
  omega

theorem rankAmong_injOn {a b : RawText} (ha : a ∈ files) (hb : b ∈ files)
    (heq : rankAmong files a = rankAmong files b) : a = b := by
  obtain ⟨i, hi⟩ := Option.isSome_iff_exists.1 (List.isSome_idxOf?.2 (List.mem_reverse.2 ha))
  obtain ⟨j, hj⟩ := Option.isSome_iff_exists.1 (List.isSome_idxOf?.2 (List.mem_reverse.2 hb))
  simp only [rankAmong, hi, hj] at heq
  obtain ⟨hlt, rfl, -⟩ := List.idxOf?_eq_some_iff.1 hi
  obtain ⟨hlt', rfl, -⟩ := List.idxOf?_eq_some_iff.1 hj
  rw [List.length_reverse] at hlt hlt'
  obtain rfl : i = j := by omega
  rfl

theorem pairwise_rankAmong (hnodup : files.Nodup) :
    files.Pairwise fun a b => rankAmong files a ≤ rankAmong files b := by
  rw [List.pairwise_iff_getElem]
  intro i j hi hj hij
  rw [rankAmong_getElem hnodup, rankAmong_getElem hnodup]
  exact Nat.le_of_lt hij

section ByRank

variable {α : Type} {reads completed : List FileRead} {fileOf : α → RawText} {defined : FileRead → List α}

/-- The definitions of one rank are those of the reads of that rank. -/
theorem filter_flatMap_rank (hfile : ∀ read, ∀ value ∈ defined read, fileOf value = read.file)
    (reads : List FileRead) (k : Nat) :
    (reads.flatMap defined).filter (fun value => rankAmong files (fileOf value) = k) =
      (reads.filter fun read => rankAmong files read.file = k).flatMap defined := by
  induction reads with
  | nil => rfl
  | cons read rest ih =>
      rw [List.flatMap_cons, List.filter_append, ih, List.filter_cons]
      by_cases hk : rankAmong files read.file = k
      · rw [if_pos (decide_eq_true hk), List.flatMap_cons]
        congr 1
        refine List.filter_eq_self.2 fun value hvalue => ?_
        rw [hfile read value hvalue]
        exact decide_eq_true hk
      · have hnone : (defined read).filter (fun value => rankAmong files (fileOf value) = k) = [] := by
          refine List.filter_eq_nil_iff.2 fun value hvalue => ?_
          rw [hfile read value hvalue]
          simpa using hk
        rw [if_neg (by simpa using hk), hnone, List.nil_append]

/-- At most one read has a rank, so it does not matter in which order the reads complete. -/
theorem filter_rank_eq_of_perm (hnodup : files.Nodup) (hreads : reads.map FileRead.file = files)
    (hperm : completed.Perm reads) (k : Nat) :
    (completed.filter fun read => rankAmong files read.file = k) =
      reads.filter fun read => rankAmong files read.file = k := by
  refine filter_key_eq_of_perm (fun read => rankAmong files read.file) hperm ?_ k
  have hpairwise : (reads.map FileRead.file).Pairwise (· ≠ ·) := by rwa [hreads]
  rw [List.pairwise_map] at hpairwise
  refine hpairwise.imp_of_mem fun {a b} ha hb hne heq => hne (rankAmong_injOn ?_ ?_ heq)
  · exact hreads ▸ List.mem_map_of_mem ha
  · exact hreads ▸ List.mem_map_of_mem hb

/-- What is filed does not depend on the order in which the reads complete. -/
theorem byRank_flatMap (hfile : ∀ read, ∀ value ∈ defined read, fileOf value = read.file)
    (hnodup : files.Nodup) (hreads : reads.map FileRead.file = files) (hperm : completed.Perm reads) :
    byRank files fileOf (completed.flatMap defined) = reads.flatMap defined := by
  refine mergeSort_key_eq (fun value => rankAmong files (fileOf value)) ?_ fun k => ?_
  · rw [List.pairwise_flatMap]
    constructor
    · intro read _
      refine List.pairwise_of_forall_mem_list fun a ha b hb => Nat.le_of_eq ?_
      rw [hfile read a ha, hfile read b hb]
    · have hpairwise := pairwise_rankAmong hnodup
      nth_rewrite 3 [← hreads] at hpairwise
      rw [List.pairwise_map] at hpairwise
      refine hpairwise.imp fun {x y} hle a ha b hb => ?_
      rw [hfile x a ha, hfile y b hb]
      exact hle
  · rw [filter_flatMap_rank hfile, filter_flatMap_rank hfile, filter_rank_eq_of_perm hnodup hreads hperm]

theorem find?_byRank (hfile : ∀ read, ∀ value ∈ defined read, fileOf value = read.file) {hit : α → Bool} {value : α}
    (hfind : (byRank files fileOf (completed.flatMap defined)).find? hit = some value) :
    ∃ read ∈ completed, (defined read).find? hit = some value ∧
      ∀ other ∈ completed, (∃ rival ∈ defined other, hit rival = true) →
        rankAmong files read.file ≤ rankAmong files other.file := by
  obtain ⟨hfirst, hleast⟩ := find?_of_sorted (fun value => rankAmong files (fileOf value))
    (pairwise_mergeSort_key _ _) hfind
  rw [filter_mergeSort_key, filter_flatMap_rank hfile, List.find?_flatMap] at hfirst
  obtain ⟨read, hread, hvalue⟩ := List.exists_of_findSome?_eq_some hfirst
  obtain ⟨hread, -⟩ := List.mem_filter.1 hread
  refine ⟨read, hread, hvalue, fun other hother ⟨rival, hrival, hhit⟩ => ?_⟩
  have hle := hleast rival (List.mem_mergeSort.2 (List.mem_flatMap.2 ⟨other, hother, hrival⟩)) hhit
  rwa [hfile other rival hrival, hfile read value (List.mem_of_find?_eq_some hvalue)] at hle

end ByRank

end FactoryIndex.Session
