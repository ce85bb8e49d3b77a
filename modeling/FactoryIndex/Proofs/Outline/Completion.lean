import FactoryIndex.Outline.Batch
import FactoryIndex.Proofs.Outline.Location
import FactoryIndex.Proofs.StableSort
import Mathlib.Data.List.Forall2

/-!
# Reads that complete in any order

Files are read in groups, and the reads of one group complete in whatever order they please. `Completes` says
that a list is such an order. The outline of all files then holds the definitions of one file after another,
in that order, and every such order is a rearrangement of the files: nothing is lost or taken twice.
-/

namespace FactoryIndex.Outline

variable {size : Nat} {mode : BlockMode} {reads completed : List FileRead}

/-- A list takes the reads of one group after another, those of each group in some order. -/
def Completes (size : Nat) (reads completed : List FileRead) : Prop :=
  ∃ orders, List.Forall₂ List.Perm (groups size reads) orders ∧ completed = orders.flatten

theorem flatten_groups {α : Type} (size : Nat) (items : List α) : (groups size items).flatten = items := by
  induction items using groups.induct size with
  | case1 => simp [groups]
  | case2 item rest ih => rw [groups, List.flatten_cons, ih, List.cons_append, List.take_append_drop]

theorem Completes.perm (h : Completes size reads completed) : completed.Perm reads := by
  obtain ⟨orders, horders, rfl⟩ := h
  have hflatten : (groups size reads).flatten.Perm orders.flatten := by
    generalize groups size reads = parts at horders
    induction horders with
    | nil => exact List.Perm.refl _
    | cons hfirst _ ih =>
        rw [List.flatten_cons, List.flatten_cons]
        exact hfirst.append ih
  rw [flatten_groups] at hflatten
  exact hflatten.symm

theorem completes_completed (size : Nat) (reads : List FileRead) :
    Completes size reads (Outline.completed size reads) := by
  refine ⟨(groups size reads).map byDelay, ?_, List.flatMap_def⟩
  rw [List.forall₂_map_right_iff]
  exact List.forall₂_same.2 fun group _ => (List.mergeSort_perm group _).symm

theorem factories_ofCompleted (mode : BlockMode) (reads : List FileRead) :
    (ofCompleted mode reads).1.factories = reads.flatMap fun read => (isolated mode read).1.factories := by
  induction reads with
  | nil => rfl
  | cons read rest ih => rw [List.flatMap_cons, ← ih]; rfl

theorem traits_ofCompleted (mode : BlockMode) (reads : List FileRead) :
    (ofCompleted mode reads).1.traits = reads.flatMap fun read => (isolated mode read).1.traits := by
  induction reads with
  | nil => rfl
  | cons read rest ih => rw [List.flatMap_cons, ← ih]; rfl

theorem outline_isolated (mode : BlockMode) (read : FileRead) :
    (isolated mode read).1 = match read.outcome with
      | .ok text => parse mode text read.file
      | .error _ => {} := by
  unfold isolated ofRead
  cases houtcome : read.outcome with
  | ok text => rfl
  | error failure => cases hkind : failure.kind.isUnreadable <;> simp [hkind]

theorem file_of_mem_factories_isolated {read : FileRead} {factory : Factory}
    (hmem : factory ∈ (isolated mode read).1.factories) : factory.location.file = read.file := by
  rw [outline_isolated] at hmem
  split at hmem
  · exact file_of_mem_factories_parse hmem
  · cases hmem

theorem file_of_mem_traits_isolated {read : FileRead} {t : Trait}
    (hmem : t ∈ (isolated mode read).1.traits) : t.location.file = read.file := by
  rw [outline_isolated] at hmem
  split at hmem
  · exact file_of_mem_traits_parse hmem
  · cases hmem

end FactoryIndex.Outline
