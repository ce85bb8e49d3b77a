import FactoryIndex.Proofs.Session.Pass

/-!
# Passes that wait for their files

Between its start and its end a pass waits for reads. A `Reading` is such a pass together with the reads that have
completed so far and the files that have still to be read, group by group. The reads of the first group complete one
by one, in whatever order they please, and only when none is left does the next group come up.

While the files stay as they are, what has completed can always be carried on to one of the orders in which the
reads of a pass may complete.
-/

namespace FactoryIndex

theorem Outline.groups_map {α β : Type} (f : α → β) (size : Nat) (items : List α) :
    groups size (items.map f) = (groups size items).map (List.map f) := by
  induction items using groups.induct size with
  | case1 => simp [groups]
  | case2 item rest ih =>
      rw [List.map_cons, groups, groups, List.map_cons, ← List.map_drop, ih, List.map_cons, List.map_take]

structure Reading where
  pass : Pass
  completed : List FileRead := []
  pending : List (List RawText)

namespace Reading

def start (pass : Pass) : Reading := { pass := pass, pending := Outline.groups pass.batchSize pass.files }

/-- A file of the group whose turn it is has still to be read. -/
def Awaits (reading : Reading) (file : RawText) : Prop :=
  ∃ group rest, reading.pending = group :: rest ∧ file ∈ group

def take (source : Source) (file : RawText) (reading : Reading) : Reading :=
  { reading with
      completed := reading.completed ++ [⟨file, source.delay file, source.read file⟩]
      pending :=
        match reading.pending with
        | [] => []
        | group :: rest => if (group.erase file).isEmpty then rest else group.erase file :: rest }

/-- However the remaining reads complete, the reads of the pass will have completed in one of their orders. -/
def Faithful (source : Source) (reading : Reading) : Prop :=
  ∀ orders, List.Forall₂ List.Perm (reading.pending.map source.reads) orders →
    Outline.Completes reading.pass.batchSize (source.reads reading.pass.files) (reading.completed ++ orders.flatten)

variable {source : Source} {reading : Reading}

theorem faithful_start (source : Source) (pass : Pass) : (start pass).Faithful source := by
  intro orders horders
  refine ⟨orders, ?_, List.nil_append _⟩
  rwa [Source.reads, Outline.groups_map]

theorem Faithful.take (h : reading.Faithful source) {file : RawText} (hawaits : reading.Awaits file) :
    (reading.take source file).Faithful source := by
  obtain ⟨group, rest, hpending, hfile⟩ := hawaits
  intro orders horders
  -- The read that has completed goes in front of those of its group that have not.
  have hperm : (source.reads group).Perm
      (⟨file, source.delay file, source.read file⟩ :: source.reads (group.erase file)) :=
    (List.perm_cons_erase hfile).map _
  simp only [Reading.take, hpending] at horders ⊢
  by_cases hlast : (group.erase file).isEmpty = true
  · rw [if_pos hlast] at horders
    have hall := h ([⟨file, source.delay file, source.read file⟩] :: orders) (by
      rw [hpending, List.map_cons]
      refine .cons ?_ horders
      rwa [List.isEmpty_iff.1 hlast] at hperm)
    rwa [List.flatten_cons, ← List.append_assoc] at hall
  · rw [if_neg hlast, List.map_cons] at horders
    cases horders with
    | cons hfirst hrest =>
        next order others =>
        have hall := h ((⟨file, source.delay file, source.read file⟩ :: order) :: others) (by
          rw [hpending, List.map_cons]
          exact .cons (hperm.trans (hfirst.cons _)) hrest)
        rw [List.flatten_cons, List.cons_append, ← List.singleton_append, ← List.append_assoc] at hall
        rwa [List.flatten_cons]

theorem Faithful.completes (h : reading.Faithful source) (hpending : reading.pending = []) :
    Outline.Completes reading.pass.batchSize (source.reads reading.pass.files) reading.completed := by
  have hall := h [] (by rw [hpending]; exact .nil)
  rwa [List.flatten_nil, List.append_nil] at hall

end Reading

end FactoryIndex
