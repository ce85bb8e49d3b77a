/-!
# Sets of names

A finite set of names, held as a list without repetitions. Nothing depends on the order of the list:
wherever a set is shown, its names are sorted.
-/

namespace FactoryIndex

/-- A finite set of names. -/
structure NameSet where
  names : List String
  nodup : names.Nodup

/-- The names sorted by their code points. -/
def sortedNames (names : List String) : List String := names.mergeSort fun a b => decide (a ≤ b)

namespace NameSet

def empty : NameSet := ⟨[], List.nodup_nil⟩

instance : Inhabited NameSet := ⟨empty⟩

instance : Membership String NameSet := ⟨fun set name => name ∈ set.names⟩

def insert (set : NameSet) (name : String) : NameSet :=
  if h : name ∈ set.names then set else ⟨name :: set.names, List.nodup_cons.2 ⟨h, set.nodup⟩⟩

def erase (set : NameSet) (name : String) : NameSet :=
  ⟨set.names.filter (· ≠ name), set.nodup.sublist List.filter_sublist⟩

def size (set : NameSet) : Nat := set.names.length

def sorted (set : NameSet) : List String := sortedNames set.names

@[simp]
theorem not_mem_empty (name : String) : name ∉ empty := List.not_mem_nil

@[simp]
theorem mem_insert {set : NameSet} {name other : String} :
    other ∈ set.insert name ↔ other = name ∨ other ∈ set := by
  show other ∈ (set.insert name).names ↔ other = name ∨ other ∈ set.names
  unfold insert
  split
  · next h =>
    constructor
    · exact Or.inr
    · rintro (rfl | hmem)
      · exact h
      · exact hmem
  · exact List.mem_cons

@[simp]
theorem mem_erase {set : NameSet} {name other : String} :
    other ∈ set.erase name ↔ other ∈ set ∧ other ≠ name := by
  show other ∈ set.names.filter (· ≠ name) ↔ other ∈ set.names ∧ other ≠ name
  simp

end NameSet

end FactoryIndex
