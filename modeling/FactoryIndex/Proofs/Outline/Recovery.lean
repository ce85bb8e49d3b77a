import FactoryIndex.Proofs.Outline.Forest

/-!
# The walk recovers

The walk over headers and block tokens is made for blocks that nest, but it meets whatever a text holds: blocks that are
never closed, closers without a block, headers without a block of their own. Through all of that the open factories stay
in order. Each one remembers a depth below the current one, and below those of the factories inside it. So a closer
closes one factory at most, and where no block is open no factory is.

Behind a closer that leaves no block open the walk is therefore where it started. Whatever was wrong before that closer
has no influence on what is found behind it.
-/

namespace FactoryIndex.Outline

def BlockEvent.closes : BlockEvent → Bool
  | token _ .closeEnd => true
  | token _ .closeBrace => true
  | _ => false

namespace Nesting

/-- The depths that the open factories remember decrease from the innermost factory outwards, and are all below the
depth of open blocks. -/
structure Ordered (nesting : Nesting) : Prop where
  decreasing : nesting.stack.Pairwise fun inner outer => outer.depth < inner.depth
  depth_lt : ∀ factory ∈ nesting.stack, factory.depth < nesting.depth

/-! ### One event -/

section Step

variable {nesting : Nesting}

theorem ordered_start : Ordered {} := ⟨List.Pairwise.nil, fun _ hmem => absurd hmem List.not_mem_nil⟩

theorem Ordered.stack_eq_nil (h : nesting.Ordered) (hdepth : nesting.depth = 0) : nesting.stack = [] := by
  apply List.eq_nil_iff_forall_not_mem.2
  intro factory hmem
  have hlt := h.depth_lt factory hmem
  omega

theorem Ordered.openKeyword (h : nesting.Ordered) : nesting.openKeyword.Ordered :=
  ⟨h.decreasing, fun factory hmem => Nat.lt_succ_of_lt (h.depth_lt factory hmem)⟩

theorem Ordered.openBlock (h : nesting.Ordered) : nesting.openBlock.Ordered := by
  unfold Nesting.openBlock
  split
  · next name _ =>
    -- The factory that was waiting remembers the depth outside its block, which all others are below.
    refine ⟨List.Pairwise.cons h.depth_lt h.decreasing, fun factory hmem => ?_⟩
    rcases List.mem_cons.1 hmem with rfl | hmem
    · exact Nat.lt_succ_self nesting.depth
    · exact Nat.lt_succ_of_lt (h.depth_lt factory hmem)
  · exact h.openKeyword

/-- A closer closes the innermost factory if that was opened last, and no other one. -/
theorem Ordered.closeBlock_cases (h : nesting.Ordered) :
    (nesting.closeBlock.stack = nesting.stack ∧ ∀ factory ∈ nesting.stack, factory.depth < nesting.depth - 1) ∨
      ∃ factory, nesting.stack = factory :: nesting.closeBlock.stack ∧ factory.depth = nesting.depth - 1 := by
  have hdecreasing := h.decreasing
  have hbelow := h.depth_lt
  unfold closeBlock
  simp only
  cases hstack : nesting.stack with
  | nil => exact Or.inl ⟨rfl, fun _ hmem => absurd hmem List.not_mem_nil⟩
  | cons factory outer =>
      rw [hstack] at hdecreasing hbelow
      obtain ⟨houter, -⟩ := List.pairwise_cons.1 hdecreasing
      have hlt := hbelow factory List.mem_cons_self
      by_cases hlast : nesting.depth - 1 ≤ factory.depth
      · have hkept : outer.dropWhile (fun other => decide (nesting.depth - 1 ≤ other.depth)) = outer := by
          cases outer with
          | nil => rfl
          | cons next _ =>
              have hnext := houter next List.mem_cons_self
              exact List.dropWhile_cons_of_neg (by simp; omega)
        refine Or.inr ⟨factory, ?_, by omega⟩
        rw [List.dropWhile_cons_of_pos (by simpa using hlast), hkept]
      · refine Or.inl ⟨List.dropWhile_cons_of_neg (by simpa using hlast), fun other hmem => ?_⟩
        rcases List.mem_cons.1 hmem with rfl | hmem
        · omega
        · have hother := houter other hmem
          omega

theorem Ordered.closeBlock (h : nesting.Ordered) : nesting.closeBlock.Ordered := by
  have hdecreasing := h.decreasing
  rcases h.closeBlock_cases with ⟨hstack, hbelow⟩ | ⟨factory, hstack, hdepth⟩
  · rw [← hstack] at hdecreasing hbelow
    exact ⟨hdecreasing, hbelow⟩
  · rw [hstack] at hdecreasing
    obtain ⟨houter, hrest⟩ := List.pairwise_cons.1 hdecreasing
    refine ⟨hrest, fun other hmem => ?_⟩
    rw [show nesting.closeBlock.depth = factory.depth from hdepth.symm]
    exact houter other hmem

theorem Ordered.step (h : nesting.Ordered) (event : BlockEvent) : (nesting.step event).Ordered := by
  cases event with
  | factory offset name => exact ⟨h.decreasing, h.depth_lt⟩
  | trait offset name length => exact h
  | token offset token =>
      cases token with
      | keyword => exact h.openKeyword
      | openDo => exact h.openBlock
      | openBrace => exact h.openBlock
      | closeEnd => exact h.closeBlock
      | closeBrace => exact h.closeBlock

theorem step_of_closes {closer : BlockEvent} (hcloses : closer.closes = true) :
    nesting.step closer = nesting.closeBlock ∧ nesting.finding? closer = none := by
  unfold BlockEvent.closes at hcloses
  split at hcloses
  · exact ⟨rfl, rfl⟩
  · exact ⟨rfl, rfl⟩
  · cases hcloses

/-- Behind a closer that leaves no block open the walk is where it started. -/
theorem Ordered.closeBlock_eq_start (h : nesting.Ordered) (hdepth : nesting.closeBlock.depth = 0) :
    nesting.closeBlock = {} := by
  have hstack := h.closeBlock.stack_eq_nil hdepth
  have hpending : nesting.closeBlock.pending = none := rfl
  generalize nesting.closeBlock = after at hdepth hstack hpending ⊢
  obtain ⟨stack, depth, pending⟩ := after
  simp only at hdepth hstack hpending
  rw [hdepth, hstack, hpending]

end Step

/-! ### Any events -/

theorem Ordered.foldl {nesting : Nesting} (h : nesting.Ordered) (events : List BlockEvent) :
    (events.foldl Nesting.step nesting).Ordered := by
  induction events generalizing nesting with
  | nil => exact h
  | cons event rest ih => exact ih (h.step event)

/-- **The walk recovers.** After any events, whether their blocks nest or not, the open factories remember depths that
increase from the outermost one inwards and are below the depth of open blocks; so no factory is open where no block is.
A closer that comes next closes one factory at most. If it leaves no block open, then whatever events follow, what is
found is what is found up to this closer, and then what is found in the others alone. -/
theorem walk_recovers (events : List BlockEvent) :
    let nesting := events.foldl step {}
    nesting.stack.Pairwise (fun inner outer => outer.depth < inner.depth) ∧
      (∀ factory ∈ nesting.stack, factory.depth < nesting.depth) ∧
      (nesting.depth = 0 → nesting.stack = []) ∧
      ∀ closer : BlockEvent, closer.closes = true →
        ((nesting.step closer).stack = nesting.stack ∨
          ∃ factory, nesting.stack = factory :: (nesting.step closer).stack) ∧
        ((nesting.step closer).depth = 0 → ∀ rest,
          findings {} (events ++ closer :: rest) = findings {} (events ++ [closer]) ++ findings {} rest) := by
  intro nesting
  have hordered : nesting.Ordered := ordered_start.foldl events
  refine ⟨hordered.decreasing, hordered.depth_lt, hordered.stack_eq_nil, fun closer hcloses => ?_⟩
  obtain ⟨hstep, -⟩ := @step_of_closes nesting closer hcloses
  rw [hstep]
  constructor
  · rcases hordered.closeBlock_cases with ⟨hstack, -⟩ | ⟨factory, hstack, -⟩
    · exact Or.inl hstack
    · exact Or.inr ⟨factory, hstack⟩
  · intro hdepth rest
    have hclosed : Walks {} (events ++ [closer]) {} (findings {} (events ++ [closer])) := by
      refine ⟨?_, rfl⟩
      rw [List.foldl_append, List.foldl_cons, List.foldl_nil, show events.foldl step {} = nesting from rfl, hstep]
      exact hordered.closeBlock_eq_start hdepth
    have hwhole := hclosed.append (⟨rfl, rfl⟩ : Walks {} rest (rest.foldl step {}) (findings {} rest))
    rw [List.append_cons]
    exact hwhole.2

/-- A header without a block, and a closer without one; the factory behind them has its trait. -/
example :
    let front : List BlockEvent := [.factory 0 "a", .token 1 .closeEnd]
    let back : List BlockEvent := [.factory 2 "b", .token 3 .openDo, .trait 4 "t" 1, .token 5 .closeEnd]
    findings {} (front ++ back) = [.trait 4 "t" 1 "b"] ∧ (back.foldl step {}).stack = [] := by decide

end Nesting

end FactoryIndex.Outline
