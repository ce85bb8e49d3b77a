import FactoryIndex.Proofs.Outline.Location

/-!
# Traits belong to factories of their text

The walk over a text gives a trait to a factory that is open, and only a factory whose header the walk has met is ever
opened. So every trait that the scanner finds belongs to a factory that the same text defines. This is not so for
factories that are cut at the next header: a header may take in the line of another one, which then is no
header of its own but still has a body.
-/

namespace FactoryIndex.Outline

open Pattern Text

/-- Every factory that is open, or waits for its block, has one of the given names. -/
structure Knows (names : List String) (nesting : Nesting) : Prop where
  stack : ∀ factory ∈ nesting.stack, factory.name ∈ names
  pending : ∀ name, nesting.pending = some name → name ∈ names

section Walk

variable {names : List String} {nesting : Nesting}

theorem knows_start (names : List String) : Knows names {} :=
  ⟨fun _ hmem => absurd hmem List.not_mem_nil, fun _ hsome => by cases hsome⟩

theorem Knows.openBlock (h : Knows names nesting) : Knows names nesting.openBlock := by
  unfold Nesting.openBlock
  split
  · next name hpending =>
    refine ⟨fun factory hmem => ?_, fun _ hsome => by cases hsome⟩
    rcases List.mem_cons.1 hmem with rfl | hmem
    · exact h.pending name hpending
    · exact h.stack factory hmem
  · exact ⟨h.stack, h.pending⟩

theorem Knows.closeBlock (h : Knows names nesting) : Knows names nesting.closeBlock :=
  ⟨fun factory hmem => h.stack factory ((List.dropWhile_sublist _).subset hmem), fun _ hsome => by cases hsome⟩

theorem Knows.step (h : Knows names nesting) {event : BlockEvent}
    (hevent : ∀ offset name, event = .factory offset name → name ∈ names) : Knows names (nesting.step event) := by
  cases event with
  | factory offset name =>
      refine ⟨h.stack, fun other hsome => ?_⟩
      obtain rfl : name = other := Option.some.inj hsome
      exact hevent offset name rfl
  | trait offset name length => exact h
  | token offset token =>
      cases token with
      | keyword => exact ⟨h.stack, h.pending⟩
      | openDo => exact h.openBlock
      | openBrace => exact h.openBlock
      | closeEnd => exact h.closeBlock
      | closeBrace => exact h.closeBlock

theorem Knows.innermost? (h : Knows names nesting) {name : String} (hname : nesting.innermost? = some name) :
    name ∈ names := by
  obtain ⟨factory, hhead, rfl⟩ := Option.map_eq_some_iff.1 hname
  exact h.stack factory (List.mem_of_mem_head? hhead)

/-- Along a walk only those factories are known that were known before it or whose headers it has met. -/
theorem Knows.foldl (h : Knows names nesting) {events : List BlockEvent}
    (hevents : ∀ offset name, .factory offset name ∈ events → name ∈ names) :
    Knows names (events.foldl Nesting.step nesting) := by
  induction events generalizing nesting with
  | nil => exact h
  | cons event rest ih =>
      refine ih (h.step fun offset name heq => ?_) fun offset name hmem => ?_
      · exact hevents offset name (heq ▸ List.mem_cons_self)
      · exact hevents offset name (List.mem_cons_of_mem event hmem)

theorem exists_of_mem_findings {events : List BlockEvent} {finding : Finding}
    (hmem : finding ∈ nesting.findings events) : ∃ past event future, events = past ++ event :: future ∧
      (past.foldl Nesting.step nesting).finding? event = some finding := by
  induction events generalizing nesting with
  | nil => exact absurd hmem List.not_mem_nil
  | cons event rest ih =>
      rcases List.mem_append.1 hmem with hhere | hlater
      · exact ⟨[], event, rest, rfl, Option.mem_toList.1 hhere⟩
      · obtain ⟨past, other, future, rfl, hfinding⟩ := ih hlater
        exact ⟨event :: past, other, future, rfl, hfinding⟩

/-- Something is found only at a header, and it is about the innermost factory that is open there. -/
theorem finding?_eq_some {event : BlockEvent} {finding : Finding}
    (h : nesting.finding? event = some finding) :
    (∃ offset name outer, event = .factory offset name ∧ finding = .nested offset outer ∧
      nesting.innermost? = some outer) ∨
    ∃ offset name length factory, event = .trait offset name length ∧ finding = .trait offset name length factory ∧
      nesting.innermost? = some factory := by
  cases event with
  | factory offset name =>
      obtain ⟨outer, hinnermost, rfl⟩ := Option.map_eq_some_iff.1 h
      exact Or.inl ⟨offset, name, outer, rfl, rfl, hinnermost⟩
  | trait offset name length =>
      obtain ⟨factory, hinnermost, rfl⟩ := Option.map_eq_some_iff.1 h
      exact Or.inr ⟨offset, name, length, factory, rfl, rfl, hinnermost⟩
  | token offset token => cases h

theorem Knows.of_mem_findings (h : Knows names nesting) {events : List BlockEvent}
    (hevents : ∀ offset name, .factory offset name ∈ events → name ∈ names) {offset length : Nat}
    {name factory : String} (hmem : Finding.trait offset name length factory ∈ nesting.findings events) :
    factory ∈ names := by
  obtain ⟨past, event, future, rfl, hfinding⟩ := exists_of_mem_findings hmem
  have hpast := h.foldl fun start header hheader => hevents start header (List.mem_append_left _ hheader)
  rcases finding?_eq_some hfinding with ⟨_, _, _, -, heq, -⟩ | ⟨_, _, _, _, -, heq, hinnermost⟩
  · cases heq
  · cases heq
    exact hpast.innermost? hinnermost

end Walk

theorem mem_blockEvents {masked : List Char} {event : BlockEvent} : event ∈ blockEvents masked ↔
    (∃ found ∈ factoryHeaders masked, event = .factory found.start (String.ofList found.parts.name.name)) ∨
      (∃ found ∈ traitHeaders masked, event = .trait found.start (String.ofList found.parts.name) found.parts.stop) ∨
      ∃ found ∈ blockTokens masked, event = .token found.start found.parts.token := by
  simp only [blockEvents, List.mem_mergeSort, List.mem_append, List.mem_map, or_assoc, eq_comm]

theorem map_name_parse (mode : BlockMode) (text : List Char) (file : RawText) :
    (parse mode text file).factories.map Factory.name = factoryNames text :=
  map_parse (fun _ _ => rfl) mode text file

theorem factory_mem_factoryNames {text : List Char} {file : RawText} {t : Trait}
    (hmem : t ∈ (parse .scanner text file).traits) : t.factory ∈ factoryNames text := by
  obtain ⟨finding, hfinding, heq⟩ := List.mem_filterMap.1 hmem
  cases finding with
  | nested offset outer => cases heq
  | trait offset name length factory =>
      cases heq
      refine (knows_start (factoryNames text)).of_mem_findings (fun start header hevent => ?_) hfinding
      rcases mem_blockEvents.1 hevent with ⟨found, hfound, heq⟩ | ⟨found, -, heq⟩ | ⟨found, -, heq⟩
      · cases heq
        exact List.mem_map_of_mem hfound
      · cases heq
      · cases heq

end FactoryIndex.Outline
