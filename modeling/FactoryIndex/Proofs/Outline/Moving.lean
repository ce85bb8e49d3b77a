import FactoryIndex.Proofs.Outline.Belonging
import FactoryIndex.Proofs.Pattern.Occurrence
import FactoryIndex.Proofs.StableSort

/-!
# Definitions that move

Where lines are put above a text, the headers and tokens of the text move to the right by their length, and what the
text defines moves down by their number; everything else stays the same. The walk does not look at offsets, and linking
does not look at places, so both make no difference to what has moved. Where two lists of factories have no name in
common, each is linked with its own traits.
-/

namespace FactoryIndex

variable {n : Nat}

/-! ### Definitions further down -/

def Location.moveDown (n : Nat) (location : Location) : Location := { location with line := n + location.line }

def Trait.moveDown (n : Nat) (t : Trait) : Trait := { t with location := t.location.moveDown n }

/-- The same factory with the same traits, all of them a number of lines further down. -/
def Factory.moveDown (n : Nat) (factory : Factory) : Factory :=
  { factory with
    location := factory.location.moveDown n
    traits := factory.traits.mapValues (Trait.moveDown n) }

def Outline.moveDown (n : Nat) (outline : Outline) : Outline :=
  ⟨outline.factories.map (Factory.moveDown n), outline.traits.map (Trait.moveDown n)⟩

theorem OrderedMap.mapValues_insert {κ α β : Type} [DecidableEq κ] (f : α → β) (m : OrderedMap κ α) (key : κ)
    (value : α) : (m.insert key value).mapValues f = (m.mapValues f).insert key (f value) := by
  have hput : ∀ entries : List (κ × α), (put key value entries).map (fun entry => (entry.1, f entry.2)) =
      put key (f value) (entries.map fun entry => (entry.1, f entry.2)) := by
    intro entries
    induction entries with
    | nil => rfl
    | cons entry rest ih =>
        simp only [put, List.map_cons]
        split
        · rfl
        · rw [List.map_cons, ih]
  simp only [insert, mapValues, hput]

theorem Factory.moveDown_addTrait (factory : Factory) (t : Trait) :
    (factory.addTrait t).moveDown n = (factory.moveDown n).addTrait (t.moveDown n) := by
  rw [addTrait, moveDown, OrderedMap.mapValues_insert]
  rfl

theorem Factory.moveDown_foldl_addTrait (traits : List Trait) (factory : Factory) :
    (traits.foldl addTrait factory).moveDown n =
      (traits.map (Trait.moveDown n)).foldl addTrait (factory.moveDown n) := by
  induction traits generalizing factory with
  | nil => rfl
  | cons t rest ih => rw [List.foldl_cons, ih, moveDown_addTrait, List.map_cons, List.foldl_cons]

namespace Outline

theorem linkTraits_moveDown (traits : List Trait) (factories : List Factory) :
    linkTraits (traits.map (Trait.moveDown n)) (factories.map (Factory.moveDown n)) =
      (linkTraits traits factories).map (Factory.moveDown n) := by
  induction factories with
  | nil => rfl
  | cons factory rest ih =>
      have hlater : (rest.map (Factory.moveDown n)).any (fun later => later.name == (factory.moveDown n).name) =
          rest.any fun later => later.name == factory.name := List.any_map
      have hown : (traits.map (Trait.moveDown n)).filter (fun t => t.factory == (factory.moveDown n).name) =
          (traits.filter fun t => t.factory == factory.name).map (Trait.moveDown n) := List.filter_map
      rw [List.map_cons, linkTraits, linkTraits, List.map_cons, ih, Factory.moveDown_foldl_addTrait, hlater, hown]
      split
      · rfl
      · rfl

/-- Only the traits of the factories that are linked count. -/
theorem linkTraits_congr {traits traits' : List Trait} {factories : List Factory}
    (h : ∀ factory ∈ factories, (traits.filter fun t => t.factory == factory.name) =
      traits'.filter fun t => t.factory == factory.name) :
    linkTraits traits factories = linkTraits traits' factories := by
  induction factories with
  | nil => rfl
  | cons factory rest ih =>
      rw [linkTraits, linkTraits, h factory List.mem_cons_self,
        ih fun other hother => h other (List.mem_cons_of_mem factory hother)]

theorem linkTraits_append_factories (traits : List Trait) {upper lower : List Factory}
    (hnames : ∀ factory ∈ upper, factory.name ∉ lower.map Factory.name) :
    linkTraits traits (upper ++ lower) = linkTraits traits upper ++ linkTraits traits lower := by
  induction upper with
  | nil => rfl
  | cons factory rest ih =>
      have habsent : lower.any (fun later => later.name == factory.name) = false := by
        rw [List.any_eq_false]
        intro later hlater heq
        exact hnames factory List.mem_cons_self (beq_iff_eq.1 heq ▸ List.mem_map_of_mem hlater)
      rw [List.cons_append, linkTraits, linkTraits, List.cons_append, List.any_append, habsent, Bool.or_false,
        ih fun other hother => hnames other (List.mem_cons_of_mem factory hother)]

/-- Where two lists of factories have no name in common, each is linked with its own traits. -/
theorem linkTraits_append {upperTraits lowerTraits : List Trait} {upper lower : List Factory}
    (hupper : ∀ t ∈ upperTraits, t.factory ∈ upper.map Factory.name)
    (hlower : ∀ t ∈ lowerTraits, t.factory ∈ lower.map Factory.name)
    (hnames : ∀ name ∈ upper.map Factory.name, name ∉ lower.map Factory.name) :
    linkTraits (upperTraits ++ lowerTraits) (upper ++ lower) =
      linkTraits upperTraits upper ++ linkTraits lowerTraits lower := by
  rw [linkTraits_append_factories _ fun factory hfactory => hnames _ (List.mem_map_of_mem hfactory)]
  congr 1
  · refine linkTraits_congr fun factory hfactory => ?_
    have hnone : (lowerTraits.filter fun t => t.factory == factory.name) = [] := by
      rw [List.filter_eq_nil_iff]
      intro t ht heq
      exact hnames _ (List.mem_map_of_mem hfactory) (beq_iff_eq.1 heq ▸ hlower t ht)
    rw [List.filter_append, hnone, List.append_nil]
  · refine linkTraits_congr fun factory hfactory => ?_
    have hnone : (upperTraits.filter fun t => t.factory == factory.name) = [] := by
      rw [List.filter_eq_nil_iff]
      intro t ht heq
      exact hnames _ (beq_iff_eq.1 heq ▸ hupper t ht) (List.mem_map_of_mem hfactory)
    rw [List.filter_append, hnone, List.nil_append]

/-! ### Events further to the right -/

open Pattern

def BlockEvent.shift (n : Nat) : BlockEvent → BlockEvent
  | factory offset name => factory (n + offset) name
  | trait offset name length => trait (n + offset) name length
  | token offset kind => token (n + offset) kind

def Finding.shift (n : Nat) : Finding → Finding
  | nested offset outer => nested (n + offset) outer
  | trait offset name length factory => trait (n + offset) name length factory

/-- The offset of the header that a finding is about. -/
def Finding.offset : Finding → Nat
  | nested offset _ => offset
  | trait offset _ _ _ => offset

theorem BlockEvent.offset_shift (n : Nat) (event : BlockEvent) : (event.shift n).offset = n + event.offset := by
  cases event <;> rfl

theorem Finding.offset_shift (n : Nat) (finding : Finding) : (finding.shift n).offset = n + finding.offset := by
  cases finding <;> rfl

theorem findings_map_shift (n : Nat) (nesting : Nesting) (events : List BlockEvent) :
    nesting.findings (events.map (BlockEvent.shift n)) = (nesting.findings events).map (Finding.shift n) := by
  induction events generalizing nesting with
  | nil => rfl
  | cons event rest ih =>
      have hstep : nesting.step (event.shift n) = nesting.step event := by
        cases event with
        | factory offset name => rfl
        | trait offset name length => rfl
        | token offset kind => cases kind <;> rfl
      have hfinding : nesting.finding? (event.shift n) = (nesting.finding? event).map (Finding.shift n) := by
        cases event with
        | factory offset name => simp only [Nesting.finding?, BlockEvent.shift, Option.map_map]; rfl
        | trait offset name length => simp only [Nesting.finding?, BlockEvent.shift, Option.map_map]; rfl
        | token offset kind => rfl
      rw [List.map_cons, Nesting.findings, Nesting.findings, hstep, ih, hfinding, List.map_append]
      congr 1
      cases nesting.finding? event <;> rfl

/-- The events of headers and tokens, in the order of their offsets. -/
def eventsFrom (factories : List (Found FactoryHeader)) (traits : List (Found Symbol))
    (tokens : List (Found BlockTokenParts)) : List BlockEvent :=
  (factories.map (fun found => BlockEvent.factory found.start (String.ofList found.parts.name.name)) ++
    traits.map (fun found => BlockEvent.trait found.start (String.ofList found.parts.name) found.parts.stop) ++
    tokens.map fun found => BlockEvent.token found.start found.parts.token).mergeSort
      fun a b => decide (a.offset ≤ b.offset)

theorem blockEvents_eq (masked : List Char) :
    blockEvents masked = eventsFrom (factoryHeaders masked) (traitHeaders masked) (blockTokens masked) := rfl

/-- Events that all lie before a place come before those that are moved behind it. -/
theorem eventsFrom_append {n : Nat} {factories factories' : List (Found FactoryHeader)}
    {traits traits' : List (Found Symbol)} {tokens tokens' : List (Found BlockTokenParts)}
    (hlt : ∀ event ∈ eventsFrom factories traits tokens, event.offset < n) :
    eventsFrom (factories ++ factories'.map (Found.shift n)) (traits ++ traits'.map (Found.shift n))
        (tokens ++ tokens'.map (Found.shift n)) =
      eventsFrom factories traits tokens ++ (eventsFrom factories' traits' tokens').map (.shift n) := by
  have hshift : (eventsFrom factories' traits' tokens').map (.shift n) =
      eventsFrom (factories'.map (Found.shift n)) (traits'.map (Found.shift n)) (tokens'.map (Found.shift n)) := by
    rw [eventsFrom, List.map_mergeSort (s := fun a b => decide (a.offset ≤ b.offset)), eventsFrom]
    · simp only [List.map_append, List.map_map]
      rfl
    · intro a _ b _
      simp only [BlockEvent.offset_shift, Nat.add_le_add_iff_left]
  rw [hshift, eventsFrom, eventsFrom, eventsFrom, List.map_append, List.map_append, List.map_append]
  refine mergeSort_key_append BlockEvent.offset fun x hx y hy => ?_
  have hlower : y ∈ (eventsFrom factories' traits' tokens').map (.shift n) := by
    rw [hshift]
    exact List.mem_mergeSort.2 hy
  obtain ⟨event, -, rfl⟩ := List.mem_map.1 hlower
  have hupper := hlt x (List.mem_mergeSort.2 hx)
  rw [BlockEvent.offset_shift]
  omega

theorem exists_event_of_mem_findings {nesting : Nesting} {events : List BlockEvent} {finding : Finding}
    (hmem : finding ∈ nesting.findings events) : ∃ event ∈ events, event.offset = finding.offset := by
  obtain ⟨past, event, future, rfl, hfinding⟩ := exists_of_mem_findings hmem
  refine ⟨event, List.mem_append_right past List.mem_cons_self, ?_⟩
  rcases finding?_eq_some hfinding with ⟨_, _, _, rfl, rfl, -⟩ | ⟨_, _, _, _, rfl, rfl, -⟩
  · rfl
  · rfl

theorem start_lt_of_mem_occurrences {α : Type} {recognise : Recogniser α} {text : List Char} {found : Found α}
    (hmem : found ∈ occurrences recognise text) : found.start < text.length := by
  have hlt := (occurs_of_mem_occurrences hmem).start_lt
  omega

theorem offset_lt_of_mem_blockEvents {masked : List Char} {event : BlockEvent} (hmem : event ∈ blockEvents masked) :
    event.offset < masked.length := by
  rcases mem_blockEvents.1 hmem with ⟨found, hfound, rfl⟩ | ⟨found, hfound, rfl⟩ | ⟨found, hfound, rfl⟩
  · exact start_lt_of_mem_occurrences hfound
  · exact start_lt_of_mem_occurrences hfound
  · exact start_lt_of_mem_occurrences hfound

end Outline

end FactoryIndex
