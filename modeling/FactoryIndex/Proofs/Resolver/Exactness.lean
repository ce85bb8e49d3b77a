import FactoryIndex.Proofs.Pattern.Call
import FactoryIndex.Resolver
import Mathlib.Data.List.Basic

/-!
# The references of a text

A text has the references of its call sites, one call site after the other, and nothing else. What counts as a call
site is said by the backtracking search of `backtrackingCall?`, and the further symbols of a call are looked up in the
piece of text that the search has taken for their list. The search may leave out the last symbols of a list, but never
a part of one: each reference stands for a whole symbol.
-/

namespace FactoryIndex

open Pattern Text

namespace Pattern

/-! ### The call sites of a text -/

theorem occurrencesFrom_map {α β : Type} {recognise : Recogniser α} {recognise' : Recogniser β} {f : α → β}
    (h : ∀ before text, recognise' before text = (recognise before text).map fun hit => ⟨hit.length, f hit.parts⟩)
    (skip offset : Nat) (before : Option Char) (text : List Char) :
    occurrencesFrom recognise' skip offset before text =
      (occurrencesFrom recognise skip offset before text).map
        fun found => ⟨found.start, found.length, f found.parts⟩ := by
  induction text generalizing skip offset before with
  | nil => rfl
  | cons c rest ih =>
      cases skip with
      | succ skip => exact ih skip (offset + 1) (some c)
      | zero =>
          rw [occurrencesFrom, occurrencesFrom, h]
          cases recognise before (c :: rest) with
          | none => exact ih 0 (offset + 1) (some c)
          | some hit => exact congrArg _ (ih _ (offset + 1) (some c))

theorem CallPattern.calls_eq {pattern : CallPattern} (hvalid : ∀ method ∈ pattern.methods, isValidName method = true)
    (text : List Char) :
    pattern.calls text = (occurrences (backtrackingCall? pattern.methods) text).map fun found =>
      ⟨found.start, found.length, found.parts.site⟩ :=
  occurrencesFrom_map (CallPattern.call?_eq hvalid) 0 0 none text

/-- A symbol in a text, from its colon to the end of its name, which is not the beginning of a longer name. -/
structure SymbolAt (text : List Char) (start stop : Nat) (name : List Char) : Prop where
  split : ∃ left right, text = left ++ ':' :: (name ++ right) ∧ left.length = start ∧
    Option.any isNameChar right.head? = false
  stop_eq : stop = start + 1 + name.length
  ne_nil : name ≠ []
  isNameChar_of_mem : ∀ c ∈ name, isNameChar c = true

theorem symbolAt_of_mem_symbols {text : List Char} {found : Found Symbol} (hmem : found ∈ symbols text) :
    SymbolAt text found.start found.stop found.parts.name := by
  obtain ⟨left, right, rfl, -, hstart, hsome⟩ := occurs_of_mem_occurrences hmem
  obtain ⟨⟨symbol, rest⟩, hsymbol, heq⟩ := Option.map_eq_some_iff.1 hsome
  obtain ⟨hlength, hparts⟩ := Hit.mk.inj heq
  obtain ⟨rfl, hone, hne, hname⟩ := symbol?_eq_some hsymbol
  rw [← hparts]
  refine ⟨⟨left, rest, rfl, by omega, ?_⟩, ?_, hne, hname⟩
  · exact any_head?_of_symbol? hsymbol
  · rw [Found.stop, ← hlength, Symbol.stop, hone]
    omega

theorem SymbolAt.stop_le {text : List Char} {start stop : Nat} {name : List Char} (h : SymbolAt text start stop name) :
    stop ≤ text.length := by
  obtain ⟨⟨left, right, rfl, rfl, -⟩, rfl, -⟩ := h
  simp only [List.length_append, List.length_cons]
  omega

/-- A symbol of a piece is one of the whole text, if its name does not go on behind the piece. -/
theorem SymbolAt.append {text : List Char} {start stop : Nat} {name : List Char} (h : SymbolAt text start stop name)
    (front : List Char) {back : List Char} (hback : Option.any isNameChar back.head? = false) :
    SymbolAt (front ++ (text ++ back)) (front.length + start) (front.length + stop) name := by
  obtain ⟨⟨left, right, rfl, rfl, hright⟩, hstop, hne, hname⟩ := h
  refine ⟨⟨front ++ left, right ++ back, ?_, List.length_append, ?_⟩, by omega, hne, hname⟩
  · simp only [List.append_assoc, List.cons_append]
  · cases right with
    | nil => exact hback
    | cons c right => exact hright

end Pattern

namespace Resolver

variable {store : Store} {clock : Clock}

/-- The references of a call site: the factory that its first symbol names if that is live, then the live traits of that
factory that its further symbols name. -/
def siteReferences (store : Store) (clock : Clock) (index : LineIndex) (call : Found CallText) : List Reference :=
  let first := String.ofList call.parts.first
  let colon := call.start + call.parts.opening.length
  let behind := colon + 1 + call.parts.first.length
  let factory := (store.factory? clock first).map fun factory =>
    ⟨.factory, colon, behind, index.position colon, factory.location, none⟩
  let traits := (symbols call.parts.listed).filterMap fun found =>
    (store.trait? clock first (String.ofList found.parts.name)).map fun trait =>
      ⟨.trait, behind + found.start, behind + found.stop, index.position (behind + found.start), trait.location,
        some first⟩
  factory.toList ++ traits

theorem filterMap_callQuestions (store : Store) (clock : Clock) (index : LineIndex) (call : Found CallText) :
    (callQuestions ⟨call.start, call.length, call.parts.site⟩).filterMap (answer? store clock index) =
      siteReferences store clock index call := by
  rw [callQuestions, siteReferences, ← List.singleton_append, List.filterMap_append]
  congr 1
  · simp only [CallText.site, question, Symbol.stop, List.filterMap_cons, List.filterMap_nil, answer?, Store.target?,
      Option.map_map]
    have hstart : call.start + (call.parts.opening.length + 1) - 1 = call.start + call.parts.opening.length := by omega
    have hstop : call.start + (call.parts.opening.length + 1 + call.parts.first.length) =
        call.start + call.parts.opening.length + 1 + call.parts.first.length := by omega
    rw [hstart, hstop]
    cases store.factory? clock (String.ofList call.parts.first) <;> rfl
  · simp only [CallText.site, symbolsIn, List.map_map, List.filterMap_map]
    apply List.filterMap_congr
    intro found hmem
    have hstop := (symbolAt_of_mem_symbols hmem).stop_eq
    have hcolon : call.start + (call.parts.opening.length + 1 + call.parts.first.length + found.start + 1) - 1 =
        call.start + call.parts.opening.length + 1 + call.parts.first.length + found.start := by omega
    have hbehind : call.start + (call.parts.opening.length + 1 + call.parts.first.length + found.start + 1 +
          found.parts.name.length) =
        call.start + call.parts.opening.length + 1 + call.parts.first.length +
          (found.start + 1 + found.parts.name.length) := by omega
    simp only [Function.comp_apply, answer?, Store.target?, question, Option.map_map, Symbol.stop, hstop, hcolon,
      hbehind]
    rfl

/-- What is said of each reference: it stands for a whole symbol of the text, its position is that of the colon, and its
target is the live definition of that name. -/
structure Grounded (store : Store) (clock : Clock) (text : List Char) (reference : Reference) (name : List Char) :
    Prop where
  symbolAt : SymbolAt text reference.start reference.stop name
  position_eq : reference.position = (LineIndex.ofText text).position reference.start
  target_eq : match reference.kind, reference.factory with
    | .factory, none => (store.factory? clock (String.ofList name)).map Factory.location = some reference.target
    | .trait, some first => (store.trait? clock first (String.ofList name)).map Trait.location = some reference.target
    | _, _ => False

theorem references_eq {pattern : CallPattern} (hvalid : ∀ method ∈ pattern.methods, isValidName method = true)
    (store : Store) (clock : Clock) (text : List Char) :
    references store clock pattern text =
      (occurrences (backtrackingCall? pattern.methods) text).flatMap (siteReferences store clock (.ofText text)) := by
  simp only [references, questions, CallPattern.calls_eq hvalid, List.flatMap_map, List.filterMap_flatMap,
    filterMap_callQuestions]

section Site

variable {methods : List (List Char)} {text : List Char} {call : Found CallText} {reference : Reference}

/-- A reference of a call site stands for a symbol of the call. -/
theorem grounded_of_mem_siteReferences (hcall : call ∈ occurrences (backtrackingCall? methods) text)
    (hmem : reference ∈ siteReferences store clock (.ofText text) call) :
    (∃ name, Grounded store clock text reference name) ∧ call.start ≤ reference.start ∧ reference.stop ≤ call.stop := by
  obtain ⟨left, right, rfl, -, hstart, hsome⟩ := occurs_of_mem_occurrences hcall
  obtain ⟨behind, rfl, hlength, hne, hname, hfirst, hends⟩ := backtrackingCall?_eq_some hsome
  obtain ⟨start, length, opening, first, listed, ending⟩ := call
  simp only [Nat.zero_add] at hstart hlength hne hname hfirst hends
  subst hstart hlength
  rcases List.mem_append.1 hmem with hmem | hmem
  · obtain ⟨factory, hfactory, rfl⟩ := Option.map_eq_some_iff.1 (Option.mem_toList.1 hmem)
    refine ⟨⟨first, ?_, rfl, ?_⟩, ?_, ?_⟩
    · refine ⟨⟨left ++ opening, listed ++ (ending ++ behind), ?_, List.length_append, hfirst⟩, rfl, hne, hname⟩
      simp only [CallText.chars, List.append_assoc, List.cons_append]
    · show (store.factory? clock (String.ofList first)).map Factory.location = _
      rw [hfactory]
      rfl
    · exact Nat.le_add_right _ _
    · simp only [Found.stop, CallText.chars, List.length_append, List.length_cons]
      omega
  · obtain ⟨found, hfound, hanswer⟩ := List.mem_filterMap.1 hmem
    obtain ⟨trait, htrait, rfl⟩ := Option.map_eq_some_iff.1 hanswer
    have hlisted := symbolAt_of_mem_symbols hfound
    have hsymbol := hlisted.append (left ++ (opening ++ ':' :: first)) hends
    have htext : left ++ (opening ++ ':' :: first) ++ (listed ++ (ending ++ behind)) =
        left ++ ((CallText.mk opening first listed ending).chars ++ behind) := by
      simp only [CallText.chars, List.append_assoc, List.cons_append]
    have hlength : (left ++ (opening ++ ':' :: first)).length = left.length + opening.length + 1 + first.length := by
      simp only [List.length_append, List.length_cons]
      omega
    rw [htext, hlength] at hsymbol
    refine ⟨⟨found.parts.name, hsymbol, rfl, ?_⟩, ?_, ?_⟩
    · show (store.trait? clock (String.ofList first) (String.ofList found.parts.name)).map Trait.location = _
      rw [htrait]
      rfl
    · simp only
      omega
    · have hstop := hlisted.stop_le
      simp only [Found.stop, CallText.chars, List.length_append, List.length_cons] at hstop ⊢
      omega

theorem pairwise_siteReferences (store : Store) (clock : Clock) (index : LineIndex) (call : Found CallText) :
    (siteReferences store clock index call).Pairwise fun a b => a.start < b.start ∧ a.stop ≤ b.start := by
  refine List.pairwise_append.2 ⟨?_, ?_, ?_⟩
  · cases store.factory? clock (String.ofList call.parts.first) with
    | none => exact List.Pairwise.nil
    | some factory => exact List.pairwise_singleton _ _
  · refine (pairwise_occurrences symbolHere? call.parts.listed).filterMap _ fun a b hab => ?_
    intro first hfirst second hsecond
    obtain ⟨-, -, rfl⟩ := Option.map_eq_some_iff.1 hfirst
    obtain ⟨-, -, rfl⟩ := Option.map_eq_some_iff.1 hsecond
    simp only
    omega
  · intro first hfirst second hsecond
    obtain ⟨-, -, rfl⟩ := Option.map_eq_some_iff.1 (Option.mem_toList.1 hfirst)
    obtain ⟨found, -, hfound⟩ := List.mem_filterMap.1 hsecond
    obtain ⟨-, -, rfl⟩ := Option.map_eq_some_iff.1 hfound
    simp only
    omega

end Site

end Resolver

/-- **The references of a text are exact.** Under valid methods they are the references of the call sites that a
backtracking search finds, from left to right: the factory of the first symbol and the traits of the further ones, as
far as they are live. They come in the order of the text without overlapping; each one stands for a whole symbol, gives
the position of its colon, and leads to the live definition under its name. -/
theorem references_exact {methods : List Value} {pattern : CallPattern}
    (hpattern : CallPattern.ofMethods methods = .ok pattern) (store : Store) (clock : Clock) (text : List Char) :
    let references := (resolve store clock methods text).references
    references = (occurrences (backtrackingCall? pattern.methods) text).flatMap
        (Resolver.siteReferences store clock (.ofText text)) ∧
      references.Pairwise (fun a b => a.start < b.start ∧ a.stop ≤ b.start) ∧
      ∀ reference ∈ references, ∃ name, Resolver.Grounded store clock text reference name := by
  intro references
  have hexact : references = (occurrences (backtrackingCall? pattern.methods) text).flatMap
      (Resolver.siteReferences store clock (.ofText text)) := by
    show (resolve store clock methods text).references = _
    rw [resolve, hpattern]
    exact Resolver.references_eq (fun _ => CallPattern.isValidName_of_mem hpattern) store clock text
  refine ⟨hexact, ?_, ?_⟩
  · rw [hexact, List.pairwise_flatMap]
    refine ⟨fun call _ => Resolver.pairwise_siteReferences store clock _ call, ?_⟩
    -- Each reference stays inside its call, and the calls do not overlap.
    refine (pairwise_occurrences _ text).imp_of_mem fun {a b} ha hb hab first hfirst second hsecond => ?_
    obtain ⟨⟨name, hgrounded⟩, -, hstop⟩ := Resolver.grounded_of_mem_siteReferences ha hfirst
    obtain ⟨-, hstart, -⟩ := Resolver.grounded_of_mem_siteReferences hb hsecond
    have hlength := hgrounded.symbolAt.stop_eq
    omega
  · intro reference hmem
    rw [hexact] at hmem
    obtain ⟨call, hcall, hreference⟩ := List.mem_flatMap.1 hmem
    exact (Resolver.grounded_of_mem_siteReferences hcall hreference).1

/-- The last symbol of the first call is taken for an argument, since no call can end behind it, although there is a
trait of that name. The second call names a factory that is unknown and one of its traits, which is not. -/
theorem references_exact_lists :
    let trait (factory name : String) : Trait :=
      { name := name, factory := factory, location := { file := "a.rb", line := 1 } }
    let store := [trait "u" "t", trait "u" "k", trait "p" "t"].foldl (Store.upsertTrait ⟨0, 0⟩)
      ((Store.empty 60000).upsertFactory ⟨0, 0⟩ { name := "u", location := { file := "a.rb", line := 0 } })
    let text := "create(:u, :t, :k => 1)\ncreate :p, :t".toList
    let references := (resolve store ⟨0, 0⟩ [.text "create"] text).references
    references.map (fun reference => (reference.start, reference.stop, reference.factory)) =
        [(7, 9, none), (11, 13, some "u"), (35, 37, some "p")] ∧
      references.Pairwise (fun a b => a.start < b.start ∧ a.stop ≤ b.start) ∧
      ∀ reference ∈ references, ∃ name, Resolver.Grounded store ⟨0, 0⟩ text reference name := by
  intro trait store text references
  have hpattern : CallPattern.ofMethods [.text "create"] = .ok ⟨["create".toList]⟩ :=
    CallPattern.ofMethods_eq_ok_iff.2 ⟨by simp, by decide, by decide +kernel⟩
  refine ⟨?_, (references_exact hpattern store ⟨0, 0⟩ text).2⟩
  decide +kernel

end FactoryIndex
