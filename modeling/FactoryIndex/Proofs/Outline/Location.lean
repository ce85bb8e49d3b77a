import FactoryIndex.Outline.Parse

/-!
# Where the definitions of an outline come from

Whatever a text defines is located in the file that the text was read from. To give a factory its traits
changes nothing else about it, so that all but the traits of a factory can be read off its header.
-/

namespace FactoryIndex.Outline

open Pattern Text

/-- What a mode finds out about nesting in a masked text: factories that are cut at the next header do not nest. -/
def findingsIn : BlockMode → (masked : List Char) → List Finding
  | .scanner, masked => Nesting.findings {} (blockEvents masked)
  | .regex, _ => []

/-- Linking changes nothing that does not depend on the traits of a factory. -/
theorem map_linkTraits {β : Type} {view : Factory → β}
    (hview : ∀ factory t, view (factory.addTrait t) = view factory) (traits : List Trait)
    (factories : List Factory) : (linkTraits traits factories).map view = factories.map view := by
  induction factories with
  | nil => rfl
  | cons factory rest ih =>
      rw [linkTraits, List.map_cons, List.map_cons, ih, OrderedMap.view_foldl view hview]

/-- All but the traits of the factories of a text is read off their headers. -/
theorem map_parse {β : Type} {view : Factory → β} (hview : ∀ factory t, view (factory.addTrait t) = view factory)
    (mode : BlockMode) (text : List Char) (file : RawText) :
    (parse mode text file).factories.map view = (factoryHeaders (mask text)).map fun found =>
      view (headerFactory (LineIndex.ofText text) file (findingsIn mode (mask text)) found) := by
  cases mode with
  | scanner =>
      simp only [parse]
      rw [map_linkTraits hview, List.map_map]
      rfl
  | regex =>
      simp only [parse]
      rw [map_linkTraits hview, List.map_map]
      rfl

/-- A factory of a text has a header, off which all but its traits is read. -/
theorem exists_of_mem_parse {β : Type} (view : Factory → β)
    (hview : ∀ factory t, view (factory.addTrait t) = view factory) {mode : BlockMode} {text : List Char}
    {file : RawText} {factory : Factory} (hmem : factory ∈ (parse mode text file).factories) :
    ∃ found ∈ factoryHeaders (mask text),
      view factory = view (headerFactory (LineIndex.ofText text) file (findingsIn mode (mask text)) found) := by
  have hmap := List.mem_map_of_mem (f := view) hmem
  rw [map_parse hview] at hmap
  obtain ⟨found, hfound, heq⟩ := List.mem_map.1 hmap
  exact ⟨found, hfound, heq.symm⟩

theorem exists_mem_parse {β : Type} (view : Factory → β)
    (hview : ∀ factory t, view (factory.addTrait t) = view factory) (mode : BlockMode) {text : List Char}
    (file : RawText) {found : Found FactoryHeader} (hmem : found ∈ factoryHeaders (mask text)) :
    ∃ factory ∈ (parse mode text file).factories,
      view factory = view (headerFactory (LineIndex.ofText text) file (findingsIn mode (mask text)) found) := by
  have hmap := List.mem_map_of_mem (f := fun found =>
    view (headerFactory (LineIndex.ofText text) file (findingsIn mode (mask text)) found)) hmem
  rw [← map_parse hview] at hmap
  exact List.mem_map.1 hmap

theorem file_of_mem_factories_parse {mode : BlockMode} {text : List Char} {file : RawText} {factory : Factory}
    (hmem : factory ∈ (parse mode text file).factories) : factory.location.file = file := by
  obtain ⟨found, -, heq⟩ := exists_of_mem_parse (fun factory => factory.location.file) (fun _ _ => rfl) hmem
  exact heq

theorem file_of_mem_scannedTraits {index : LineIndex} {file : RawText} {findings : List Finding} {t : Trait}
    (hmem : t ∈ scannedTraits index file findings) : t.location.file = file := by
  obtain ⟨finding, -, hfinding⟩ := List.mem_filterMap.1 hmem
  cases finding with
  | nested offset outer => cases hfinding
  | trait offset name length factory =>
      cases hfinding
      rfl

theorem file_of_mem_cutTraits {index : LineIndex} {file : RawText} {masked : List Char} {t : Trait}
    (hmem : t ∈ cutTraits index file masked) : t.location.file = file := by
  obtain ⟨body, -, hbody⟩ := List.mem_flatMap.1 hmem
  obtain ⟨found, -, rfl⟩ := List.mem_map.1 hbody
  rfl

theorem file_of_mem_traits_parse {mode : BlockMode} {text : List Char} {file : RawText} {t : Trait}
    (hmem : t ∈ (parse mode text file).traits) : t.location.file = file := by
  cases mode with
  | scanner => exact file_of_mem_scannedTraits hmem
  | regex => exact file_of_mem_cutTraits hmem

end FactoryIndex.Outline
