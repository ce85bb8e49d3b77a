import FactoryIndex.Proofs.Outline.Linking
import FactoryIndex.Proofs.Outline.Parse
import FactoryIndex.Proofs.Session.Incremental

/-!
# The traits of a factory, in the factory and in the store

A factory holds the traits that its own file gives to it, the last one of each name. The store holds traits too, the
first one of each key among all files. So a pass may leave the two with different traits of one name. But the
file of a stored factory comes before all other files that define the factory, and the scanner gives traits to factories
of the same file only. The trait in the store is therefore from the file of the factory, and where this file has only
one trait of its name, it is the one that the factory holds.
-/

namespace FactoryIndex

/-! ### What the files of a source define -/

section Outlines

variable {source : Source} {mode : BlockMode} {file : RawText} {factory : Factory}

theorem Source.outline_eq (source : Source) (mode : BlockMode) (file : RawText) :
    (∃ text, source.outline mode file = Outline.parse mode text file) ∨ source.outline mode file = {} := by
  unfold outline
  split
  · next text _ => exact Or.inl ⟨text, rfl⟩
  · exact Or.inr rfl

theorem Source.isNameChar_of_mem_factories (hmem : factory ∈ (source.outline mode file).factories) :
    ∀ c ∈ factory.name.toList, Text.isNameChar c = true := by
  rcases source.outline_eq mode file with ⟨text, houtline⟩ | houtline
  · have hname := List.mem_map_of_mem (f := Factory.name) hmem
    rw [houtline, Outline.map_name_parse] at hname
    exact Outline.isNameChar_of_mem_factoryNames hname
  · rw [houtline] at hmem
    cases hmem

theorem Source.get?_of_mem_factories (hmem : factory ∈ (source.outline mode file).factories)
    (honce : (source.outline mode file).DefinesOnce factory.name) (name : String) :
    factory.traits.get? name = ((source.outline mode file).traitsOf factory.name name).getLast? := by
  rcases source.outline_eq mode file with ⟨text, houtline⟩ | houtline
  · rw [houtline] at hmem honce ⊢
    exact Outline.get?_of_mem_parse hmem honce name
  · rw [houtline] at hmem
    cases hmem

theorem Source.find?_key_outline {owner : String} (howner : ∀ c ∈ owner.toList, Text.isNameChar c = true)
    (source : Source) (mode : BlockMode) (file : RawText) (name : String) :
    (source.outline mode file).traits.find? (fun t => t.key = traitKey owner name) =
      ((source.outline mode file).traitsOf owner name).head? := by
  rcases source.outline_eq mode file with ⟨text, houtline⟩ | houtline
  · rw [houtline]
    exact Outline.find?_key_parse howner name
  · rw [houtline]
    rfl

/-- Whichever of the files gives a factory a trait of some name defines the factory, too. -/
def Source.DefinesOwner (source : Source) (mode : BlockMode) (files : List RawText) (owner name : String) : Prop :=
  ∀ file ∈ files, (source.outline mode file).traitsOf owner name ≠ [] →
    ∃ factory ∈ (source.outline mode file).factories, factory.name = owner

theorem Source.definesOwner_scanner (source : Source) (files : List RawText) (owner name : String) :
    source.DefinesOwner .scanner files owner name := by
  intro file _ hne
  obtain ⟨t, ht⟩ := List.exists_mem_of_ne_nil _ hne
  obtain ⟨hmem, rfl, -⟩ := Outline.mem_traitsOf.1 ht
  rcases source.outline_eq .scanner file with ⟨text, houtline⟩ | houtline
  · rw [houtline] at hmem ⊢
    have hdefined := Outline.factory_mem_factoryNames hmem
    rw [← Outline.map_name_parse .scanner text file] at hdefined
    exact List.mem_map.1 hdefined
  · rw [houtline] at hmem
    cases hmem

end Outlines

namespace Session

/-! ### What comes first in a pass -/

section Leads

variable {α : Type}

/-- A definition leads its key: it is the first one of the key in its file, and no file of a lower rank defines
the key. -/
def Leads (rank : RawText → Nat) (files : List RawText) (definitions : RawText → List α) (keyOf : α → String)
    (key : String) (value : α) : Prop :=
  ∃ file ∈ files, (definitions file).find? (fun other => keyOf other = key) = some value ∧
    ∀ other ∈ files, (∃ rival ∈ definitions other, keyOf rival = key) → rank file ≤ rank other

/-- The first definition of a key among all that are filed leads the key. -/
theorem leads_of_find?_byRank {source : Source} {mode : BlockMode} {files ranked : List RawText}
    {completed : List FileRead} (hreads : ∀ read, read ∈ completed ↔
      ∃ file ∈ files, read = ⟨file, source.delay file, source.read file⟩)
    {definitions : Outline → List α} {fileOf : α → RawText}
    (hfileOf : ∀ read, ∀ value ∈ definitions (Outline.isolated mode read).1, fileOf value = read.file)
    {keyOf : α → String} {key : String} {value : α}
    (hfind : (byRank ranked fileOf (completed.flatMap fun read => definitions (Outline.isolated mode read).1)).find?
      (fun other => keyOf other = key) = some value) :
    Leads (rankAmong ranked) files (fun file => definitions (source.outline mode file)) keyOf
      key value := by
  obtain ⟨read, hread, hfirst, hleast⟩ := find?_byRank hfileOf hfind
  obtain ⟨file, hfile, rfl⟩ := (hreads read).1 hread
  rw [outline_isolated_read] at hfirst
  refine ⟨file, hfile, hfirst, fun other hother ⟨rival, hrival, hkey⟩ => ?_⟩
  refine hleast _ ((hreads _).2 ⟨other, hother, rfl⟩) ⟨rival, ?_, decide_eq_true hkey⟩
  rwa [outline_isolated_read]

end Leads

/-- A session holds the definitions that lead their keys, and none of its traits expires at one of the moments. -/
structure HoldsLeading (source : Source) (mode : BlockMode) (files : List RawText) (moments : Nat → Moment)
    (rank : RawText → Nat) (session : Session) : Prop where
  rank_injOn : ∀ a ∈ files, ∀ b ∈ files, rank a = rank b → a = b
  factories : ∀ name factory, session.store.factories.peek? name = some factory →
    Leads rank files (fun file => (source.outline mode file).factories) Factory.name name factory
  traits : ∀ key t, session.store.traits.peek? key = some t →
    Leads rank files (fun file => (source.outline mode file).traits) Trait.key key t
  traits_isSome : ∀ file ∈ files, ∀ t ∈ (source.outline mode file).traits,
    (session.store.traits.peek? t.key).isSome = true
  traits_fresh : ∀ n, session.store.traits.Fresh (moments n).clock.monotonic

theorem mem_completed_iff {source : Source} {listed sorted : List RawText} (hsorted : sorted.Perm listed)
    {completed : List FileRead} (hcompleted : completed.Perm (source.reads sorted)) (read : FileRead) :
    read ∈ completed ↔
      ∃ file ∈ listed, read = ⟨file, source.delay file, source.read file⟩ := by
  rw [hcompleted.mem_iff, Source.reads, List.mem_map]
  simp only [hsorted.mem_iff, eq_comm]

theorem Passes.holdsLeading {source : Source} {moments : Nat → Moment} {session after : Session}
    {listed : List RawText} (hpass : Passes source moments session after)
    (hlisted : source.list session.settings.factoryPaths = .ok listed) :
    ∃ rank, HoldsLeading source session.services.blockMode listed moments rank after := by
  obtain ⟨houtlives, sorted, completed, hfiles, hcompletes, rfl⟩ := hpass
  obtain ⟨-, hstore⟩ := passOnce_of_ok hfiles hcompletes.perm moments
  obtain ⟨listed', hlisted', hsorted⟩ := filesToIndex_eq_ok hfiles
  obtain rfl : listed = listed' := Except.ok.inj (hlisted.symm.trans hlisted')
  have hperm := perm_of_sortByPriority hsorted
  have hreads := mem_completed_iff hperm hcompletes.perm
  rw [Outline.factories_ofCompleted, Outline.traits_ofCompleted] at hstore
  refine ⟨rankAmong sorted, ?_, ?_, ?_, ?_, ?_⟩
  · intro a ha b hb heq
    exact rankAmong_injOn (hperm.mem_iff.2 ha) (hperm.mem_iff.2 hb) heq
  · intro name factory hpeek
    rw [hstore] at hpeek
    exact leads_of_find?_byRank hreads (fun _ _ hmem => Outline.file_of_mem_factories_isolated hmem)
      ((Store.peek?_factories_fill houtlives _ _ name).symm.trans hpeek)
  · intro key t hpeek
    rw [hstore] at hpeek
    exact leads_of_find?_byRank hreads (fun _ _ hmem => Outline.file_of_mem_traits_isolated hmem)
      ((Store.peek?_traits_fill houtlives _ _ key).symm.trans hpeek)
  · intro file hfile t ht
    rw [hstore]
    refine (congrArg Option.isSome (Store.peek?_traits_fill houtlives _ _ t.key)).trans
      (List.find?_isSome.2 ⟨t, ?_, decide_eq_true rfl⟩)
    refine List.mem_mergeSort.2 (List.mem_flatMap.2 ⟨_, (hreads _).2 ⟨file, hfile, rfl⟩, ?_⟩)
    rwa [outline_isolated_read]
  · intro n
    rw [hstore]
    exact Store.fresh_traits_fill houtlives _ _ n

/-! ### A new session -/

theorem fields_of_create {settings : Settings} {notifier : Notifier} {patterns : List RawText} {session : Session}
    (hcreate : create settings notifier patterns = .ok session) :
    session.settings = settings ∧ session.services = .ofSettings settings ∧ session.pass = none ∧
      ∀ moment : Moment, session.store.Outlives fun _ => moment := by
  simp only [create, Store.create, Value.toInt] at hcreate
  split at hcreate
  · cases hcreate
    have hpos := Store.boundedTtl_pos settings.cacheTimeoutMs
    exact ⟨rfl, rfl, rfl, .const hpos.le hpos.le⟩
  · cases hcreate

/-- Without markers, a new session can index whatever files can be listed, in the order in which they are listed. -/
theorem exists_holds_of_create {settings : Settings} {notifier : Notifier} {patterns : List RawText} {session : Session}
    (hcreate : create settings notifier patterns = .ok session) (hmarkers : settings.priorityOrder = [])
    {source : Source} (hsource : source.ListsInOrder) {listed : List RawText}
    (hlisted : source.list settings.factoryPaths = .ok listed) (moment : Moment) :
    ∃ after, Passes source (fun _ => moment) session after ∧
      Holds (source.outline settings.blockMode) listed after := by
  obtain ⟨hsettings, hservices, hnone, houtlives⟩ := fields_of_create hcreate
  rw [← hsettings] at hmarkers hlisted
  have hfiles : filesToIndex source session.settings = .ok listed := by
    rw [filesToIndex, hlisted, hmarkers]
    exact sortByPriority_nil listed
  have hpass := passes_index hfiles hnone moment (houtlives moment)
  obtain ⟨files, hsorted, hholds⟩ := hpass.holds hsource hlisted
  rw [hmarkers, sortByPriority_nil] at hsorted
  rw [hservices, ← Except.ok.inj hsorted] at hholds
  exact ⟨_, hpass, hholds⟩

theorem Holds.allFactories_eq {outlineOf : RawText → Outline} {files : List RawText} {session : Session}
    (h : Holds outlineOf files session) :
    session.store.allFactories = firsts Factory.name (files.flatMap fun file => (outlineOf file).factories) := by
  rw [Store.allFactories, h.factories, List.map_map]
  exact List.map_id _

/-! ### Agreement -/

section Agreement

variable {source : Source} {mode : BlockMode} {files : List RawText} {moments : Nat → Moment} {rank : RawText → Nat}
  {session : Session} {factory : Factory} {file : RawText} {t : Trait}

theorem HoldsLeading.trait?_eq (h : HoldsLeading source mode files moments rank session) (n : Nat)
    (owner name : String) :
    session.store.trait? (moments n).clock owner name = session.store.traits.peek? (traitKey owner name) :=
  ExpiringMap.live?_of_fresh (h.traits_fresh n) _

theorem HoldsLeading.factory_leads (h : HoldsLeading source mode files moments rank session)
    (hcached : factory ∈ session.store.allFactories) (hfile : factory.location.file = file) :
    file ∈ files ∧ factory ∈ (source.outline mode file).factories ∧
      ∀ other ∈ files, (∃ rival ∈ (source.outline mode other).factories, rival.name = factory.name) →
        rank file ≤ rank other := by
  obtain ⟨⟨name, _⟩, hitem, rfl⟩ := List.mem_map.1 hcached
  obtain ⟨file', hfile', hfind, hleast⟩ := h.factories name _ ((ExpiringMap.mem_items _ _ _).1 hitem)
  have hmem := List.mem_of_find?_eq_some hfind
  have hname := List.find?_some hfind
  rw [← of_decide_eq_true hname] at hleast
  obtain rfl : file' = file := (Source.file_of_mem_factories hmem).symm.trans hfile
  exact ⟨hfile', hmem, hleast⟩

/-- If every file with such a trait defines the factory, the store has the first one that the factory's file gives
to it. -/
theorem HoldsLeading.trait_eq_head? (h : HoldsLeading source mode files moments rank session)
    (hcached : factory ∈ session.store.allFactories) (hfile : factory.location.file = file)
    (ht : t ∈ (source.outline mode file).traits) (howner : t.factory = factory.name)
    (hdefines : source.DefinesOwner mode files factory.name t.name) :
    session.store.traits.peek? (traitKey factory.name t.name) =
      ((source.outline mode file).traitsOf factory.name t.name).head? := by
  obtain ⟨hlisted, hmem, hleast⟩ := h.factory_leads hcached hfile
  have hkey : t.key = traitKey factory.name t.name := by rw [Trait.key, howner]
  obtain ⟨found, hfound⟩ := Option.isSome_iff_exists.1 (hkey ▸ h.traits_isSome file hlisted t ht)
  obtain ⟨other, hother, hfirst, hleast'⟩ := h.traits _ _ hfound
  rw [Source.find?_key_outline (Source.isNameChar_of_mem_factories hmem)] at hfirst
  -- The file of the trait that is found defines the factory, so it cannot come before the factory's own file.
  have hge : rank file ≤ rank other := by
    apply hleast other hother
    apply hdefines other hother
    intro hnil
    rw [hnil] at hfirst
    cases hfirst
  have hle : rank other ≤ rank file := hleast' file hlisted ⟨t, ht, hkey⟩
  obtain rfl : other = file := h.rank_injOn other hother file hlisted (Nat.le_antisymm hle hge)
  rw [hfound, hfirst]

end Agreement

/-- **A factory and the store agree on a trait that its file gives to it once.** For each trait that the file of a
stored factory gives to the factory, the store has one of its name. That one is the first which the file gives to the
factory, unless another file gives the factory such a trait without defining it, which does not happen with the
scanner. A factory that its file defines once holds the last trait of each name which the file gives to it, and
nothing else. So both hold the same trait where the file gives the factory only one of its name. -/
theorem pass_traits_agree {source : Source} {moments : Nat → Moment} {session after : Session}
    {listed : List RawText} (hpass : Passes source moments session after)
    (hlisted : source.list session.settings.factoryPaths = .ok listed) {factory : Factory} {file : RawText}
    (hcached : factory ∈ after.store.allFactories) (hfile : factory.location.file = file) {t : Trait}
    (ht : t ∈ (source.outline session.services.blockMode file).traits) (howner : t.factory = factory.name) :
    let mode := session.services.blockMode
    let outline := source.outline mode file
    (∀ n, (after.store.trait? (moments n).clock factory.name t.name).isSome = true) ∧
      (mode = .scanner ∨ source.DefinesOwner mode listed factory.name t.name →
        ∀ n, after.store.trait? (moments n).clock factory.name t.name =
          (outline.traitsOf factory.name t.name).head?) ∧
      (outline.DefinesOnce factory.name → factory.traits.contains t.name = true ∧
        ∀ name, factory.traits.get? name = (outline.traitsOf factory.name name).getLast?) ∧
      (mode = .scanner ∨ source.DefinesOwner mode listed factory.name t.name →
        outline.DefinesOnce factory.name → outline.traitsOf factory.name t.name = [t] →
          factory.traits.get? t.name = some t ∧
            ∀ n, after.store.trait? (moments n).clock factory.name t.name = some t) := by
  intro mode outline
  obtain ⟨rank, hholds⟩ := hpass.holdsLeading hlisted
  obtain ⟨hmem, hdefined, -⟩ := hholds.factory_leads hcached hfile
  have hfirst : mode = .scanner ∨ source.DefinesOwner mode listed factory.name t.name →
      ∀ n, after.store.trait? (moments n).clock factory.name t.name =
        (outline.traitsOf factory.name t.name).head? := by
    intro hdefines n
    rw [hholds.trait?_eq]
    apply hholds.trait_eq_head? hcached hfile ht howner
    rcases hdefines with hscanner | hdefines
    · show source.DefinesOwner mode listed factory.name t.name
      rw [hscanner]
      exact source.definesOwner_scanner listed factory.name t.name
    · exact hdefines
  have hlast : outline.DefinesOnce factory.name →
      ∀ name, factory.traits.get? name = (outline.traitsOf factory.name name).getLast? :=
    Source.get?_of_mem_factories hdefined
  refine ⟨fun n => ?_, hfirst, fun honce => ⟨?_, hlast honce⟩, fun hdefines honce hsingle => ⟨?_, fun n => ?_⟩⟩
  · rw [hholds.trait?_eq, ← howner]
    exact hholds.traits_isSome file hmem t ht
  · rw [OrderedMap.contains, hlast honce, List.getLast?_isSome]
    exact List.ne_nil_of_mem (Outline.mem_traitsOf.2 ⟨ht, howner, rfl⟩)
  · rw [hlast honce, hsingle]
    rfl
  · rw [hfirst hdefines, hsingle]
    rfl

/-- A factory with one trait is stored, and so is its trait. -/
theorem pass_traits_agree_single :
    let source : Source :=
      { list := fun _ => .ok ["f.rb"], modified := fun _ => .ok 0,
        read := fun _ => .ok "factory :u do\n\ttrait :v do\n\tend\nend".toList }
    let settings := { Settings.default with priorityOrder := [] }
    ∃ session moments after, create settings {} [] = .ok session ∧ Passes source moments session after ∧
      ∃ factory ∈ after.store.allFactories, ∃ t, factory.traits.get? "v" = some t ∧
        (∀ n, after.store.trait? (moments n).clock "u" "v" = some t) ∧ t.location = ⟨"f.rb", 1, some 1, some 8⟩ := by
  intro source settings
  let moment : Moment := ⟨⟨0, 0⟩, by decide +kernel, by decide +kernel⟩
  let t : Trait := ⟨"v", ⟨"f.rb", 1, some 1, some 8⟩, "u"⟩
  let factory : Factory := Factory.addTrait { name := "u", location := ⟨"f.rb", 0, some 0, some 10⟩ } t
  have houtline : source.outline .scanner "f.rb" = ⟨[factory], [t]⟩ := by
    let user : Outline.Name := ⟨['u'], by decide, List.all_eq_true.1 rfl⟩
    let active : Outline.Name := ⟨['v'], by decide, List.all_eq_true.1 rfl⟩
    let left : Outline.Indent := ⟨[], List.all_eq_true.1 rfl⟩
    let right : Outline.Indent := ⟨['\t'], List.all_eq_true.1 rfl⟩
    let forest : Outline.Forest :=
      .node left (.factory user) (.node right (.trait active) .nil right .nil) left .nil
    have htext : "factory :u do\n\ttrait :v do\n\tend\nend".toList = forest.text := by decide
    show Outline.parse .scanner "factory :u do\n\ttrait :v do\n\tend\nend".toList (.plain "f.rb") = _
    rw [htext]
    exact forest.parse_text (.plain "f.rb")
  have hstore : Store.create (.int 60000) = .ok (.empty 60000) := by rfl
  have hcreate : create settings {} [] = .ok _ := congrArg (Except.map _) hstore
  have hsource : source.ListsInOrder := by
    intro globs listed hlisted
    cases hlisted
    exact List.pairwise_singleton _ _
  obtain ⟨after, hpass, hholds⟩ := exists_holds_of_create hcreate rfl hsource rfl moment
  have hcached : factory ∈ after.store.allFactories := by
    have hmem : factory ∈ firsts Factory.name (source.outline .scanner "f.rb").factories := by
      rw [houtline]
      exact List.mem_singleton_self factory
    rw [hholds.allFactories_eq, List.flatMap_singleton]
    exact hmem
  have hgiven : t ∈ (source.outline .scanner "f.rb").traits := by
    rw [houtline]
    exact List.mem_singleton_self t
  have honce : (source.outline .scanner "f.rb").DefinesOnce factory.name := by
    rw [houtline]
    rfl
  have hsingle : (source.outline .scanner "f.rb").traitsOf factory.name t.name = [t] := by
    rw [houtline]
    rfl
  obtain ⟨hown, hstored⟩ := (pass_traits_agree hpass rfl hcached rfl hgiven rfl).2.2.2 (Or.inl rfl) honce hsingle
  exact ⟨_, _, after, hcreate, hpass, factory, hcached, t, hown, hstored, rfl⟩

/-! ### Disagreement -/

/-- Every stored factory has the traits that its file gives to it, and the store has them at the same places. -/
def TraitsAgree (source : Source) (mode : BlockMode) (moments : Nat → Moment) (session : Session) : Prop :=
  ∀ factory ∈ session.store.allFactories, ∀ file, factory.location.file = file →
    ∀ t ∈ (source.outline mode file).traits, t.factory = factory.name →
      ∀ n, ∃ own found, factory.traits.get? t.name = some own ∧
        session.store.trait? (moments n).clock factory.name t.name = some found ∧ own.location = found.location

/-- Some factory that is the first of its name lacks a trait of its file, or has one of its name at another place than
the first trait of the same key. -/
def Misplaced (factories : List Factory) (traits : List Trait) : Prop :=
  ∃ factory ∈ firsts Factory.name factories, ∃ t ∈ traits,
    t.factory = factory.name ∧ t.location.file = factory.location.file ∧
      (factory.traits.get? t.name).map Trait.location ≠
        (traits.find? fun other => other.key = t.key).map Trait.location

theorem Holds.not_traitsAgree {source : Source} {mode : BlockMode} {files : List RawText} {session : Session}
    (hholds : Holds (source.outline mode) files session)
    (hmisplaced : Misplaced (files.flatMap fun file => (source.outline mode file).factories)
      (files.flatMap fun file => (source.outline mode file).traits)) (moments : Nat → Moment) :
    ¬TraitsAgree source mode moments session := by
  intro hagree
  obtain ⟨factory, hfactory, t, ht, howner, hsame, hdiffers⟩ := hmisplaced
  rw [← hholds.allFactories_eq] at hfactory
  obtain ⟨file, -, ht⟩ := List.mem_flatMap.1 ht
  have hfile := hsame.symm.trans (Source.file_of_mem_traits ht)
  obtain ⟨own, found, hown, hfound, hlocation⟩ := hagree factory hfactory file hfile t ht howner 0
  have hpeek : session.store.traits.peek? t.key = some found := by
    rw [Store.trait?, ExpiringMap.live?, ← howner] at hfound
    split at hfound
    · cases hfound
    · exact hfound
  rw [ExpiringMap.peek?_of_items_eq_firsts hholds.traits] at hpeek
  apply hdiffers
  rw [hown, hpeek, Option.map_some, Option.map_some, hlocation]

/-- Where a file defines a factory twice, the first definition is stored, but the last one is linked. Where a file
gives a factory two traits of one name, the first one is stored, but the last one is linked. And where factories are cut
at the next header, a file may give a trait to a factory that another file defines. -/
theorem traits_disagree_repeated :
    let source (a b : List Char) : Source :=
      { list := fun _ => .ok ["a", "b"], modified := fun _ => .ok 0,
        read := fun file => .ok (if file = "a" then a else b) }
    let settings (mode : BlockMode) := { Settings.default with priorityOrder := [], blockMode := mode }
    let disagree (mode : BlockMode) (a b : String) := ∃ session moments after,
      create (settings mode) {} [] = .ok session ∧ Passes (source a.toList b.toList) moments session after ∧
        ¬TraitsAgree (source a.toList b.toList) mode moments after
    disagree .scanner "factory :u do\n\ttrait :v do\n\tend\nend\nfactory :u do\nend" "" ∧
      disagree .scanner "factory :u do\n\ttrait :v do\n\tend\n\ttrait :v do\n\tend\nend" "" ∧
      disagree .regex "factory :t,\nfactory :u, parent: :s do\n\ttrait :v do\n\tend\nend"
        "factory :u do\n\ttrait :v do\n\tend\nend" := by
  intro source settings disagree
  let moment : Moment := ⟨⟨0, 0⟩, by decide +kernel, by decide +kernel⟩
  have hstore : Store.create (.int 60000) = .ok (.empty 60000) := by rfl
  have hcreate (mode : BlockMode) : create (settings mode) {} [] = .ok _ := congrArg (Except.map _) hstore
  have hsource (a b : List Char) : (source a b).ListsInOrder := by
    intro globs listed hlisted
    cases hlisted
    simp only [List.pairwise_cons, List.mem_singleton, forall_eq, List.not_mem_nil, false_imp_iff, implies_true,
      List.Pairwise.nil, and_true]
    decide
  have hdisagree {mode : BlockMode} {a b : String} {a' b' : Outline}
      (ha : Outline.parse mode a.toList "a" = a') (hb : Outline.parse mode b.toList "b" = b')
      (hmisplaced : Misplaced (a'.factories ++ b'.factories) (a'.traits ++ b'.traits)) : disagree mode a b := by
    obtain ⟨after, hpass, hholds⟩ :=
      exists_holds_of_create (hcreate mode) rfl (hsource a.toList b.toList) rfl moment
    refine ⟨_, _, after, hcreate mode, hpass, hholds.not_traitsAgree ?_ _⟩
    subst ha hb
    simp only [List.flatMap_cons, List.flatMap_nil, List.append_nil]
    exact hmisplaced
  let user : Outline.Name := ⟨['u'], by decide, List.all_eq_true.1 rfl⟩
  let active : Outline.Name := ⟨['v'], by decide, List.all_eq_true.1 rfl⟩
  let left : Outline.Indent := ⟨[], List.all_eq_true.1 rfl⟩
  let right : Outline.Indent := ⟨['\t'], List.all_eq_true.1 rfl⟩
  let factory (body rest : Outline.Forest) : Outline.Forest := .node left (.factory user) body left rest
  let trait (rest : Outline.Forest) : Outline.Forest := .node right (.trait active) .nil right rest
  have hempty := Outline.Forest.nil.parse_text (.plain "b")
  refine ⟨?_, ?_, ?_⟩
  · refine hdisagree ((factory (trait .nil) (factory .nil .nil)).parse_text (.plain "a")) hempty ?_
    unfold Misplaced
    decide +kernel
  · refine hdisagree ((factory (trait (trait .nil)) .nil).parse_text (.plain "a")) hempty ?_
    unfold Misplaced
    decide +kernel
  · refine hdisagree rfl rfl ?_
    unfold Misplaced
    decide +kernel

end Session

end FactoryIndex
