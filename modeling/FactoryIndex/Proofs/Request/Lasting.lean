import FactoryIndex.Proofs.Request.Isolation
import FactoryIndex.Proofs.Session.Idle
import FactoryIndex.Proofs.Workspace.Listing

/-!
# How long answers last

A project is left alone: its files stay as they are, and all requests for it come with the same settings. Its index is
built once and then kept, so a text is resolved to the same references again and again, whatever else is asked in the
meantime. But all definitions of an index were written at the same moment, and the time to live that the
settings give them runs from there. As soon as it is over nothing is found any more, and that stays so until the
index is built anew; the listing of the index goes on to show what it still holds.

A `StillProject` is such a project, and `Keeps` says what its session is like at some time: it holds what the last pass
has filed, except for some of what has expired since.
-/

namespace FactoryIndex

/-! ### What there is to find -/

/-- A project that stays as it is: its name, its files, and the settings of the requests for it. -/
structure StillProject where
  name : RawText
  tree : Tree
  settings : Settings

namespace StillProject

variable (still : StillProject)

def source : Source := still.tree.source (.ofText still.name)

def files : List RawText :=
  match still.source.list still.settings.factoryPaths with
  | .error _ => []
  | .ok listed =>
      match sortByPriority listed still.settings.priorityOrder with
      | .error _ => []
      | .ok files => files

def factories : List Factory :=
  still.files.flatMap fun file => (still.source.outline still.settings.blockMode file).factories

def traits : List Trait :=
  still.files.flatMap fun file => (still.source.outline still.settings.blockMode file).traits

def ledger (clock : Clock) : Ledger := (Ledger.empty still.settings.ttl).fill clock still.factories still.traits

def target? : Lookup → Option Location
  | .factory name => (still.factories.find? fun factory => factory.name = name).map Factory.location
  | .trait factory name => (still.traits.find? fun t => t.key = traitKey factory name).map Trait.location

/-- More time than definitions have to live has passed since the index was built. -/
def lapsed (indexedAt : Option Int) (now : Int) : Bool :=
  indexedAt.any fun since => outlasts since now still.settings.ttl

theorem files_eq_nil_of_error {failure : Failure}
    (hfiles : Session.filesToIndex still.source still.settings = .error failure) : still.files = [] := by
  unfold Session.filesToIndex at hfiles
  unfold files
  split
  · rfl
  · next listed hlisted =>
    rw [hlisted] at hfiles
    split
    · rfl
    · next sorted hsorted =>
      simp only [hsorted] at hfiles
      cases hfiles

variable {still} {store : Store} {clock written : Clock}

/-- The definitions of an index expire all at once. -/
theorem target?_of_reflects (h : store.Reflects clock.monotonic (still.ledger written)) (lookup : Lookup) :
    store.target? clock lookup =
      if still.lapsed (some written.monotonic) clock.monotonic then none else still.target? lookup := by
  have hlapsed : still.lapsed (some written.monotonic) clock.monotonic =
      outlasts written.monotonic clock.monotonic still.settings.ttl := rfl
  obtain ⟨hfactories, htraits, httl⟩ :=
    Ledger.books_fill_empty still.settings.ttl_pos.le written still.factories still.traits
  cases lookup with
  | factory name =>
      have hfound : store.factory? clock name =
          if outlasts written.monotonic clock.monotonic still.settings.ttl then none
          else still.factories.find? fun factory => factory.name = name := by
        rw [h.factory?_eq, Ledger.factory?, ledger, hfactories, httl, Book.live?_ofValues]
      rw [hlapsed, Store.target?, hfound, target?]
      split <;> rfl
  | trait factory name =>
      have hfound : store.trait? clock factory name =
          if outlasts written.monotonic clock.monotonic still.settings.ttl then none
          else still.traits.find? fun t => t.key = traitKey factory name := by
        rw [h.trait?_eq, Ledger.trait?, ledger, htraits, httl, Book.live?_ofValues]
      rw [hlapsed, Store.target?, hfound, target?]
      split <;> rfl

theorem target?_of_reflects_empty {ttl : Int} (h : store.Reflects clock.monotonic (.empty ttl)) (lookup : Lookup) :
    store.target? clock lookup = none := by
  cases lookup with
  | factory name =>
      rw [Store.target?, h.factory?_eq]
      rfl
  | trait factory name =>
      rw [Store.target?, h.trait?_eq]
      rfl

end StillProject

/-! ### Resolving depends on look-ups only -/

section Resolving

variable {a b : Store} {here there : Clock}

theorem references_congr (hsame : ∀ lookup, a.target? here lookup = b.target? there lookup)
    (pattern : Pattern.CallPattern) (text : List Char) :
    Resolver.references a here pattern text = Resolver.references b there pattern text := by
  unfold Resolver.references
  apply List.filterMap_congr
  intro question _
  unfold Resolver.answer?
  rw [hsame]

theorem referencesOf_congr (hsame : ∀ lookup, a.target? here lookup = b.target? there lookup) (methods : List Value)
    (value : Value) :
    Session.referencesOf a here methods value = Session.referencesOf b there methods value := by
  by_cases hraw : ∃ text, value = .raw text
  · obtain ⟨text, rfl⟩ := hraw
    unfold Session.referencesOf resolve
    cases Pattern.CallPattern.ofMethods methods with
    | error failure => rfl
    | ok pattern => exact references_congr hsame pattern _
  · have hne : ∀ text, value ≠ .raw text := not_exists.1 hraw
    rw [Session.referencesOf_of_ne_raw hne, Session.referencesOf_of_ne_raw hne]

theorem referencesOf_eq_nil (hnone : ∀ lookup, a.target? here lookup = none) (methods : List Value) (value : Value) :
    Session.referencesOf a here methods value = [] := by
  by_cases hraw : ∃ text, value = .raw text
  · obtain ⟨text, rfl⟩ := hraw
    unfold Session.referencesOf resolve
    cases Pattern.CallPattern.ofMethods methods with
    | error failure => rfl
    | ok pattern =>
        show Resolver.references a here pattern _ = []
        rw [Resolver.references, List.filterMap_eq_nil_iff]
        intro question _
        rw [Resolver.answer?, hnone, Option.map_none]
  · exact Session.referencesOf_of_ne_raw (not_exists.1 hraw) _ _ _

theorem exists_reference_of_call {pattern : Pattern.CallPattern} {text : List Char}
    {call : Pattern.Found Pattern.CallSite} (hcall : call ∈ pattern.calls text) {target : Location}
    (htarget : a.target? here (.factory (String.ofList call.parts.first.name)) = some target) :
    ∃ reference ∈ Resolver.references a here pattern text, reference.kind = .factory ∧
      reference.start = call.start + call.parts.first.start - 1 ∧
      reference.stop = call.start + call.parts.first.stop ∧ reference.target = target := by
  let question := Resolver.question call.start call.parts.first (.factory (String.ofList call.parts.first.name))
  have hquestion : question ∈ Resolver.questions pattern text :=
    List.mem_flatMap.2 ⟨call, hcall, List.mem_cons_self⟩
  refine ⟨⟨.factory, question.start, question.stop, (Text.LineIndex.ofText text).position question.start, target,
    none⟩, ?_, rfl, rfl, rfl, rfl⟩
  refine List.mem_filterMap.2 ⟨question, hquestion, ?_⟩
  show ((a.target? here (.factory (String.ofList call.parts.first.name))).map _) = _
  rw [htarget]
  rfl

end Resolving

/-! ### The session of a still project -/

namespace StillProject

variable {still : StillProject} {now : Int} {indexedAt : Option Int} {session after : Session}

/-- The session of the project at some time, its index having been built at another one. -/
structure Keeps (still : StillProject) (now : Int) (indexedAt : Option Int) (session : Session) : Prop where
  idle : session.pass = none
  setup : session.setup = .ofSettings still.settings
  fits : fitsSeconds still.settings.ttl = true
  watch : session.watch.listeners ≠ [] → ∃ files, still.source.list still.settings.factoryPaths = .ok files ∧
    session.watch.snapshot = (Session.snapshot still.source files).1
  index : (session.store.initialized = false ∧ session.store.Reflects now (.empty still.settings.ttl)) ∨
    (session.store.initialized = true ∧ (∃ files, Session.filesToIndex still.source still.settings = .ok files) ∧
      ∃ written : Clock, indexedAt = some written.monotonic ∧ session.store.Reflects now (still.ledger written))

namespace Keeps

theorem methods_eq (h : still.Keeps now indexedAt session) : session.services.methods = still.settings.factoryMethods :=
  congrArg (fun setup => setup.services.methods) h.setup

theorem patterns_eq (h : still.Keeps now indexedAt session) : session.watch.patterns = still.settings.factoryPaths :=
  congrArg Setup.patterns h.setup

theorem later (h : still.Keeps now indexedAt session) {now' : Int} (hnow : now ≤ now') :
    still.Keeps now' indexedAt session := by
  refine { h with index := ?_ }
  rcases h.index with ⟨hinitialized, hreflects⟩ | ⟨hinitialized, hfiles, written, hat, hreflects⟩
  · exact Or.inl ⟨hinitialized, hreflects.later hnow⟩
  · exact Or.inr ⟨hinitialized, hfiles, written, hat, hreflects.later hnow⟩

/-- An operation that does nothing to the store but leave out what has expired. -/
theorem of_sameBut (h : still.Keeps now indexedAt session) {store : Store} (hsame : session.SameBut store after)
    (hsetup : after.setup = session.setup) (hinitialized : store.initialized = session.store.initialized)
    (hreflects : ∀ ledger, session.store.Reflects now ledger → store.Reflects now ledger) :
    still.Keeps now indexedAt after := by
  refine ⟨hsame.pass_eq.trans h.idle, hsetup.trans h.setup, h.fits, ?_, ?_⟩
  · rw [hsame.watch_eq]
    exact h.watch
  · rw [hsame.store_eq, hinitialized]
    rcases h.index with ⟨hnot, hempty⟩ | ⟨hdone, hfiles, written, hat, hfull⟩
    · exact Or.inl ⟨hnot, hreflects _ hempty⟩
    · exact Or.inr ⟨hdone, hfiles, written, hat, hreflects _ hfull⟩

end Keeps

/-- A pass over the files of the project leaves the ledger of its moment. -/
theorem reflects_of_passes {moment : Moment} (hsetup : session.setup = .ofSettings still.settings)
    (hpass : Session.Passes still.source (fun _ => moment) session after) :
    after.pass = none ∧ after.store.initialized = true ∧
      after.store.Reflects moment.clock.monotonic (still.ledger moment.clock) := by
  have hsettings : session.settings = still.settings := congrArg Setup.settings hsetup
  have hmode : session.services.blockMode = still.settings.blockMode :=
    congrArg (fun setup => setup.services.blockMode) hsetup
  obtain ⟨-, names, -, hnames, -⟩ := id hpass
  obtain ⟨listed, hlisted, -⟩ := Session.filesToIndex_eq_ok hnames
  obtain ⟨files, hsorted, hidle, hinitialized, hreflects⟩ := hpass.reflects still.settings.ttl_pos
    (Tree.listsInOrder_source _ _) hlisted (congrArg Setup.lifetimes hsetup)
  rw [hsettings] at hlisted hsorted
  have hfiles : still.files = files := by
    simp only [StillProject.files, hlisted, hsorted]
  rw [hmode, ← hfiles] at hreflects
  exact ⟨hidle, hinitialized, hreflects⟩

/-! ### What happens to it -/

/-- Something that happens to the session at a time: the index is built anew, or stays as old as it was. -/
def Leads (still : StillProject) (now : Int) (session after : Session) : Prop :=
  ∀ indexedAt, still.Keeps now indexedAt session →
    (after.runs = session.runs ∧ still.Keeps now indexedAt after) ∨
      (session.runs < after.runs ∧ still.Keeps now (some now) after)

namespace Leads

theorem refl (session : Session) : still.Leads now session session := fun _ h => Or.inl ⟨rfl, h⟩

theorem trans {middle : Session} (hleft : still.Leads now session middle) (hright : still.Leads now middle after) :
    still.Leads now session after := by
  intro indexedAt h
  rcases hleft indexedAt h with ⟨hruns, hmiddle⟩ | ⟨hruns, hmiddle⟩
  · rcases hright indexedAt hmiddle with ⟨hruns', hafter⟩ | ⟨hruns', hafter⟩
    · exact Or.inl ⟨hruns'.trans hruns, hafter⟩
    · exact Or.inr ⟨by omega, hafter⟩
  · rcases hright (some now) hmiddle with ⟨hruns', hafter⟩ | ⟨hruns', hafter⟩
    · exact Or.inr ⟨by omega, hafter⟩
    · exact Or.inr ⟨by omega, hafter⟩

end Leads

/-- There is an index, or there are no files to build one from. -/
def Indexed (still : StillProject) (session : Session) : Prop :=
  session.store.initialized = true ∨ ∃ failure, Session.filesToIndex still.source still.settings = .error failure

/-- An index is built. Where the files cannot be listed or put in order there has never been one. -/
theorem keeps_index_forced {moment : Moment} (hidle : session.pass = none)
    (hsetup : session.setup = .ofSettings still.settings) (hfits : fitsSeconds still.settings.ttl = true)
    (hwatch : session.watch.listeners ≠ [] → ∃ files, still.source.list still.settings.factoryPaths = .ok files ∧
      session.watch.snapshot = (Session.snapshot still.source files).1)
    (hempty : ∀ failure, Session.filesToIndex still.source still.settings = .error failure →
      session.store.initialized = false ∧ session.store.Reflects moment.clock.monotonic (.empty still.settings.ttl)) :
    session.runs < (session.index still.source moment.clock true).1.runs ∧
      still.Keeps moment.clock.monotonic (some moment.clock.monotonic)
        (session.index still.source moment.clock true).1 ∧
      still.Indexed (session.index still.source moment.clock true).1 := by
  have hsettings : session.settings = still.settings := congrArg Setup.settings hsetup
  have hsetup' := (Session.setup_index still.source moment.clock true session).trans hsetup
  rcases Session.index_forced_cases hidle hsetup still.source moment with ⟨failure, hfiles, hfailed⟩ | hpass
  · rw [hfailed] at hsetup' ⊢
    exact ⟨Nat.lt_succ_self _, ⟨rfl, hsetup', hfits, hwatch, Or.inl (hempty failure hfiles)⟩,
      Or.inr ⟨failure, hfiles⟩⟩
  · obtain ⟨hkept, hruns⟩ := hpass.keeps
    obtain ⟨hidle', hinitialized, hreflects⟩ := reflects_of_passes hsetup hpass
    obtain ⟨-, files, -, hfiles, -⟩ := id hpass
    rw [hsettings] at hfiles
    refine ⟨by omega, ⟨hidle', hsetup', hfits, ?_, ?_⟩, Or.inl hinitialized⟩
    · rw [hkept]
      exact hwatch
    · exact Or.inr ⟨hinitialized, ⟨files, hfiles⟩, moment.clock, rfl, hreflects⟩

theorem Keeps.empty_of_error (h : still.Keeps now indexedAt session) {failure : Failure}
    (hfiles : Session.filesToIndex still.source still.settings = .error failure) :
    session.store.initialized = false ∧ session.store.Reflects now (.empty still.settings.ttl) := by
  rcases h.index with hempty | ⟨-, ⟨files, hok⟩, -⟩
  · exact hempty
  · rw [hfiles] at hok
    cases hok

theorem leads_index (still : StillProject) (moment : Moment) (force : Bool) (session : Session) :
    still.Leads moment.clock.monotonic session (session.index still.source moment.clock force).1 := by
  intro indexedAt h
  rcases Session.index_eq_or_forced h.idle still.source moment.clock force with ⟨-, hsame⟩ | hforced
  · rw [hsame]
    exact Or.inl ⟨rfl, h⟩
  · rw [hforced]
    obtain ⟨hruns, hkeeps, -⟩ := keeps_index_forced h.idle h.setup h.fits h.watch fun failure hfiles =>
      h.empty_of_error hfiles
    exact Or.inr ⟨hruns, hkeeps⟩

theorem Keeps.indexed_index {moment : Moment} (h : still.Keeps moment.clock.monotonic indexedAt session)
    (force : Bool) : still.Indexed (session.index still.source moment.clock force).1 := by
  rcases Session.index_eq_or_forced h.idle still.source moment.clock force with ⟨hinitialized, hsame⟩ | hforced
  · rw [hsame]
    exact Or.inl hinitialized
  · rw [hforced]
    exact (keeps_index_forced h.idle h.setup h.fits h.watch fun failure hfiles => h.empty_of_error hfiles).2.2

theorem leads_resolve (still : StillProject) (moment : Moment) (value : Value) (session : Session) :
    still.Leads moment.clock.monotonic session (session.resolve moment.clock value).1 := by
  intro indexedAt h
  obtain ⟨store, ⟨hinitialized, hreflects⟩, hsame⟩ := Session.resolve_keeps moment.measures value session
    (motive := fun store => store.initialized = session.store.initialized ∧
      ∀ ledger, session.store.Reflects moment.clock.monotonic ledger → store.Reflects moment.clock.monotonic ledger)
    (fun store lookup hstore => ⟨(store.initialized_touch _ lookup).trans hstore.1,
      fun ledger hledger => (hstore.2 ledger hledger).touch lookup⟩)
    ⟨rfl, fun _ hledger => hledger⟩
  exact Or.inl ⟨hsame.runs_eq, h.of_sameBut hsame (Session.setup_resolve _ value session) hinitialized hreflects⟩

theorem leads_cleanup (still : StillProject) (moment : Moment) (session : Session) :
    still.Leads moment.clock.monotonic session (session.cleanup moment.clock).1 := by
  intro indexedAt h
  have hsame := Session.cleanup_of_readable moment.measures session
  refine Or.inl ⟨hsame.runs_eq, h.of_sameBut hsame (Session.setup_cleanup _ session) ?_ ?_⟩
  · exact session.store.initialized_cleanup moment.clock
  · exact fun ledger hledger => hledger.cleanup

theorem leads_ensureListening (still : StillProject) {here : Surroundings} (htree : here.tree = still.tree)
    (session : Session) : still.Leads now session (session.ensureListening here still.name).1 := by
  intro indexedAt h
  have hsource : here.source still.name = still.source := by
    rw [Surroundings.source, htree, source]
  rcases session.ensureListening_cases here still.name with
    ⟨-, hsame⟩ | ⟨-, failure, -, hsame⟩ | ⟨-, files, hlist, hlistening⟩
  · rw [hsame]
    exact Or.inl ⟨rfl, h⟩
  · rw [hsame]
    exact Or.inl ⟨rfl, h⟩
  · rw [hsource, h.patterns_eq] at hlist
    rw [hlistening, hsource]
    exact Or.inl ⟨rfl, h.idle, h.setup, h.fits, fun _ => ⟨files, hlist, rfl⟩, h.index⟩

/-- Nothing has changed, so there is nobody to be told. -/
theorem poll_of_keeps (h : still.Keeps now indexedAt session) (hlisteners : session.watch.listeners ≠ [])
    (clock : Clock) :
    ∃ records, (session.poll still.source clock) = (session.record records, .ok []) := by
  obtain ⟨files, hlist, hsnapshot⟩ := h.watch hlisteners
  refine ⟨(Session.snapshot still.source files).2, ?_⟩
  rw [← h.patterns_eq] at hlist
  rw [Session.poll_of_ok rfl hlist, hsnapshot, Session.changes_self]
  simp only [List.flatMap_nil, Session.tellAll, Except.map, ← hsnapshot]
  rfl

theorem leads_poll (still : StillProject) (hlisteners : session.watch.listeners ≠ []) (clock : Clock) :
    still.Leads now session (session.poll still.source clock).1 := by
  intro indexedAt h
  obtain ⟨records, hpoll⟩ := poll_of_keeps h hlisteners clock
  rw [hpoll]
  exact Or.inl ⟨rfl, h.idle, h.setup, h.fits, h.watch, h.index⟩

/-- Settings that do not agree with themselves are taken on each time, and the index is built each time. -/
theorem leads_applySettings (still : StillProject) (moment : Moment)
    (h : still.Keeps moment.clock.monotonic indexedAt session) :
    ∃ after answer, session.applySettings still.source moment.clock still.settings = (after, .ok answer) ∧
      still.Leads moment.clock.monotonic session after := by
  have hadopt : (session.adopt still.source still.settings).2 = .ok () := by
    rw [Session.adopt_eq_ok_iff]
    refine ⟨h.fits, fun hlisteners _ => ?_⟩
    obtain ⟨files, hlist, -⟩ := h.watch hlisteners
    exact ⟨files, hlist⟩
  have hsetup := Session.setup_adopt hadopt
  obtain ⟨hpass, hruns, hstore, hlisteners, hsnapshot⟩ := Session.adopt_again h.setup rfl hadopt
  have happly := Session.applySettings_of_adopt hadopt moment.clock
  have hempty : ∀ failure, Session.filesToIndex still.source still.settings = .error failure →
      (session.adopt still.source still.settings).1.store.initialized = false ∧
        (session.adopt still.source still.settings).1.store.Reflects moment.clock.monotonic
          (.empty still.settings.ttl) := by
    intro failure hfiles
    rw [hstore]
    exact ⟨rfl, (h.empty_of_error hfiles).2.setInitialized false⟩
  obtain ⟨hmore, hkeeps, -⟩ := keeps_index_forced (hpass.trans h.idle) hsetup h.fits
    (by rw [hlisteners]; exact hsnapshot) hempty
  rw [hruns] at hmore
  exact ⟨_, _, happly, fun _ _ => Or.inr ⟨hmore, hkeeps⟩⟩

/-! ### Commands -/

variable {here : Surroundings}

theorem leads_run (htree : here.tree = still.tree) (hmeasures : here.clock.measures = true)
    (htells : here.clock.tellsDay = true) {command : SessionCommand} (hcommand : command ≠ .changed) (args : Value)
    (session : Session) :
    still.Leads here.clock.monotonic session (command.run here still.name args session).1 := by
  have hsource : here.source still.name = still.source := by
    rw [Surroundings.source, htree, source]
  have hindex (force : Bool) := still.leads_index ⟨here.clock, hmeasures, htells⟩ force session
  cases command with
  | index =>
      simp only [SessionCommand.run, Session.answerIndex, hsource]
      split
      · exact .refl session
      · exact hindex _
  | resolve =>
      simp only [SessionCommand.run, Session.answerResolve, hsource]
      split
      · exact hindex false
      · exact (hindex false).trans (still.leads_resolve ⟨here.clock, hmeasures, htells⟩ _ _)
  | changed => exact absurd rfl hcommand
  | poll =>
      have hlisten := (hindex false).trans (still.leads_ensureListening htree _)
      have hpolled : ∀ middle : Session, middle.watch.listeners ≠ [] →
          Session.ensureListening here still.name (session.index still.source here.clock false).1 = (middle, .ok ()) →
          still.Leads here.clock.monotonic session (session.answerPoll here still.name).1 := by
        intro middle hlisteners hmiddle
        rw [hmiddle] at hlisten
        have hpoll := hlisten.trans (still.leads_poll hlisteners here.clock)
        simp only [Session.answerPoll, hsource, hmiddle]
        split
        · next after failure hafter => rwa [hafter] at hpoll
        · next after changes hafter => rwa [hafter] at hpoll
      rcases Session.ensureListening_cases here still.name (session.index still.source here.clock false).1 with
        ⟨hlisteners, hsame⟩ | ⟨-, failure, -, hsame⟩ | ⟨-, files, -, hsame⟩
      · exact hpolled _ hlisteners hsame
      · simp only [SessionCommand.run, Session.answerPoll, hsource, hsame]
        exact hindex false
      · exact hpolled _ (List.cons_ne_nil _ _) hsame
  | stats => exact still.leads_cleanup ⟨here.clock, hmeasures, htells⟩ session

theorem Keeps.target?_eq {clock : Clock} (h : still.Keeps clock.monotonic indexedAt session)
    (hindexed : still.Indexed session) (lookup : Lookup) :
    session.store.target? clock lookup =
      if still.lapsed indexedAt clock.monotonic then none else still.target? lookup := by
  rcases h.index with ⟨hnot, hempty⟩ | ⟨-, -, written, rfl, hreflects⟩
  · have hfiles : still.files = [] := by
      rcases hindexed with hdone | ⟨failure, hfailed⟩
      · rw [hnot] at hdone
        cases hdone
      · exact still.files_eq_nil_of_error hfailed
    have hnone : still.target? lookup = none := by
      cases lookup <;> simp only [target?, factories, traits, hfiles, List.flatMap_nil, List.find?_nil, Option.map_none]
    rw [target?_of_reflects_empty hempty lookup, hnone, ite_self]
  · exact target?_of_reflects hreflects lookup

end StillProject

def referencesFound (references : List Reference) : Value :=
  .object [("references", .list (references.map Reference.toValue)), ("total_references", .int references.length)]

namespace StillProject

variable {still : StillProject} {now : Int} {indexedAt : Option Int} {session : Session} {here : Surroundings}

/-- What a request to resolve is answered: the references of its text, as far as the definitions are live. -/
theorem outcome_answerResolve (htree : here.tree = still.tree) (hmeasures : here.clock.measures = true)
    (htells : here.clock.tellsDay = true) (h : still.Keeps here.clock.monotonic indexedAt session) (args : Value) :
    ∃ indexed : Session, still.Leads here.clock.monotonic session indexed ∧ still.Indexed indexed ∧
      (session.answerResolve here still.name args).1.runs = indexed.runs ∧
      (session.answerResolve here still.name args).2 =
        (textToResolve still.tree (.raw still.name) args).map fun value => referencesFound
          (Session.referencesOf indexed.store here.clock (still.settings.factoryMethods.map .text) value) := by
  have hsource : here.source still.name = still.source := by
    rw [Surroundings.source, htree, source]
  let moment : Moment := ⟨here.clock, hmeasures, htells⟩
  have hleads := still.leads_index moment false session
  have hindexed : still.Indexed (session.index still.source moment.clock false).1 := h.indexed_index false
  obtain ⟨indexedAt', hkeeps⟩ : ∃ indexedAt', still.Keeps here.clock.monotonic indexedAt'
      (session.index still.source moment.clock false).1 := by
    rcases hleads indexedAt h with ⟨-, hkeeps⟩ | ⟨-, hkeeps⟩
    · exact ⟨_, hkeeps⟩
    · exact ⟨_, hkeeps⟩
  refine ⟨_, hleads, hindexed, ?_⟩
  simp only [Session.answerResolve, hsource, htree]
  cases textToResolve still.tree (.raw still.name) args with
  | error failure => exact ⟨rfl, rfl⟩
  | ok value =>
      obtain ⟨_, -, hsame⟩ := Session.resolve_keeps hmeasures value
        (session.index still.source moment.clock false).1 (motive := fun _ => True) (fun _ _ _ => trivial) trivial
      have hfound : ((session.index still.source moment.clock false).1.resolve here.clock value).2 =
          Session.referencesOf (session.index still.source moment.clock false).1.store here.clock
            (still.settings.factoryMethods.map .text) value := by
        rw [Session.references_resolve hmeasures, hkeeps.methods_eq]
        split
        · rfl
        · next hnot =>
          -- Without an index there is nothing to find, and without files there is nothing to build one from.
          rw [referencesOf_eq_nil]
          intro lookup
          rcases hkeeps.index with ⟨-, hempty⟩ | ⟨hdone, -⟩
          · exact target?_of_reflects_empty hempty lookup
          · exact absurd hdone hnot
      refine ⟨hsame.runs_eq, ?_⟩
      show Except.ok (referencesFound _) = _
      rw [hfound]
      rfl

theorem find?_of_mem_allFactories (h : still.Keeps now indexedAt session) {factory : Factory}
    (hmem : factory ∈ session.store.allFactories) :
    still.factories.find? (fun other => other.name = factory.name) = some factory := by
  obtain ⟨⟨key, _⟩, hitem, rfl⟩ := List.mem_map.1 hmem
  have hpeek := (session.store.factories.mem_items key _).1 hitem
  obtain ⟨entry, hentry, hvalue⟩ := Option.map_eq_some_iff.1 hpeek
  rcases h.index with ⟨-, hempty⟩ | ⟨-, -, written, -, hreflects⟩
  · rcases hempty.factories key with heq | ⟨hnone, -⟩
    · rw [hentry] at heq
      cases heq
    · rw [hentry] at hnone
      cases hnone
  · obtain ⟨hbook, -, -⟩ := Ledger.books_fill_empty still.settings.ttl_pos.le written still.factories still.traits
    rcases hreflects.factories key with heq | ⟨hnone, -⟩
    · rw [hentry, ledger, hbook, Book.ofValues] at heq
      obtain ⟨found, hfound, hentry'⟩ := Option.map_eq_some_iff.1 heq.symm
      subst hentry' hvalue
      have hname : found.name = key := by simpa using List.find?_some hfound
      show still.factories.find? (fun other => other.name = found.name) = some found
      rw [hname]
      exact hfound
    · rw [hentry] at hnone
      cases hnone

end StillProject

/-! ### Requests -/

/-- A request with its outcome, and when the index was built that it was answered from. -/
structure Exchange where
  request : Request
  outcome : Except Failure Value
  indexedAt : Option Int

namespace StillProject

/-- A request that leaves the project as it is, at a time that can be told. A request for another project may be
anything. -/
def Admits (still : StillProject) (request : Request) : Prop :=
  ∀ errand, request.errand? = some errand → errand.project = still.name →
    errand.settings = still.settings ∧ errand.command ≠ .changed ∧ request.here.tree = still.tree ∧
      request.here.clock.measures = true ∧ request.here.clock.tellsDay = true

/-- Requests that are answered one after the other. The index is as old as the last request during which the project
was indexed. -/
def exchanges (still : StillProject) : List Request → Registry → Option Int → List Exchange
  | [], _, _ => []
  | request :: rest, registry, indexedAt =>
      let reply := registry.answer request
      let indexedAt :=
        if reply.registry.runs still.name = registry.runs still.name then indexedAt
        else some request.here.clock.monotonic
      ⟨request, reply.outcome, indexedAt⟩ :: still.exchanges rest reply.registry indexedAt

structure Stands (still : StillProject) (now : Int) (indexedAt : Option Int) (registry : Registry) : Prop where
  keeps : ∀ session, OrderedMap.get? registry still.name = some session → still.Keeps now indexedAt session
  unknown : OrderedMap.get? registry still.name = none → indexedAt = none

variable {still : StillProject} {now : Int} {indexedAt : Option Int} {registry : Registry} {here : Surroundings}

theorem Leads.keeps {session after : Session} (hleads : still.Leads now session after)
    (h : still.Keeps now indexedAt session) :
    still.Keeps now (if after.runs = session.runs then indexedAt else some now) after := by
  rcases hleads indexedAt h with ⟨hruns, hafter⟩ | ⟨hruns, hafter⟩
  · rwa [if_pos hruns]
  · rwa [if_neg (by omega)]

/-- The session that answers a request. There is none if the life of definitions is out of range. -/
theorem Stands.sessionFor (h : still.Stands here.clock.monotonic indexedAt registry) (htree : here.tree = still.tree)
    (hmeasures : here.clock.measures = true) (htells : here.clock.tellsDay = true) :
    (fitsSeconds still.settings.ttl = false ∧ indexedAt = none ∧
      registry.sessionFor here still.name still.settings = .error .overflow) ∨
    ∃ previous found, fitsSeconds still.settings.ttl = true ∧
      registry.sessionFor here still.name still.settings = .ok (found, .ok ()) ∧
      still.Keeps here.clock.monotonic indexedAt previous ∧ previous.runs = registry.runs still.name ∧
      still.Leads here.clock.monotonic previous found := by
  have hsource : here.source still.name = still.source := by
    rw [Surroundings.source, htree, source]
  cases hprevious : OrderedMap.get? registry still.name with
  | some previous =>
      have hkeeps := h.keeps previous hprevious
      have hruns : previous.runs = registry.runs still.name := by
        rw [Registry.runs, hprevious]
        rfl
      right
      by_cases hagrees : previous.settings.agrees still.settings = true
      · refine ⟨previous, previous, hkeeps.fits, ?_, hkeeps, hruns, .refl previous⟩
        simp only [Registry.sessionFor, hprevious, hagrees, if_true]
      · obtain ⟨after, answer, happly, hleads⟩ := still.leads_applySettings ⟨here.clock, hmeasures, htells⟩ hkeeps
        refine ⟨previous, after, hkeeps.fits, ?_, hkeeps, hruns, hleads⟩
        simp only [Registry.sessionFor, hprevious, hagrees, Bool.false_eq_true, if_false, hsource, happly, Except.map]
  | none =>
      have hcreate : registry.sessionFor here still.name still.settings =
          (Session.create still.settings { debug := still.settings.debug } still.settings.factoryPaths).map
            fun session => (session, .ok ()) := by
        simp only [Registry.sessionFor, hprevious]
      cases hfits : fitsSeconds still.settings.ttl with
      | false =>
          left
          refine ⟨rfl, h.unknown hprevious, ?_⟩
          rw [Settings.ttl] at hfits
          rw [hcreate]
          simp only [Session.create, Store.create, Value.toInt, hfits, Bool.false_eq_true, if_false, Except.map]
      | true =>
          right
          have hcreated := Session.create_eq_blank hfits
          have hkeeps : still.Keeps here.clock.monotonic indexedAt (.blank still.settings) :=
            ⟨rfl, Session.setup_create hcreated, hfits, fun hlisteners => absurd rfl hlisteners,
              Or.inl ⟨rfl, .empty still.settings.ttl_pos _⟩⟩
          refine ⟨.blank still.settings, .blank still.settings, rfl, ?_, hkeeps, ?_, .refl _⟩
          · rw [hcreate, hcreated]
            rfl
          · rw [Registry.runs, hprevious]
            rfl

/-- What is shown by the answer to a request, as far as it resolves a text or lists the index. -/
structure Explained (still : StillProject) (exchange : Exchange) (command : SessionCommand) : Prop where
  resolved : command = .resolve →
    (fitsSeconds still.settings.ttl = false ∧ exchange.indexedAt = none ∧ exchange.outcome = .error .overflow) ∨
    (fitsSeconds still.settings.ttl = true ∧ ∃ store : Store,
      (∀ lookup, store.target? exchange.request.here.clock lookup =
        if still.lapsed exchange.indexedAt exchange.request.here.clock.monotonic then none
        else still.target? lookup) ∧
      exchange.outcome = (textToResolve still.tree (.raw still.name) exchange.request.args).map fun value =>
        referencesFound (Session.referencesOf store exchange.request.here.clock
          (still.settings.factoryMethods.map .text) value))
  listed : command = .index → ∀ listing, exchange.outcome = .ok listing → fitsSeconds still.settings.ttl = true ∧
    ∃ listed : List Factory, listing.field? "factories" = some (.list (listed.map Factory.toValue)) ∧
      ∀ factory ∈ listed, still.factories.find? (fun other => other.name = factory.name) = some factory

theorem listed_answerIndex {session : Session} {args : Value} {listing : Value}
    (h : still.Keeps now indexedAt (session.answerIndex here still.name args).1)
    (hlisting : (session.answerIndex here still.name args).2 = .ok listing) :
    ∃ listed : List Factory, listing.field? "factories" = some (.list (listed.map Factory.toValue)) ∧
      ∀ factory ∈ listed, still.factories.find? (fun other => other.name = factory.name) = some factory := by
  unfold Session.answerIndex at h hlisting
  split at h
  · next hargument =>
    simp only [hargument] at hlisting
    cases hlisting
  · next force hargument =>
    simp only [hargument] at hlisting
    cases hlisting
    refine ⟨_, rfl, fun factory hmem => find?_of_mem_allFactories h ?_⟩
    exact (List.mergeSort_perm _ _).mem_iff.1 hmem

theorem Stands.answer_errand {request : Request} {errand : Errand} (herrand : request.errand? = some errand)
    (hproject : errand.project = still.name) (h : still.Stands request.here.clock.monotonic indexedAt registry)
    (hadmits : still.Admits request) :
    let indexedAt' := if (registry.answer request).registry.runs still.name = registry.runs still.name then indexedAt
      else some request.here.clock.monotonic
    still.Stands request.here.clock.monotonic indexedAt' (registry.answer request).registry ∧
      still.Explained ⟨request, (registry.answer request).outcome, indexedAt'⟩ errand.command := by
  intro indexedAt'
  obtain ⟨hsettings, hcommand, htree, hmeasures, htells⟩ := hadmits errand herrand hproject
  obtain ⟨hregistry, houtcome⟩ := Registry.answer_of_errand herrand registry
  rw [hproject, hsettings] at hregistry houtcome
  rcases h.sessionFor htree hmeasures htells with
    ⟨hfits, hunknown, hfor⟩ | ⟨previous, found, hfits, hfor, hkeeps, hruns, hleads⟩
  · have hkept : (registry.answer request).registry = registry := by
      rw [hregistry, Registry.runOnSession, hfor]
    have hfailed : (registry.answer request).outcome = .error .overflow := by
      rw [houtcome, Registry.runOnSession, hfor]
    have hindexed : indexedAt' = indexedAt := by
      simp only [indexedAt', hkept, if_true]
    rw [hindexed, hkept, hfailed]
    refine ⟨h, fun _ => Or.inl ⟨hfits, hunknown, rfl⟩, fun _ listing hlisting => ?_⟩
    cases hlisting
  · obtain ⟨hregistry', houtcome'⟩ := Registry.runOnSession_of_ok hfor errand.command request.args
    have hrun := hleads.trans (leads_run htree hmeasures htells hcommand request.args found)
    have hget : OrderedMap.get? (registry.answer request).registry still.name =
        some (errand.command.run request.here still.name request.args found).1.withoutReports := by
      rw [hregistry, hregistry', OrderedMap.get?_insert, if_pos rfl]
    have hindexed : ∀ after : Session,
        after.runs = (errand.command.run request.here still.name request.args found).1.runs →
        indexedAt' = if after.runs = previous.runs then indexedAt else some request.here.clock.monotonic := by
      intro after hafter
      have hruns' : (registry.answer request).registry.runs still.name = after.runs := by
        rw [Registry.runs, hget, hafter]
        rfl
      rw [hruns, ← hruns']
    have hkeeps' : still.Keeps request.here.clock.monotonic indexedAt'
        (errand.command.run request.here still.name request.args found).1 := by
      rw [hindexed _ rfl]
      exact hrun.keeps hkeeps
    refine ⟨⟨fun session hsession => ?_, fun hnone => ?_⟩, fun hresolve => Or.inr ⟨hfits, ?_⟩, fun hindex => ?_⟩
    · rw [hget] at hsession
      cases hsession
      exact ⟨hkeeps'.idle, hkeeps'.setup, hkeeps'.fits, hkeeps'.watch, hkeeps'.index⟩
    · rw [hget] at hnone
      cases hnone
    · have hanswer : errand.command.run request.here still.name request.args found =
          found.answerResolve request.here still.name request.args := by
        rw [hresolve]
        rfl
      obtain ⟨indexed, hleads', hindex, hsame, hresult⟩ := outcome_answerResolve htree hmeasures htells
        (hleads.keeps hkeeps) request.args
      have hkeeps'' := (hleads.trans hleads').keeps hkeeps
      rw [← hindexed indexed (by rw [hanswer, hsame])] at hkeeps''
      refine ⟨indexed.store, hkeeps''.target?_eq hindex, ?_⟩
      rw [houtcome, houtcome', hanswer, hresult]
    · have hanswer : errand.command.run request.here still.name request.args found =
          found.answerIndex request.here still.name request.args := by
        rw [hindex]
        rfl
      intro listing hlisting
      rw [houtcome, houtcome', hanswer] at hlisting
      rw [hanswer] at hkeeps'
      exact ⟨hfits, listed_answerIndex hkeeps' hlisting⟩

theorem Stands.answer {request : Request} (h : still.Stands now indexedAt registry)
    (hnow : now ≤ request.here.clock.monotonic) (hadmits : still.Admits request) :
    let indexedAt' := if (registry.answer request).registry.runs still.name = registry.runs still.name then indexedAt
      else some request.here.clock.monotonic
    still.Stands request.here.clock.monotonic indexedAt' (registry.answer request).registry ∧
      ∀ errand, request.errand? = some errand → errand.project = still.name →
        still.Explained ⟨request, (registry.answer request).outcome, indexedAt'⟩ errand.command := by
  intro indexedAt'
  have hlater : still.Stands request.here.clock.monotonic indexedAt registry :=
    ⟨fun session hsession => (h.keeps session hsession).later hnow, h.unknown⟩
  by_cases hasks : ∃ errand, request.errand? = some errand ∧ errand.project = still.name
  · obtain ⟨errand, herrand, hproject⟩ := hasks
    obtain ⟨hstands, hexplained⟩ := hlater.answer_errand herrand hproject hadmits
    refine ⟨hstands, fun other hother _ => ?_⟩
    rw [herrand] at hother
    cases hother
    exact hexplained
  · -- The session of the project is not touched.
    have hsame : OrderedMap.get? (registry.answer request).registry still.name =
        OrderedMap.get? registry still.name := by
      rw [Registry.answer, Registry.registry_dispatch]
      cases herrand : request.errand? with
      | none => rfl
      | some errand =>
          apply Registry.get?_runOnSession_of_ne
          intro hproject
          exact hasks ⟨errand, herrand, hproject.symm⟩
    have hindexed : indexedAt' = indexedAt := by
      simp only [indexedAt', Registry.runs, hsame, if_true]
    refine ⟨?_, fun errand herrand hproject => absurd ⟨errand, herrand, hproject⟩ hasks⟩
    rw [hindexed]
    refine ⟨fun session hsession => hlater.keeps session ?_, fun hnone => hlater.unknown ?_⟩
    · rwa [hsame] at hsession
    · rwa [hsame] at hnone

theorem Stands.explained {requests : List Request} (h : still.Stands now indexedAt registry)
    (hnow : ∀ request ∈ requests, now ≤ request.here.clock.monotonic)
    (hforward : requests.Pairwise fun earlier later => earlier.here.clock.monotonic ≤ later.here.clock.monotonic)
    (hadmits : ∀ request ∈ requests, still.Admits request) :
    ∀ exchange ∈ still.exchanges requests registry indexedAt,
      ∀ errand, exchange.request.errand? = some errand → errand.project = still.name →
        still.Explained exchange errand.command := by
  induction requests generalizing now indexedAt registry with
  | nil =>
      intro exchange hmem
      cases hmem
  | cons request rest ih =>
      obtain ⟨hstands, hexplained⟩ := h.answer (hnow request List.mem_cons_self) (hadmits request List.mem_cons_self)
      obtain ⟨hfirst, hrest⟩ := List.pairwise_cons.1 hforward
      intro exchange hmem
      rcases List.mem_cons.1 hmem with rfl | hmem
      · exact hexplained
      · exact ih hstands hfirst hrest (fun other hother => hadmits other (List.mem_cons_of_mem _ hother)) exchange hmem

/-- The exchange is about a command for the project. -/
def Asks (still : StillProject) (command : SessionCommand) (exchange : Exchange) : Prop :=
  exchange.request.errand? = some ⟨command, still.name, still.settings⟩

def textOf (still : StillProject) (exchange : Exchange) : Except Failure Value :=
  textToResolve still.tree (.raw still.name) exchange.request.args

/-- The exchange took place when the definitions of the index had expired. -/
def Lapsed (still : StillProject) (exchange : Exchange) : Prop :=
  still.lapsed exchange.indexedAt exchange.request.here.clock.monotonic = true

end StillProject

/-- **Answers last as long as definitions live.** While the files and the settings of a project stay as they are and
time does not go back, any two requests resolve the same text to the same references, whatever other requests there are
besides, as long as each of them comes before the definitions have lapsed: before the difference of the readings at that
time and when the index was last built, rounded to double precision, is more than the time to live in seconds. A request
that comes later resolves to nothing. Every factory that the index ever lists is referred to by any call that names it
in a request that comes in time. -/
theorem answers_last (still : StillProject) (requests : List Request)
    (hadmits : ∀ request ∈ requests, still.Admits request)
    (hforward : requests.Pairwise fun earlier later => earlier.here.clock.monotonic ≤ later.here.clock.monotonic) :
    (∀ a ∈ still.exchanges requests .empty none, ∀ b ∈ still.exchanges requests .empty none,
      still.Asks .resolve a → still.Asks .resolve b → still.textOf a = still.textOf b →
      ¬ still.Lapsed a → ¬ still.Lapsed b → a.outcome = b.outcome) ∧
    (∀ a ∈ still.exchanges requests .empty none, still.Asks .resolve a → still.Lapsed a →
      a.outcome = (still.textOf a).map fun _ => referencesFound []) ∧
    ∀ a ∈ still.exchanges requests .empty none, ∀ b ∈ still.exchanges requests .empty none,
      still.Asks .index a → still.Asks .resolve b → ¬ still.Lapsed b →
      ∀ listing, a.outcome = .ok listing → ∃ listed : List Factory,
        listing.field? "factories" = some (.list (listed.map Factory.toValue)) ∧
        ∀ factory ∈ listed, ∀ text pattern call, still.textOf b = .ok (.raw text) →
          Pattern.CallPattern.ofMethods (still.settings.factoryMethods.map .text) = .ok pattern →
          call ∈ pattern.calls text.shown.toList → String.ofList call.parts.first.name = factory.name →
          ∃ references, b.outcome = .ok (referencesFound references) ∧
            ∃ reference ∈ references, reference.kind = .factory ∧
              reference.start = call.start + call.parts.first.start - 1 ∧
              reference.stop = call.start + call.parts.first.stop ∧ reference.target = factory.location := by
  have hexplained : ∀ exchange ∈ still.exchanges requests .empty none, ∀ command, still.Asks command exchange →
      still.Explained exchange command := by
    intro exchange hmem command hasks
    -- Time has not begun before the first request.
    cases requests with
    | nil => cases hmem
    | cons request rest =>
        have hstart : still.Stands request.here.clock.monotonic none (.empty : Registry) :=
          ⟨fun session hsession => absurd hsession (by simp), fun _ => rfl⟩
        have hnow : ∀ other ∈ request :: rest, request.here.clock.monotonic ≤ other.here.clock.monotonic := by
          intro other hother
          rcases List.mem_cons.1 hother with rfl | hother
          · exact le_refl _
          · exact (List.pairwise_cons.1 hforward).1 other hother
        exact hstart.explained hnow hforward hadmits exchange hmem _ hasks rfl
  refine ⟨?_, ?_, ?_⟩
  · intro a ha b hb hasks hasks' htext hlive hlive'
    simp only [StillProject.Lapsed, StillProject.textOf] at htext hlive hlive'
    rcases (hexplained a ha _ hasks).resolved rfl with ⟨hfits, -, hfailed⟩ | ⟨hfits, store, hfound, houtcome⟩
    · rcases (hexplained b hb _ hasks').resolved rfl with ⟨-, -, hfailed'⟩ | ⟨hfits', -⟩
      · rw [hfailed, hfailed']
      · rw [hfits] at hfits'
        cases hfits'
    · rcases (hexplained b hb _ hasks').resolved rfl with ⟨hfits', -⟩ | ⟨-, store', hfound', houtcome'⟩
      · rw [hfits] at hfits'
        cases hfits'
      · have hsame : ∀ lookup,
            store.target? a.request.here.clock lookup = store'.target? b.request.here.clock lookup := by
          intro lookup
          rw [hfound, hfound', if_neg hlive, if_neg hlive']
        rw [houtcome, houtcome', htext]
        simp only [referencesOf_congr hsame]
  · intro a ha hasks hlapsed
    simp only [StillProject.Lapsed] at hlapsed
    rcases (hexplained a ha _ hasks).resolved rfl with ⟨-, hunknown, -⟩ | ⟨-, store, hfound, houtcome⟩
    · rw [hunknown] at hlapsed
      cases hlapsed
    · have hnone : ∀ lookup, store.target? a.request.here.clock lookup = none := by
        intro lookup
        rw [hfound, if_pos hlapsed]
      rw [houtcome, StillProject.textOf]
      simp only [referencesOf_eq_nil hnone]
  · intro a ha b hb hasks hasks' hlive listing hlisting
    simp only [StillProject.Lapsed] at hlive
    obtain ⟨hfits, listed, hfield, hlisted⟩ := (hexplained a ha _ hasks).listed rfl listing hlisting
    refine ⟨listed, hfield, fun factory hfactory text pattern call htext hpattern hcall hname => ?_⟩
    rcases (hexplained b hb _ hasks').resolved rfl with ⟨hfits', -⟩ | ⟨-, store, hfound, houtcome⟩
    · rw [hfits] at hfits'
      cases hfits'
    · have htarget : store.target? b.request.here.clock (.factory (String.ofList call.parts.first.name)) =
          some factory.location := by
        rw [hfound, if_neg hlive, hname, StillProject.target?, hlisted factory hfactory]
        rfl
      obtain ⟨reference, hmem, hreference⟩ := exists_reference_of_call hcall htarget
      refine ⟨_, ?_, reference, hmem, hreference⟩
      simp only [StillProject.textOf] at htext
      rw [houtcome, htext]
      simp only [Session.referencesOf, resolve, hpattern, Except.map]

/-- How many items an answer lists under a name. -/
def listedUnder (name : RawText) (outcome : Except Failure Value) : Nat :=
  match outcome.toOption.bind fun answer => answer.field? name with
  | some (.list items) => items.length
  | _ => 0

/-- A text that is resolved once more when the definitions are as old as they may be. In the meantime they were swept
and listed. -/
theorem answers_last_to_the_end :
    let tree := ({} : Tree).write (.ofText "p/a.rb")
      (.file [102, 97, 99, 116, 111, 114, 121, 32, 58, 117, 32, 100, 111] 0)
    let args : Value := .object [("factory_paths", .list [.text "*.rb"]), ("block_mode", .text "regex"),
      ("factory_methods", .list [.text "create"]), ("text", .text "create(:u)")]
    let settings := (Settings.load args .empty).outcome.toOption.getD .default
    let still : StillProject := ⟨"p", tree, settings⟩
    let ask (command : String) (passed : Int) : Request :=
      { here := { tree := tree, clock := ⟨reading (1000000 + passed), reading (1000000000 + passed)⟩ }
        command := .text command
        project := .text "p"
        args := args }
    let requests := [ask "resolve" 0, ask "stats" 10000, ask "index" 20000, ask "resolve" 60000]
    ∃ first swept listed last : Exchange, still.exchanges requests .empty none = [first, swept, listed, last] ∧
      last.request = ask "resolve" 60000 ∧ first.outcome = last.outcome ∧
      listedUnder "references" last.outcome = 1 := by
  intro tree args settings still ask requests
  have hsettings : ∀ command passed errand, (ask command passed).errand? = some errand →
      errand.settings = settings := by
    intro command passed errand herrand
    unfold Request.errand? at herrand
    split at herrand
    · next hload =>
      cases herrand
      show _ = (Settings.load args .empty).outcome.toOption.getD .default
      rw [show (Settings.load args .empty).outcome = _ from hload]
      rfl
    · cases herrand
  have hasks : ∀ exchange : Exchange, ∀ passed, exchange.request = ask "resolve" passed →
      still.Asks .resolve exchange := by
    intro exchange passed hrequest
    have hcommand : (ask "resolve" passed).errand?.map (fun errand => (errand.command, errand.project)) =
        some (SessionCommand.resolve, ("p" : RawText)) := by
      show (ask "resolve" 0).errand?.map (fun errand => (errand.command, errand.project)) = _
      decide +kernel
    obtain ⟨errand, herrand, hpair⟩ := Option.map_eq_some_iff.1 hcommand
    have hsame := hsettings _ _ errand herrand
    rw [StillProject.Asks, hrequest, herrand]
    cases errand
    cases hpair
    exact congrArg (fun settings => some (Errand.mk .resolve "p" settings)) hsame
  have hadmits : ∀ request ∈ requests, still.Admits request := by
    have hkept : ∀ request ∈ requests, request.errand?.map Errand.command ≠ some .changed ∧
        request.here.clock.measures = true ∧ request.here.clock.tellsDay = true := by
      decide +kernel
    intro request hmem errand herrand _
    obtain ⟨hcommand, hmeasures, htells⟩ := hkept request hmem
    obtain ⟨command, passed, rfl⟩ : ∃ command passed, request = ask command passed := by
      simp only [requests, List.mem_cons, List.not_mem_nil, or_false] at hmem
      rcases hmem with h | h | h | h <;> exact ⟨_, _, h⟩
    refine ⟨hsettings _ _ errand herrand, fun hchanged => hcommand ?_, rfl, hmeasures, htells⟩
    rw [herrand, Option.map_some, hchanged]
  have hforward : requests.Pairwise fun earlier later => earlier.here.clock.monotonic ≤ later.here.clock.monotonic := by
    decide +kernel
  obtain ⟨hsame, -, -⟩ := answers_last still requests hadmits hforward
  refine ⟨_, _, _, _, rfl, rfl, ?_, ?_⟩
  · apply hsame
    · exact List.mem_cons_self
    · exact List.mem_of_getLast? rfl
    · exact hasks _ 0 rfl
    · exact hasks _ 60000 rfl
    · show textToResolve tree _ args = textToResolve tree _ args
      rfl
    · show ¬ still.lapsed _ _ = true
      decide +kernel
    · show ¬ still.lapsed _ _ = true
      decide +kernel
  · decide +kernel

/-- Definitions live for a minute. A second later the index still lists the factory, but the same text as before is
resolved to nothing. -/
theorem answers_decay :
    let tree := ({} : Tree).write (.ofText "p/a.rb")
      (.file [102, 97, 99, 116, 111, 114, 121, 32, 58, 117, 32, 100, 111] 0)
    let args : Value := .object [("factory_paths", .list [.text "*.rb"]), ("block_mode", .text "regex"),
      ("factory_methods", .list [.text "create"]), ("text", .text "create(:u)")]
    let ask (command : String) (passed : Int) : Request :=
      { here := { tree := tree, clock := ⟨reading (1000000 + passed), reading (1000000000 + passed)⟩ }
        command := .text command
        project := .text "p"
        args := args }
    (Registry.exchanges [ask "resolve" 0, ask "index" 61000, ask "resolve" 61000] .empty).map
      (fun exchange => (listedUnder "references" exchange.2, listedUnder "factories" exchange.2)) =
        [(1, 0), (0, 1), (0, 0)] := by
  decide +kernel

end FactoryIndex
