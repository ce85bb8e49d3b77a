import FactoryIndex.Proofs.Session.Supersede
import FactoryIndex.Proofs.Store.Filling
import FactoryIndex.Request.Work

/-!
# What a command does to a session

Commands are answered one at a time, so a session is idle whenever one comes: no pass is waiting. What is left to say
is what each part of a command does to such a session. To index either does nothing or is a whole pass, or the
files cannot be listed or put in order. To resolve and to clean up only leave out what has expired. To listen takes a
snapshot, and to poll compares with it.
-/

namespace FactoryIndex

/-! ### Looking up -/

namespace Store

variable {store : Store} {clock : Clock}

theorem Reflects.touch {ledger : Ledger} (h : Reflects clock.monotonic ledger store) (lookup : Lookup) :
    Reflects clock.monotonic ledger (store.touch clock lookup) := by
  cases lookup with
  | factory name => exact h.touchFactory name
  | trait factory name => exact h.touchTrait factory name

theorem initialized_touch (store : Store) (clock : Clock) (lookup : Lookup) :
    (store.touch clock lookup).initialized = store.initialized := by
  cases lookup with
  | factory name =>
      simp only [touch, touchFactory]
      split <;> rfl
  | trait factory name =>
      simp only [touch, touchTrait]
      split <;> rfl

/-- What looking up one definition keeps is kept by looking up all those that a text asks for. -/
theorem touched_induction {motive : Store → Prop}
    (hstep : ∀ store lookup, motive store → motive (store.touch clock lookup)) (hstore : motive store)
    (pattern : Pattern.CallPattern) (text : List Char) : motive (Resolver.touched store clock pattern text) := by
  unfold Resolver.touched
  generalize Resolver.questions pattern text = questions
  induction questions generalizing store with
  | nil => exact hstore
  | cons question rest ih => exact ih (hstep store question.lookup hstore)

theorem initialized_cleanup (store : Store) (clock : Clock) :
    (store.cleanup clock).initialized = store.initialized :=
  view_cleanup (fun _ _ => rfl) (fun _ _ => rfl) clock store rfl

theorem touch_of_expiredCount_eq_zero (hlive : store.expiredCount clock = 0) (lookup : Lookup) :
    store.touch clock lookup = store := by
  have hnone {α : Type} {m : ExpiringMap α} (hkeys : (m.expiredKeys clock.monotonic).length = 0) (key : String) :
      m.hasExpired clock.monotonic key = false := by
    rw [← Bool.not_eq_true, ← m.mem_expiredKeys, List.length_eq_zero_iff.1 hkeys]
    exact List.not_mem_nil
  obtain ⟨hfactories, htraits⟩ := Nat.add_eq_zero_iff.1 hlive
  cases lookup with
  | factory name => simp only [touch, touchFactory, hnone hfactories, Bool.false_eq_true, if_false]
  | trait factory name => simp only [touch, touchTrait, hnone htraits, Bool.false_eq_true, if_false]

theorem cleanup_of_expiredCount_eq_zero (hlive : store.expiredCount clock = 0) : store.cleanup clock = store := by
  have hsweep {α : Type} {m : ExpiringMap α} (hkeys : (m.expiredKeys clock.monotonic).length = 0) :
      m.sweep clock.monotonic = m := by
    obtain ⟨lifetime, entries, nodup⟩ := m
    rw [ExpiringMap.expiredKeys, List.length_map, List.length_eq_zero_iff, List.filter_eq_nil_iff] at hkeys
    have hentries : entries.filter (fun entry =>
        !ExpiringMap.expired ⟨lifetime, ⟨entries, nodup⟩⟩ clock.monotonic entry.2) = entries := by
      rw [List.filter_eq_self]
      intro entry hentry
      simpa using hkeys entry hentry
    simp only [ExpiringMap.sweep, OrderedMap.filter, hentries]
  obtain ⟨hfactories, htraits⟩ := Nat.add_eq_zero_iff.1 hlive
  simp only [cleanup, List.length_eq_zero_iff.1 hfactories, List.length_eq_zero_iff.1 htraits, hsweep hfactories,
    hsweep htraits, List.foldl_nil]

theorem Reflects.setInitialized {now : Int} {ledger : Ledger} (h : Reflects now ledger store) (initialized : Bool) :
    Reflects now ledger (store.setInitialized initialized) :=
  { h with attributed := h.attributed.setInitialized initialized }

end Store

theorem Settings.ttl_pos (settings : Settings) : 0 < settings.ttl := Store.boundedTtl_pos settings.cacheTimeoutMs

namespace Session

variable {source : Source} {session after : Session} {clock : Clock}

/-! ### Indexing -/

theorem Passes.keeps {moments : Nat → Moment} (hpass : Passes source moments session after) :
    after.watch = session.watch ∧ after.runs = session.runs + 1 := by
  obtain ⟨-, files, completed, hfiles, -, rfl⟩ := hpass
  unfold passOnce startPass
  simp only [hfiles]
  cases files with
  | nil =>
      simp only [List.isEmpty_nil, if_true]
      rw [(finishPass_of_readable (fun _ => moments 0) _ _ _).1]
      exact ⟨watch_finishPass .., runs_finishPass ..⟩
  | cons file rest => exact ⟨watch_finishPass .., runs_finishPass ..⟩

theorem Passes.reflects {moment : Moment} {listed : List RawText} {ttl : Int} (httl : 0 < ttl)
    (hpass : Passes source (fun _ => moment) session after) (hsource : source.ListsInOrder)
    (hlisted : source.list session.settings.factoryPaths = .ok listed)
    (hlifetimes : session.store.lifetimes = ⟨ttl, ttl, ttl⟩) :
    ∃ files, sortByPriority listed session.settings.priorityOrder = .ok files ∧ after.pass = none ∧
      after.store.initialized = true ∧
      after.store.Reflects moment.clock.monotonic ((Ledger.empty ttl).fill moment.clock
        (files.flatMap fun file => (source.outline session.services.blockMode file).factories)
        (files.flatMap fun file => (source.outline session.services.blockMode file).traits)) := by
  obtain ⟨files, hsorted, hidle, hstore⟩ := hpass.store_eq hsource hlisted
  have hblank : session.store.clear.Reflects moment.clock.monotonic (.empty ttl) := by
    have hempty : session.store.lifetimes = (Store.empty ttl).lifetimes := hlifetimes
    rw [Store.clear_eq_of_lifetimes hempty]
    exact .empty httl moment.clock.monotonic
  refine ⟨files, hsorted, hidle, ?_, ?_⟩
  · rw [hstore]
    rfl
  · rw [hstore]
    exact (hblank.fill _ _).setInitialized true

theorem index_of_initialized (hidle : session.pass = none) (hinitialized : session.store.initialized = true)
    (source : Source) (clock : Clock) : session.index source clock false = (session, true) := by
  simp [index, request, hidle, hinitialized]

theorem index_of_not_initialized (hinitialized : session.store.initialized = false) (source : Source) (clock : Clock) :
    session.index source clock false = session.index source clock true := by
  simp [index, request, hinitialized]

theorem index_of_error (hidle : session.pass = none) {failure : Failure}
    (hfiles : filesToIndex source session.settings = .error failure) (clock : Clock) :
    (session.index source clock true).1 =
      ({ session with runs := session.runs + 1, rerun := false } : Session).failPass failure := by
  have hstart : session.startPass source clock =
      ({ session with runs := session.runs + 1, rerun := false } : Session).failPass failure := by
    simp only [startPass, hfiles]
  have hended : (session.startPass source clock).pass = none := by
    rw [hstart]
    rfl
  simp only [index, request, hidle, Option.isSome_none, Bool.false_eq_true, if_false, Bool.not_true, Bool.and_false,
    hended]
  exact hstart

/-- To index anew fails before it has begun, or is a pass. -/
theorem index_forced_cases {settings : Settings} (hidle : session.pass = none)
    (hsetup : session.setup = .ofSettings settings) (source : Source) (moment : Moment) :
    (∃ failure, filesToIndex source settings = .error failure ∧
      (session.index source moment.clock true).1 =
        ({ session with runs := session.runs + 1, rerun := false } : Session).failPass failure) ∨
    Passes source (fun _ => moment) session (session.index source moment.clock true).1 := by
  have hsettings : session.settings = settings := congrArg Setup.settings hsetup
  have hfactories : session.store.factories.lifetime = settings.ttl :=
    congrArg (fun setup => setup.lifetimes.factories) hsetup
  have htraits : session.store.traits.lifetime = settings.ttl :=
    congrArg (fun setup => setup.lifetimes.traits) hsetup
  have hpos := settings.ttl_pos
  cases hfiles : filesToIndex source session.settings with
  | error failure =>
      have hfailed := index_of_error hidle hfiles moment.clock
      rw [hsettings] at hfiles
      exact Or.inl ⟨failure, hfiles, hfailed⟩
  | ok files =>
      exact Or.inr (passes_index hfiles hidle moment (.const (by omega) (by omega) moment))

theorem index_eq_or_forced (hidle : session.pass = none) (source : Source) (clock : Clock) (force : Bool) :
    (session.store.initialized = true ∧ session.index source clock force = (session, true)) ∨
      session.index source clock force = session.index source clock true := by
  cases force with
  | true => exact Or.inr rfl
  | false =>
      cases hinitialized : session.store.initialized with
      | true => exact Or.inl ⟨rfl, index_of_initialized hidle hinitialized source clock⟩
      | false => exact Or.inr (index_of_not_initialized hinitialized source clock)

/-! ### Resolving and cleaning up -/

/-- A session is another one except for its store and what it has reported. How it is set up is a matter of its own. -/
structure SameBut (store : Store) (session after : Session) : Prop where
  store_eq : after.store = store
  pass_eq : after.pass = session.pass
  watch_eq : after.watch = session.watch
  runs_eq : after.runs = session.runs

theorem sameBut_notifyAll (session : Session) (events : List Event) :
    SameBut session.store session (session.notifyAll events) :=
  ⟨store_notifyAll session events, view_notifyAll (fun _ _ => rfl) session events,
    view_notifyAll (fun _ _ => rfl) session events, view_notifyAll (fun _ _ => rfl) session events⟩

/-- The references that a value has, as far as it is a text and there is a pattern for calls. -/
def referencesOf (store : Store) (clock : Clock) (methods : List Value) : Value → List Reference
  | .raw text => (FactoryIndex.resolve store clock methods text.shown.toList).references
  | _ => []

theorem timed_resolve_of_readable (hmeasures : clock.measures = true) (store : Store) (methods : List Value)
    (text : List Char) :
    Store.Timed.resolve clock store methods text = .ok (FactoryIndex.resolve store clock methods text) := by
  simp only [Store.Timed.resolve, hmeasures, Bool.not_true, Bool.false_and, Bool.false_eq_true, if_false]

theorem referencesOf_of_ne_raw {value : Value} (hvalue : ∀ text, value ≠ .raw text) (store : Store) (clock : Clock)
    (methods : List Value) : referencesOf store clock methods value = [] := by
  cases value with
  | raw text => exact absurd rfl (hvalue text)
  | null => rfl
  | bool value => rfl
  | int value => rfl
  | double value => rfl
  | list items => rfl
  | object fields => rfl

theorem references_resolve (hmeasures : clock.measures = true) (value : Value) (session : Session) :
    (session.resolve clock value).2 = if session.store.initialized then
      referencesOf session.store clock (session.services.methods.map .text) value else [] := by
  unfold Session.resolve
  split
  · split
    · simp only [timed_resolve_of_readable hmeasures, referencesOf]
    · next hraw _ => rw [referencesOf_of_ne_raw fun text htext => hraw text htext]
    · next hraw _ => rw [referencesOf_of_ne_raw fun text htext => hraw text htext]
  · rfl

/-- Resolving does nothing to a store but look definitions up. -/
theorem resolve_keeps (hmeasures : clock.measures = true) (value : Value) (session : Session) {motive : Store → Prop}
    (hstep : ∀ store lookup, motive store → motive (store.touch clock lookup)) (hstore : motive session.store) :
    ∃ store, motive store ∧ SameBut store session (session.resolve clock value).1 := by
  have hsame : SameBut session.store session session := ⟨rfl, rfl, rfl, rfl⟩
  have hnotified (event : Event) : SameBut session.store session (session.notify event) :=
    sameBut_notifyAll session [event]
  unfold Session.resolve
  split
  · split
    · next _ _ text =>
      simp only [timed_resolve_of_readable hmeasures]
      have hlooked : motive (FactoryIndex.resolve session.store clock (session.services.methods.map .text)
          text.shown.toList).store := by
        unfold FactoryIndex.resolve
        split
        · exact hstore
        · exact Store.touched_induction hstep hstore _ _
      have hevents := sameBut_notifyAll { session with store := (FactoryIndex.resolve session.store clock
        (session.services.methods.map .text) text.shown.toList).store }
      exact ⟨_, hlooked, (hevents _).store_eq, (hevents _).pass_eq, (hevents _).watch_eq, (hevents _).runs_eq⟩
    · exact ⟨_, hstore, hnotified _⟩
    · exact ⟨_, hstore, hsame⟩
  · exact ⟨_, hstore, hsame⟩

theorem cleanup_of_readable (hmeasures : clock.measures = true) (session : Session) :
    SameBut (session.store.cleanup clock) session (session.cleanup clock).1 := by
  have hcleanup : Store.Timed.cleanup clock session.store =
      (session.store.cleanup clock, .ok (session.store.expiredCount clock)) := by
    rw [Store.Timed.cleanup, if_pos hmeasures]
  refine ⟨?_, ?_, ?_, ?_⟩
  · simp only [cleanup, hcleanup, record]
  · simp only [cleanup, hcleanup, record]
  · simp only [cleanup, hcleanup, record]
  · simp only [cleanup, hcleanup, record]

/-! ### Watching -/

theorem get?_foldl_stamp (source : Source) {β : Type}
    {step : OrderedMap RawText Int × β → RawText → OrderedMap RawText Int × β}
    (hstep : ∀ start file, (step start file).1 =
      match source.modified (.raw file) with
      | .ok time => start.1.insert file time
      | .error _ => start.1)
    (files : List RawText) (start : OrderedMap RawText Int × β) (file : RawText) :
    (files.foldl step start).1.get? file =
      if file ∈ files then (source.modified (.raw file)).toOption.or (start.1.get? file)
      else start.1.get? file := by
  induction files generalizing start with
  | nil => rfl
  | cons first rest ih =>
      rw [List.foldl_cons, ih, hstep]
      by_cases hfirst : file = first
      · subst hfirst
        cases source.modified (.raw file) with
        | ok time => simp [OrderedMap.get?_insert, Except.toOption]
        | error failure => simp [Except.toOption]
      · cases source.modified (.raw first) with
        | ok time => simp [OrderedMap.get?_insert, hfirst]
        | error failure => simp [hfirst]

theorem get?_snapshot (source : Source) (files : List RawText) (file : RawText) :
    (snapshot source files).1.get? file =
      if file ∈ files then (source.modified (.raw file)).toOption else none := by
  unfold snapshot
  rw [get?_foldl_stamp source]
  · rw [OrderedMap.get?_empty, Option.or_none]
  · intro start file
    cases source.modified (.raw file) with
    | ok time => rfl
    | error failure => rfl

def changeBetween (old new : OrderedMap RawText Int) (file : RawText) : Option ChangeKind :=
  match old.get? file, new.get? file with
  | none, some _ => some .created
  | some previous, some time => if previous < time then some .changed else none
  | some _, none => some .deleted
  | none, none => none

theorem mem_changes_iff {old new : OrderedMap RawText Int} {file : RawText} {kind : ChangeKind} :
    (file, kind) ∈ changes old new ↔ changeBetween old new file = some kind := by
  have hpresent : ∀ time, (file, time) ∈ new.entries ↔ new.get? file = some time :=
    fun time => (new.get?_eq_some_iff file time).symm
  have habsent : file ∈ old.keys ↔ old.get? file ≠ none := by
    rw [Ne, old.get?_eq_none_iff, not_not]
  unfold changes changeBetween
  rw [List.mem_append, List.mem_filterMap, List.mem_map]
  constructor
  · rintro (⟨⟨other, time⟩, hmem, hkind⟩ | ⟨other, hmem, heq⟩)
    · have hnew := (new.get?_eq_some_iff other time).2 hmem
      cases hold : old.get? other with
      | none =>
          simp only [hold, Option.some.injEq, Prod.mk.injEq] at hkind
          obtain ⟨rfl, rfl⟩ := hkind
          simp only [hold, hnew]
      | some previous =>
          simp only [hold] at hkind
          split at hkind
          · next hlater =>
            obtain ⟨rfl, rfl⟩ := Prod.mk.inj (Option.some.inj hkind)
            simp only [hold, hnew, if_pos hlater]
          · cases hkind
    · obtain ⟨rfl, rfl⟩ := Prod.mk.inj heq
      obtain ⟨hkey, hgone⟩ := List.mem_filter.1 hmem
      have hnew : new.get? other = none := by simpa [OrderedMap.contains] using hgone
      cases hold : old.get? other with
      | none => exact absurd hold (habsent.1 hkey)
      | some previous => simp only [hnew]
  · intro hkind
    cases hnew : new.get? file with
    | some time =>
        refine Or.inl ⟨(file, time), (hpresent time).2 hnew, ?_⟩
        cases hold : old.get? file with
        | none =>
            simp only [hold, hnew] at hkind
            cases hkind
            simp only [hold]
        | some previous =>
            simp only [hold, hnew] at hkind
            split at hkind
            · next hlater =>
              cases hkind
              simp only [hold, if_pos hlater]
            · cases hkind
    | none =>
        cases hold : old.get? file with
        | none =>
            simp only [hold, hnew] at hkind
            cases hkind
        | some previous =>
            simp only [hold, hnew] at hkind
            cases hkind
            refine Or.inr ⟨file, List.mem_filter.2 ⟨habsent.2 (by simp [hold]), ?_⟩, rfl⟩
            simp [OrderedMap.contains, hnew]

theorem changes_self (times : OrderedMap RawText Int) : changes times times = [] := by
  rw [List.eq_nil_iff_forall_not_mem]
  rintro ⟨file, kind⟩ hmem
  rw [mem_changes_iff, changeBetween] at hmem
  cases hget : times.get? file with
  | none =>
      rw [hget] at hmem
      cases hmem
  | some time =>
      simp only [hget, lt_irrefl, if_false] at hmem
      cases hmem

theorem restartWatch_of_ok (htracks : source.tracksChanges = true) {files : List RawText}
    (hlist : source.list session.watch.patterns = .ok files) :
    session.restartWatch source = ({ session.record (snapshot source files).2 with
      watch := { session.watch with snapshot := (snapshot source files).1 } }, .ok ()) := by
  simp only [restartWatch, htracks, if_true, takeSnapshot, hlist, Except.map, record]

theorem restartWatch_of_error (htracks : source.tracksChanges = true) {failure : Failure}
    (hlist : source.list session.watch.patterns = .error failure) :
    session.restartWatch source = (session, .error failure) := by
  simp only [restartWatch, htracks, if_true, takeSnapshot, hlist, Except.map]

/-- To listen takes a snapshot, unless somebody listens already. -/
theorem ensureListening_cases (here : Surroundings) (project : RawText) (session : Session) :
    (session.watch.listeners ≠ [] ∧ session.ensureListening here project = (session, .ok ())) ∨
    (session.watch.listeners = [] ∧ ∃ failure, (here.source project).list session.watch.patterns = .error failure ∧
      session.ensureListening here project = (session, .error failure)) ∨
    (session.watch.listeners = [] ∧ ∃ files, (here.source project).list session.watch.patterns = .ok files ∧
      session.ensureListening here project =
        ({ session.record (snapshot (here.source project) files).2 with
            watch := ⟨session.watch.patterns, (snapshot (here.source project) files).1, [.session]⟩ }, .ok ())) := by
  have htracks : (here.source project).tracksChanges = true := rfl
  by_cases hlisteners : session.watch.listeners = []
  · right
    cases hlist : (here.source project).list session.watch.patterns with
    | error failure =>
        left
        refine ⟨hlisteners, failure, rfl, ?_⟩
        simp only [ensureListening, listen, hlisteners, List.isEmpty_nil, if_true, restartWatch_of_error htracks hlist]
    | ok files =>
        right
        refine ⟨hlisteners, files, rfl, ?_⟩
        simp only [ensureListening, listen, hlisteners, List.isEmpty_nil, if_true, restartWatch_of_ok htracks hlist,
          List.nil_append]
  · left
    have hsome : session.watch.listeners.isEmpty = false := by
      rw [List.isEmpty_eq_false_iff]
      exact hlisteners
    exact ⟨hlisteners, by simp only [ensureListening, hsome, Bool.false_eq_true, if_false]⟩

theorem poll_of_ok (htracks : source.tracksChanges = true) {files : List RawText}
    (hlist : source.list session.watch.patterns = .ok files) (clock : Clock) :
    session.poll source clock =
      let found := changes session.watch.snapshot (snapshot source files).1
      let told := ({ session.record (snapshot source files).2 with
        watch := { session.watch with snapshot := (snapshot source files).1 } } : Session).tellAll source clock
          (found.flatMap fun change => session.watch.listeners.map fun listener => (change, listener))
      (told.1, told.2.map fun _ => found) := by
  simp only [poll, htracks, if_true, takeSnapshot, hlist, Except.map, record]

/-! ### Taking on the same settings again -/

theorem setTtl_of_lifetimes {store : Store} {milliseconds : Int}
    (hlifetimes : store.lifetimes = ⟨Store.boundedTtl milliseconds, Store.boundedTtl milliseconds,
      Store.boundedTtl milliseconds⟩)
    (hfits : fitsSeconds (Store.boundedTtl milliseconds) = true) :
    store.setTtl (.int milliseconds) = (store, .ok ()) := by
  obtain ⟨ttl, ⟨lifetime, entries⟩, ⟨lifetime', entries'⟩, files, initialized⟩ := store
  obtain ⟨rfl, rfl, rfl⟩ := Lifetimes.mk.inj hlifetimes
  simp only [Store.setTtl, Value.toInt, hfits, if_true]

def blank (settings : Settings) : Session where
  settings := settings
  services := .ofSettings settings
  notifier := { debug := settings.debug }
  store := .empty settings.ttl
  watch := { patterns := settings.factoryPaths }

theorem create_eq_blank {settings : Settings} (hfits : fitsSeconds settings.ttl = true) :
    create settings { debug := settings.debug } settings.factoryPaths = .ok (blank settings) := by
  rw [Settings.ttl] at hfits
  simp only [create, Store.create, Value.toInt, hfits, if_true, Except.map]
  rfl

/-- A session that is set up for settings, and takes them on once more: its index no longer counts, and a watch starts
over. -/
theorem adopt_again {settings : Settings} (hsetup : session.setup = .ofSettings settings)
    (htracks : source.tracksChanges = true) (hadopt : (session.adopt source settings).2 = .ok ()) :
    (session.adopt source settings).1.pass = session.pass ∧
    (session.adopt source settings).1.runs = session.runs ∧
    (session.adopt source settings).1.store = session.store.setInitialized false ∧
    (session.adopt source settings).1.watch.listeners = session.watch.listeners ∧
    (session.watch.listeners ≠ [] → ∃ files, source.list settings.factoryPaths = .ok files ∧
      (session.adopt source settings).1.watch.snapshot = (snapshot source files).1) := by
  obtain ⟨hfits, hlisted⟩ := (adopt_eq_ok_iff settings source session).1 hadopt
  have hstore : session.store.setTtl (.int settings.cacheTimeoutMs) = (session.store, .ok ()) :=
    setTtl_of_lifetimes (congrArg Setup.lifetimes hsetup) hfits
  by_cases hlisteners : session.watch.listeners = []
  · simp only [adopt, hstore, watchPatterns, hlisteners, List.isEmpty_nil, if_true]
    exact ⟨trivial, trivial, trivial, trivial, fun hsome => absurd rfl hsome⟩
  · obtain ⟨files, hlist⟩ := hlisted hlisteners htracks
    have hsome : session.watch.listeners.isEmpty = false := by
      rw [List.isEmpty_eq_false_iff]
      exact hlisteners
    simp only [adopt, hstore, watchPatterns, hsome, Bool.false_eq_true, if_false]
    rw [restartWatch_of_ok htracks hlist]
    exact ⟨rfl, rfl, rfl, rfl, fun _ => ⟨files, hlist, rfl⟩⟩

theorem applySettings_of_adopt {settings : Settings} (hadopt : (session.adopt source settings).2 = .ok ())
    (clock : Clock) :
    session.applySettings source clock settings =
      (((session.adopt source settings).1.index source clock true).1,
        .ok ((session.adopt source settings).1.index source clock true).2) := by
  rw [applySettings, ← Prod.mk.eta (p := session.adopt source settings), hadopt]

end Session

end FactoryIndex
