import FactoryIndex.Proofs.Store.FirstWins
import FactoryIndex.Request.Registry

/-!
# How a session is set up

The settings of a session show in five places: they are kept as such, the services are built from them, the store
and its two maps have their time to live, and the watch has their globs. Together these are the `Setup` of a
session. Nothing that a session does besides taking on settings touches any of it, whether it succeeds or fails,
and to take settings on without a failure sets up all of it.
-/

namespace FactoryIndex

/-! ### How long a store keeps definitions -/

/-- The time to live that a store tells, and those that its maps go by. -/
structure Lifetimes where
  ttl : Int
  factories : Int
  traits : Int

def Store.lifetimes (store : Store) : Lifetimes := ⟨store.ttl, store.factories.lifetime, store.traits.lifetime⟩

namespace Store

theorem lifetimes_updateFile (store : Store) (file : RawText) (change : FileEntry → FileEntry) :
    (store.updateFile file change).lifetimes = store.lifetimes := by
  unfold updateFile
  split <;> rfl

theorem lifetimes_touchFactory (clock : Clock) (store : Store) (name : String) :
    (store.touchFactory clock name).lifetimes = store.lifetimes := by
  unfold touchFactory
  split <;> rfl

theorem lifetimes_touchTrait (clock : Clock) (store : Store) (factory name : String) :
    (store.touchTrait clock factory name).lifetimes = store.lifetimes := by
  simp only [touchTrait]
  split <;> rfl

theorem lifetime_foldl_erase {α : Type} (keys : List String) (m : ExpiringMap α) :
    (keys.foldl ExpiringMap.erase m).lifetime = m.lifetime := by
  apply OrderedMap.view_foldl ExpiringMap.lifetime
  exact fun _ _ => rfl

@[simp]
theorem lifetimes_removeFile (store : Store) (file : RawText) :
    (store.removeFile file).lifetimes = store.lifetimes := by
  unfold removeFile
  split
  · simp [lifetimes, lifetime_foldl_erase]
  · rfl

/-- What sweeping both maps and forgetting one definition keep is kept by cleaning up. -/
theorem view_cleanup {β : Type} {view : Store → β}
    (hfactory : ∀ store key, view (forgetFactory store key) = view store)
    (htrait : ∀ store key, view (forgetTrait store key) = view store) (clock : Clock) (store : Store)
    (hsweep : view { store with
      factories := store.factories.sweep clock.monotonic
      traits := store.traits.sweep clock.monotonic } = view store) :
    view (store.cleanup clock) = view store :=
  (OrderedMap.view_foldl view htrait _ _).trans ((OrderedMap.view_foldl view hfactory _ _).trans hsweep)

theorem lifetimes_cleanup (clock : Clock) (store : Store) : (store.cleanup clock).lifetimes = store.lifetimes :=
  view_cleanup (fun _ _ => rfl) (fun _ _ => rfl) clock store rfl

namespace Timed

theorem lifetimes_each {α β : Type} {step : Store → α → Store × Except Failure β}
    (hstep : ∀ store item, (step store item).1.lifetimes = store.lifetimes) (store : Store) (items : List α) :
    (each step store items).1.lifetimes = store.lifetimes := by
  induction items generalizing store with
  | nil => rfl
  | cons item rest ih =>
      have hitem := hstep store item
      unfold each
      split
      · next after _ hafter =>
        rw [hafter] at hitem
        exact (ih after).trans hitem
      · next after failure hafter =>
        rw [hafter] at hitem
        exact hitem

theorem lifetimes_ensureFile (clock : Clock) (store : Store) (file : RawText) (change : FileEntry → FileEntry) :
    (ensureFile clock store file change).1.lifetimes = store.lifetimes := by
  unfold ensureFile
  split <;> rfl

/-- A definition is written if the clock that measures time can be read; way is made for it in any case. -/
theorem lifetimes_upsert {α : Type} (kind : Kind α) (clock : Clock) (store : Store) (value : α) {put : Store}
    (hput : put.lifetimes = (kind.release store value).lifetimes) (file : RawText)
    (change : FileEntry → FileEntry) (failure : Failure) :
    (if clock.measures = true then ensureFile clock put file change
      else (kind.release store value, .error failure)).1.lifetimes = store.lifetimes := by
  have hrelease : (kind.release store value).lifetimes = store.lifetimes :=
    view_release Store.lifetimes (fun _ _ _ => lifetimes_updateFile ..) store value
  split
  · exact (lifetimes_ensureFile ..).trans (hput.trans hrelease)
  · exact hrelease

theorem lifetimes_upsertFactory (clock : Clock) (store : Store) (factory : Factory) :
    (upsertFactory clock store factory).1.lifetimes = store.lifetimes := by
  rw [upsertFactory, releaseFactory_eq]
  apply lifetimes_upsert .factory clock store factory
  rfl

theorem lifetimes_upsertTrait (clock : Clock) (store : Store) (t : Trait) :
    (upsertTrait clock store t).1.lifetimes = store.lifetimes := by
  rw [upsertTrait, releaseTrait_eq]
  apply lifetimes_upsert .trait clock store t
  rfl

theorem lifetimes_findFactory (clock : Clock) (store : Store) (name : String) :
    (findFactory clock store name).1.lifetimes = store.lifetimes := by
  unfold findFactory
  split
  · exact lifetimes_touchFactory clock store name
  · rfl

theorem lifetimes_findTrait (clock : Clock) (store : Store) (factory name : String) :
    (findTrait clock store factory name).1.lifetimes = store.lifetimes := by
  unfold findTrait
  split
  · exact lifetimes_touchTrait clock store factory name
  · rfl

theorem lifetimes_addFactory (clock : Clock) (store : Store) (factory : Factory) :
    (addFactory clock store factory).1.lifetimes = store.lifetimes := by
  have hfind := lifetimes_findFactory clock store factory.name
  unfold addFactory
  split
  · next hfound => rwa [hfound] at hfind
  · next hfound => rwa [hfound] at hfind
  · next after hfound =>
    rw [hfound] at hfind
    exact (lifetimes_upsertFactory clock after factory).trans hfind

theorem lifetimes_addTrait (clock : Clock) (store : Store) (t : Trait) :
    (addTrait clock store t).1.lifetimes = store.lifetimes := by
  have hfind := lifetimes_findTrait clock store t.factory t.name
  unfold addTrait
  split
  · next hfound => rwa [hfound] at hfind
  · next hfound => rwa [hfound] at hfind
  · next after hfound =>
    rw [hfound] at hfind
    exact (lifetimes_upsertTrait clock after t).trans hfind

theorem lifetimes_replaceFile (clock : Clock) (store : Store) (file : RawText) (factories : List Factory)
    (traits : List Trait) (modified : Option Int) :
    (replaceFile clock store file factories traits modified).1.lifetimes = store.lifetimes := by
  have hfactories := (lifetimes_each (lifetimes_upsertFactory clock) (store.removeFile file) factories).trans
    (lifetimes_removeFile store file)
  unfold replaceFile
  cases hfirst : each (upsertFactory clock) (store.removeFile file) factories with
  | mk middle outcome =>
      rw [hfirst] at hfactories
      cases outcome with
      | error failure => exact hfactories
      | ok _ =>
          have htraits := (lifetimes_each (lifetimes_upsertTrait clock) middle traits).trans hfactories
          cases hsecond : each (upsertTrait clock) middle traits with
          | mk after outcome =>
              rw [hsecond] at htraits
              cases outcome with
              | error failure => simpa only [hsecond] using htraits
              | ok _ =>
                  simp only [hsecond]
                  split
                  · exact htraits
                  · exact htraits

theorem lifetimes_timed_cleanup (clock : Clock) (store : Store) :
    (cleanup clock store).1.lifetimes = store.lifetimes := by
  unfold cleanup
  split
  · exact Store.lifetimes_cleanup clock store
  · rfl

theorem lifetimes_resolve {clock : Clock} {store : Store} {methods : List Value} {text : List Char}
    {resolution : Resolution} (hresolve : resolve clock store methods text = .ok resolution) :
    resolution.store.lifetimes = store.lifetimes := by
  have htouch (lookup : Lookup) (store : Store) : (store.touch clock lookup).lifetimes = store.lifetimes := by
    cases lookup with
    | factory name => exact lifetimes_touchFactory clock store name
    | trait factory name => exact lifetimes_touchTrait clock store factory name
  simp only [resolve] at hresolve
  generalize (!clock.measures && _) = fails at hresolve
  cases fails with
  | true => cases hresolve
  | false =>
      cases hresolve
      unfold FactoryIndex.resolve
      split
      · rfl
      · apply OrderedMap.view_foldl Store.lifetimes
        exact fun store question => htouch question.lookup store

end Timed

end Store

/-! ### Sessions -/

/-- Everything in a session that depends on its settings. -/
structure Setup where
  settings : Settings
  services : Services
  lifetimes : Lifetimes
  patterns : List RawText

def Settings.ttl (settings : Settings) : Int := Store.boundedTtl settings.cacheTimeoutMs

def Setup.ofSettings (settings : Settings) : Setup where
  settings := settings
  services := .ofSettings settings
  lifetimes := ⟨settings.ttl, settings.ttl, settings.ttl⟩
  patterns := settings.factoryPaths

namespace Session

def setup (session : Session) : Setup :=
  ⟨session.settings, session.services, session.store.lifetimes, session.watch.patterns⟩

variable {session : Session}

theorem setup_notifyAll (session : Session) (events : List Event) :
    (session.notifyAll events).setup = session.setup := by
  induction events generalizing session with
  | nil => rfl
  | cons event rest ih => exact ih (session.notify event)

theorem setup_of_store (session : Session) {store : Store} (hstore : store.lifetimes = session.store.lifetimes) :
    { session with store := store }.setup = session.setup := by
  simp only [setup, hstore]

theorem lifetimes_fileOutline (clock : Nat → Clock) (files : List RawText) (outline : Outline) (store : Store) :
    (fileOutline clock files outline store).1.lifetimes = store.lifetimes := by
  have hfactories := Store.Timed.lifetimes_each
    (fun store (item : Factory × Nat) => Store.Timed.lifetimes_addFactory (clock item.2) store item.1) store
    (byRank files (fun factory => factory.location.file) outline.factories).zipIdx
  simp only [fileOutline]
  split
  · next after failure hafter =>
    rw [hafter] at hfactories
    exact hfactories
  · next after hafter =>
    rw [hafter] at hfactories
    exact (Store.Timed.lifetimes_each
      (fun store (item : Trait × Nat) => Store.Timed.lifetimes_addTrait (clock item.2) store item.1) after _).trans
      hfactories

theorem setup_finishPass (clock : Nat → Clock) (pass : Pass) (completed : List FileRead) (session : Session) :
    (session.finishPass clock pass completed).setup = session.setup := by
  have hstore := lifetimes_fileOutline clock pass.files (Outline.ofCompleted pass.blockMode completed).1
    (session.notifyAll (Outline.ofCompleted pass.blockMode completed).2).store
  have hevents := setup_notifyAll session (Outline.ofCompleted pass.blockMode completed).2
  simp only [finishPass]
  split
  · next store hfiled =>
    rw [hfiled] at hstore
    exact (setup_of_store _ hstore).trans hevents
  · next store failure hfiled =>
    rw [hfiled] at hstore
    exact (setup_of_store _ hstore).trans hevents

theorem setup_startPass (source : Source) (clock : Clock) (session : Session) :
    (session.startPass source clock).setup = session.setup := by
  simp only [startPass]
  split
  · rfl
  · split
    · exact (setup_finishPass ..).trans rfl
    · rfl

theorem setup_request (source : Source) (clock : Clock) (force : Bool) (session : Session) :
    (session.request source clock force).1.setup = session.setup := by
  simp only [request]
  split
  · rfl
  · split
    · rfl
    · exact setup_startPass source clock session

theorem setup_resume (source : Source) (clock : Clock) (session : Session) :
    (session.resume source clock).setup = session.setup := by
  simp only [resume]
  split
  · rfl
  · split
    · exact (setup_startPass ..).trans (setup_finishPass ..)
    · exact setup_finishPass ..

theorem setup_index (source : Source) (clock : Clock) (force : Bool) (session : Session) :
    (session.index source clock force).1.setup = session.setup := by
  have hrequest := setup_request source clock force session
  simp only [index]
  split
  · exact hrequest
  · exact (setup_resume ..).trans ((setup_resume ..).trans hrequest)

theorem setup_removeFile (file : Value) (session : Session) :
    (session.removeFile file).1.setup = session.setup := by
  unfold removeFile
  split
  · exact setup_of_store session (Store.lifetimes_removeFile ..)
  · rfl
  · rfl
  · rfl

theorem setup_reindex (clock : Clock) (file : RawText) (modified : Int) (read : FileRead) (session : Session) :
    (session.reindex clock file modified read).1.setup = session.setup := by
  unfold reindex
  split
  · rfl
  · next outline events _ =>
    have hstore := Store.Timed.lifetimes_replaceFile clock (session.notifyAll events).store file outline.factories
      outline.traits (some modified)
    have hsetup := (setup_of_store _ hstore).trans (setup_notifyAll session events)
    simp only
    split
    · exact hsetup
    · exact hsetup

theorem setup_startChange (source : Source) (file kind : Value) (session : Session) :
    (session.startChange source file kind).1.setup = session.setup := by
  unfold startChange
  split
  · rfl
  · exact setup_removeFile file session
  · split
    · split
      · exact setup_removeFile file _
      · rfl
    · split <;> rfl

/-- To handle a change is to begin, and then to read the file if it must be read. -/
theorem handleChange_induction {motive : Session → Prop} {source : Source} {clock : Clock} {file kind : Value}
    (hstart : motive (session.startChange source file kind).1)
    (hreindex : ∀ (started : Session) (name : RawText) (modified : Int) (read : FileRead),
      motive started → motive (started.reindex clock name modified read).1) :
    motive (session.handleChange source clock file kind).1 := by
  unfold handleChange
  cases hprogress : session.startChange source file kind with
  | mk started outcome =>
      rw [hprogress] at hstart
      cases outcome with
      | error failure => exact hstart
      | ok progress =>
          cases progress with
          | settled reindexed => exact hstart
          | reading name modified => exact hreindex started name modified _ hstart

theorem setup_handleChange (source : Source) (clock : Clock) (file kind : Value) (session : Session) :
    (session.handleChange source clock file kind).1.setup = session.setup := by
  apply handleChange_induction (motive := fun after => after.setup = session.setup)
  · exact setup_startChange source file kind session
  · intro started name modified read hstarted
    exact (setup_reindex clock name modified read started).trans hstarted

theorem setup_takeSnapshot {source : Source} {after : Session} {times : OrderedMap RawText Int}
    (htake : session.takeSnapshot source = .ok (after, times)) : after.setup = session.setup := by
  unfold takeSnapshot at htake
  cases hlist : source.list session.watch.patterns with
  | error failure =>
      rw [hlist] at htake
      cases htake
  | ok files =>
      rw [hlist] at htake
      cases htake
      rfl

theorem setup_restartWatch (source : Source) (session : Session) :
    (session.restartWatch source).1.setup = session.setup := by
  unfold restartWatch
  split
  · split
    · rfl
    · next after times htake =>
      have hafter := setup_takeSnapshot htake
      exact hafter
  · rfl

theorem setup_listen (source : Source) (listener : Listener) (session : Session) :
    (session.listen source listener).1.setup = session.setup := by
  have hrestart := setup_restartWatch source session
  unfold listen
  by_cases hfirst : session.watch.listeners.isEmpty = true
  · simp only [if_pos hfirst]
    split
    · exact hrestart
    · exact hrestart
  · simp only [if_neg hfirst]
    rfl

theorem setup_tellAll (source : Source) (clock : Clock) (calls : List ((RawText × ChangeKind) × Listener))
    (session : Session) : (session.tellAll source clock calls).1.setup = session.setup := by
  induction calls generalizing session with
  | nil => rfl
  | cons call rest ih =>
      have htell : (session.tell source clock call.1 call.2).1.setup = session.setup := by
        cases call.2 with
        | session => exact setup_handleChange ..
        | notes => rfl
      unfold tellAll
      split
      · next after hafter =>
        rw [hafter] at htell
        exact (ih after).trans htell
      · next after failure hafter =>
        rw [hafter] at htell
        exact htell

theorem setup_poll (source : Source) (clock : Clock) (session : Session) :
    (session.poll source clock).1.setup = session.setup := by
  unfold poll
  split
  · split
    · rfl
    · next after times htake =>
      have hafter := setup_takeSnapshot htake
      exact (setup_tellAll ..).trans hafter
  · rfl

theorem setup_resolve (clock : Clock) (value : Value) (session : Session) :
    (session.resolve clock value).1.setup = session.setup := by
  unfold resolve
  split
  · split
    · split
      · next hresolve =>
        rw [setup_notifyAll]
        exact setup_of_store session (Store.Timed.lifetimes_resolve hresolve)
      · rfl
    · rfl
    · rfl
  · rfl

theorem setup_cleanup (clock : Clock) (session : Session) : (session.cleanup clock).1.setup = session.setup :=
  setup_of_store session (Store.Timed.lifetimes_timed_cleanup clock session.store)

end Session

/-! ### Taking on settings -/

namespace Session

variable {session : Session} {settings : Settings} {source : Source}

theorem setup_create {notifier : Notifier}
    (hcreate : create settings notifier settings.factoryPaths = .ok session) :
    session.setup = .ofSettings settings := by
  simp only [create, Store.create, Value.toInt] at hcreate
  split at hcreate
  · cases hcreate
    rfl
  · cases hcreate

theorem setup_watchPatterns {patterns : List RawText} {after : Session} {outcome : Except Failure Unit}
    (hwatch : session.watchPatterns source patterns = (after, outcome)) :
    after.setup = { session.setup with patterns := patterns } := by
  have hafter : (session.watchPatterns source patterns).1.setup = { session.setup with patterns := patterns } := by
    simp only [watchPatterns]
    split
    · rfl
    · exact setup_restartWatch ..
  rwa [hwatch] at hafter

/-- A watch that is active needs a new snapshot, so the new globs must be fit to list files by. -/
theorem watchPatterns_eq_ok_iff {patterns : List RawText} {after : Session} {outcome : Except Failure Unit}
    (hwatch : session.watchPatterns source patterns = (after, outcome)) :
    outcome = .ok () ↔ (session.watch.listeners ≠ [] → source.tracksChanges = true →
      ∃ files, source.list patterns = .ok files) := by
  obtain rfl : (session.watchPatterns source patterns).2 = outcome := by rw [hwatch]
  unfold watchPatterns restartWatch takeSnapshot
  by_cases hlisteners : session.watch.listeners = []
  · simp [hlisteners]
  · cases htracks : source.tracksChanges with
    | false => simp [hlisteners]
    | true =>
        cases hlist : source.list patterns with
        | error failure => simp [hlisteners, hlist, Except.map]
        | ok files => simp [hlisteners, hlist, Except.map]

theorem adopt_eq_ok_iff (settings : Settings) (source : Source) (session : Session) :
    (session.adopt source settings).2 = .ok () ↔
      fitsSeconds settings.ttl = true ∧ (session.watch.listeners ≠ [] → source.tracksChanges = true →
        ∃ files, source.list settings.factoryPaths = .ok files) := by
  unfold adopt Store.setTtl Settings.ttl
  simp only [Value.toInt]
  cases hfits : fitsSeconds (Store.boundedTtl settings.cacheTimeoutMs) with
  | false => simp
  | true =>
      simp only [if_true, true_and]
      split
      · next after failure hwatch =>
        have hiff := watchPatterns_eq_ok_iff hwatch
        exact hiff
      · next after hwatch =>
        have hiff := watchPatterns_eq_ok_iff hwatch
        exact hiff

/-- Settings that are taken on without a failure show everywhere. -/
theorem setup_adopt (hadopt : (session.adopt source settings).2 = .ok ()) :
    (session.adopt source settings).1.setup = .ofSettings settings := by
  have hfits := ((adopt_eq_ok_iff settings source session).1 hadopt).1
  unfold Settings.ttl at hfits
  unfold adopt Store.setTtl at *
  simp only [Value.toInt, hfits, if_true] at *
  split at hadopt
  · cases hadopt
  · next after hwatch =>
    obtain ⟨hsettings, -, hlifetimes, hpatterns⟩ := Setup.mk.inj (setup_watchPatterns hwatch)
    simp only [setup, Setup.ofSettings, Setup.mk.injEq]
    exact ⟨hsettings, trivial, hlifetimes, hpatterns⟩

end Session

end FactoryIndex
