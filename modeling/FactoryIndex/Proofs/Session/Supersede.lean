import FactoryIndex.Proofs.Session.Reading
import FactoryIndex.Proofs.Session.Setup
import Mathlib.Logic.Relation

/-!
# Requests to index supersede each other

Requests to index and changes of settings arrive whenever they like, also while a pass waits for its files. They are
taken one at a time; in between, reads complete one by one. A `Shared` session is one to which all this happens:
besides its own state there are the passes that wait, as many as there may be, and the marks of what has happened.

At most one pass ever waits. While it does, the store is blank, and a request only leaves word that the pass has to
be followed by another one. So a store that counts as initialized was filled by the last pass that began, and no
request came after that one had begun. The invariant is `Sound`; a step keeps it, and so does every run.
-/

namespace FactoryIndex

/-! ### Blank stores -/

/-- A store without definitions, as it is while a pass waits. -/
structure Store.Blank (store : Store) : Prop where
  factories : store.factories.entries = .empty
  traits : store.traits.entries = .empty
  files : store.files = .empty
  initialized : store.initialized = false

namespace Store

theorem blank_clear (store : Store) : store.clear.Blank := ⟨rfl, rfl, rfl, rfl⟩

theorem Blank.clear_eq {store : Store} (h : store.Blank) : store.clear = store := by
  obtain ⟨ttl, ⟨lifetime, entries⟩, ⟨lifetime', entries'⟩, files, initialized⟩ := store
  obtain ⟨rfl, rfl, rfl, rfl⟩ := h
  rfl

theorem clear_eq_of_lifetimes {a b : Store} (h : a.lifetimes = b.lifetimes) : a.clear = b.clear := by
  obtain ⟨httl, hfactories, htraits⟩ := Lifetimes.mk.inj h
  unfold clear ExpiringMap.clear
  rw [httl, hfactories, htraits]

theorem Blank.setTtl {store : Store} (h : store.Blank) (ttl : Value) : (store.setTtl ttl).1.Blank := by
  unfold Store.setTtl
  split
  · exact h
  · simp only
    split
    · exact ⟨h.factories, h.traits, h.files, h.initialized⟩
    · exact ⟨h.factories, h.traits, h.files, h.initialized⟩

end Store

namespace Session

variable {source : Source} {session : Session} {settings : Settings}

/-! ### A pass alone -/

/-- The store is what a new session with these settings has after a pass of its own. -/
def Alone (source : Source) (settings : Settings) (store : Store) : Prop :=
  ∃ notifier fresh moments after, create settings notifier settings.factoryPaths = .ok fresh ∧
    Passes source moments fresh after ∧ store = after.store

def passUnder (settings : Settings) (files : List RawText) : Pass := ⟨files, settings.batchSize, settings.blockMode⟩

/-- A pass that began under the settings that are still in force ends as if nothing else had happened. -/
theorem alone_finishPass {files : List RawText} {moments : Nat → Moment} {completed : List FileRead}
    (hsetup : session.setup = .ofSettings settings) (hfits : fitsSeconds settings.ttl = true)
    (hblank : session.store.Blank) (hfiles : filesToIndex source settings = .ok files)
    (hcompletes : Outline.Completes settings.batchSize (source.reads files) completed)
    (houtlives : session.store.Outlives moments) :
    Alone source settings
      (session.finishPass (fun n => (moments n).clock) (passUnder settings files) completed).store := by
  obtain ⟨fresh, hcreate⟩ : ∃ fresh, create settings {} settings.factoryPaths = .ok fresh := by
    unfold Settings.ttl at hfits
    simp only [create, Store.create, Value.toInt, hfits, if_true]
    exact ⟨_, rfl⟩
  have hfresh := setup_create hcreate
  obtain ⟨hsettings, hservices, -, -⟩ := Setup.mk.inj hfresh
  have hlifetimes : fresh.store.lifetimes = session.store.lifetimes :=
    congrArg Setup.lifetimes (hfresh.trans hsetup.symm)
  have houtlives' : fresh.store.Outlives moments := by
    obtain ⟨-, hfactories, htraits⟩ := Lifetimes.mk.inj hlifetimes
    intro i j
    rw [hfactories, htraits]
    exact houtlives i j
  rw [← hsettings] at hfiles hcompletes
  refine ⟨{}, fresh, moments, _, hcreate, ⟨houtlives', files, completed, hfiles, hcompletes, rfl⟩, ?_⟩
  have hmode : fresh.services.blockMode = settings.blockMode := by rw [hservices, Services.ofSettings]
  rw [(passOnce_of_ok hfiles hcompletes.perm moments).2, (finishPass_of_readable moments _ completed session).2,
    Store.clear_eq_of_lifetimes hlifetimes, hblank.clear_eq, hmode]
  rfl

/-- What a pass alone leaves does not depend on the order in which its reads complete. -/
theorem Alone.sameIndex {store : Store} (halone : Alone source settings store) (hsource : source.ListsInOrder)
    {notifier : Notifier} {fresh after : Session} {moments : Nat → Moment}
    (hcreate : create settings notifier settings.factoryPaths = .ok fresh)
    (hpass : Passes source moments fresh after) : store.SameIndex after.store := by
  obtain ⟨notifier', fresh', moments', after', hcreate', hpass', rfl⟩ := halone
  obtain ⟨hsettings, hservices, -, -⟩ := Setup.mk.inj (setup_create hcreate)
  obtain ⟨hsettings', hservices', -, -⟩ := Setup.mk.inj (setup_create hcreate')
  obtain ⟨files, -, hfiles, -⟩ := hpass.2
  obtain ⟨listed, hlisted, -⟩ := filesToIndex_eq_ok hfiles
  obtain ⟨sorted, hsorted, hholds⟩ := hpass.holds hsource hlisted
  rw [hsettings] at hlisted hsorted
  obtain ⟨sorted', hsorted', hholds'⟩ := hpass'.holds hsource (hsettings'.symm ▸ hlisted)
  rw [hsettings'] at hsorted'
  obtain rfl : sorted = sorted' := Except.ok.inj (hsorted.symm.trans hsorted')
  rw [hservices] at hholds
  rw [hservices'] at hholds'
  exact hholds'.sameIndex hholds

/-- A pass begins by making the store blank. If there is no file to wait for, it ends right away. -/
theorem startPass_of_ok {files : List RawText} (hfiles : filesToIndex source session.settings = .ok files)
    (clock : Clock) :
    ∃ begun : Session, begun.setup = session.setup ∧ begun.store.Blank ∧ begun.rerun = false ∧
      begun.runs = session.runs + 1 ∧
      begun.pass = some ⟨files, session.settings.batchSize, session.services.blockMode⟩ ∧
      session.startPass source clock =
        if files.isEmpty then
          begun.finishPass (fun _ => clock) ⟨files, session.settings.batchSize, session.services.blockMode⟩ []
        else begun := by
  refine ⟨{ session with
      runs := session.runs + 1
      rerun := false
      store := session.store.clear
      pass := some ⟨files, session.settings.batchSize, session.services.blockMode⟩ },
    rfl, Store.blank_clear _, rfl, rfl, rfl, ?_⟩
  simp only [startPass, hfiles]

/-- A pass that begins either waits, with a blank store, or has no file to wait for and is over. -/
theorem startPass_cases (hsetup : session.setup = .ofSettings session.settings)
    (hfits : fitsSeconds session.settings.ttl = true) {files : List RawText}
    (hfiles : filesToIndex source session.settings = .ok files) (moment : Moment) :
    (session.startPass source moment.clock).rerun = false ∧
    (session.startPass source moment.clock).runs = session.runs + 1 ∧
    (((session.startPass source moment.clock).pass = none ∧
        (session.startPass source moment.clock).store.initialized = true ∧
        Alone source session.settings (session.startPass source moment.clock).store) ∨
      ((session.startPass source moment.clock).pass = some (passUnder session.settings files) ∧
        (session.startPass source moment.clock).store.Blank)) := by
  have hpass : (⟨files, session.settings.batchSize, session.services.blockMode⟩ : Pass) =
      passUnder session.settings files := by
    rw [show session.services = .ofSettings session.settings from congrArg Setup.services hsetup,
      Services.ofSettings, passUnder]
  obtain ⟨begun, hbegun, hblank, hrerun, hruns, hwaits, heq⟩ := startPass_of_ok hfiles moment.clock
  rw [hpass] at heq hwaits
  rw [heq]
  cases files with
  | cons file rest => exact ⟨hrerun, hruns, Or.inr ⟨hwaits, hblank⟩⟩
  | nil =>
      rw [if_pos (by rfl)]
      have hfinish := finishPass_of_readable (fun _ => moment) (passUnder session.settings []) [] begun
      have hrerun' := rerun_finishPass (fun _ => moment) (passUnder session.settings []) [] begun
      have hruns' := runs_finishPass (fun _ => moment.clock) (passUnder session.settings []) [] begun
      refine ⟨hrerun'.trans hrerun, hruns'.trans hruns, Or.inl ⟨hfinish.1, ?_, ?_⟩⟩
      · rw [hfinish.2]
        rfl
      · have hlifetimes := congrArg Setup.lifetimes (hbegun.trans hsetup)
        obtain ⟨-, hfactories, htraits⟩ := Lifetimes.mk.inj hlifetimes
        have hpos : 0 < session.settings.ttl := Store.boundedTtl_pos session.settings.cacheTimeoutMs
        refine alone_finishPass (hbegun.trans hsetup) hfits hblank hfiles ⟨[], ?_, rfl⟩
          (.const (by omega) (by omega) moment)
        simp [Source.reads, Outline.groups]

/-! ### Steps -/

/-- What is worth remembering: that a request to index arrives, and that a pass begins under some settings. -/
inductive Mark where
  | requested
  | began (settings : Settings)

structure Shared where
  session : Session
  waiting : List Reading := []
  marks : List Mark := []

namespace Shared

def ask (source : Source) (clock : Clock) (force : Bool) (shared : Shared) : Shared :=
  let result := shared.session.request source clock force
  { session := result.1
    waiting :=
      match result.2 with
      | none => shared.waiting ++ (result.1.pass.map Reading.start).toList
      | some _ => shared.waiting
    marks := shared.marks ++ .requested ::
      if result.1.runs = shared.session.runs then [] else [.began result.1.settings] }

/-- A pass whose reads have all completed ends. If a request came meanwhile, another one begins in its place. -/
def finish (source : Source) (moments : Nat → Moment) (next : Moment) (reading : Reading) (others : List Reading)
    (shared : Shared) : Shared :=
  let session := shared.session.finishPass (fun n => (moments n).clock) reading.pass reading.completed
  if session.rerun then
    let session := session.startPass source next.clock
    { session := session
      waiting := others ++ (session.pass.map Reading.start).toList
      marks := shared.marks ++ [.began session.settings] }
  else { shared with session := session, waiting := others }

/-- What may happen next, over files that do not change. A request that does not insist on a new index comes while
a pass waits. Settings can be taken on, and the files can be listed and put in order under them. -/
inductive Step (source : Source) : Shared → Shared → Prop
  | ask (shared : Shared) (moment : Moment) (force : Bool)
      (hforce : force = true ∨ shared.session.pass.isSome = true) :
      Step source shared (shared.ask source moment.clock force)
  | adopt (shared : Shared) (moment : Moment) (settings : Settings)
      (hadopt : (shared.session.adopt source settings).2 = .ok ())
      (hlisted : ∃ files, filesToIndex source settings = .ok files) :
      Step source shared
        (({ shared with session := (shared.session.adopt source settings).1 } : Shared).ask source moment.clock true)
  | read (shared : Shared) (before after : List Reading) (reading : Reading) (file : RawText)
      (hwaiting : shared.waiting = before ++ reading :: after) (hawaits : reading.Awaits file) :
      Step source shared { shared with waiting := before ++ reading.take source file :: after }
  | finish (shared : Shared) (before after : List Reading) (reading : Reading) (moments : Nat → Moment)
      (next : Moment) (hwaiting : shared.waiting = before ++ reading :: after) (hpending : reading.pending = [])
      (houtlives : shared.session.store.Outlives moments) :
      Step source shared (shared.finish source moments next reading (before ++ after))

def Reaches (source : Source) : Shared → Shared → Prop := Relation.ReflTransGen (Step source)

/-! ### What every step keeps -/

/-- No pass waits. If there was a request, the last pass began after it, under the settings that are in force, and
the store is what that pass alone would have left. -/
structure Idle (source : Source) (shared : Shared) : Prop where
  pass : shared.session.pass = none
  waiting : shared.waiting = []
  last : (shared.marks = [] ∧ shared.session.store.initialized = false) ∨
    (shared.marks.getLast? = some (.began shared.session.settings) ∧
      shared.session.store.initialized = true ∧ Alone source shared.session.settings shared.session.store)

/-- One pass waits, and the store is blank. -/
structure Waits (source : Source) (shared : Shared) (reading : Reading) : Prop where
  pass : shared.session.pass = some reading.pass
  waiting : shared.waiting = [reading]
  blank : shared.session.store.Blank
  faithful : reading.Faithful source

/-- The pass that waits is the one that would begin now, and no request came after it had begun. -/
def Current (source : Source) (shared : Shared) (reading : Reading) : Prop :=
  shared.marks.getLast? = some (.began shared.session.settings) ∧
    ∃ files, filesToIndex source shared.session.settings = .ok files ∧
      reading.pass = passUnder shared.session.settings files

end Shared

/-- The session is set up for settings under which a pass can begin. -/
structure Ready (source : Source) (session : Session) : Prop where
  setup : session.setup = .ofSettings session.settings
  fits : fitsSeconds session.settings.ttl = true
  listed : ∃ files, filesToIndex source session.settings = .ok files

theorem Ready.of_setup_eq (h : session.Ready source) {after : Session} (hsetup : after.setup = session.setup) :
    after.Ready source := by
  have hsettings : after.settings = session.settings := congrArg Setup.settings hsetup
  refine ⟨?_, ?_, ?_⟩
  · rw [hsettings]
    exact hsetup.trans h.setup
  · rw [hsettings]
    exact h.fits
  · rw [hsettings]
    exact h.listed

/-- To take settings on leaves a pass that waits alone, and a blank store blank. -/
theorem adopt_keeps (source : Source) (settings : Settings) (session : Session) :
    (session.adopt source settings).1.pass = session.pass ∧
      (session.store.Blank → (session.adopt source settings).1.store.Blank) := by
  have hwatch : ∀ (patterns : List RawText) (session after : Session) (outcome : Except Failure Unit),
      session.watchPatterns source patterns = (after, outcome) →
        after.pass = session.pass ∧ after.store = session.store := by
    intro patterns session after outcome hwatched
    obtain rfl : (session.watchPatterns source patterns).1 = after := by rw [hwatched]
    unfold watchPatterns restartWatch takeSnapshot
    simp only
    split
    · exact ⟨rfl, rfl⟩
    · split
      · cases source.list patterns with
        | error failure => exact ⟨rfl, rfl⟩
        | ok files => exact ⟨rfl, rfl⟩
      · exact ⟨rfl, rfl⟩
  unfold adopt
  simp only
  split
  · exact ⟨rfl, fun hblank => hblank.setTtl _⟩
  · split
    · next after failure hwatched =>
      obtain ⟨hpass, hstore⟩ := hwatch _ _ _ _ hwatched
      refine ⟨hpass, fun hblank => ?_⟩
      rw [hstore]
      exact hblank.setTtl _
    · next after hwatched =>
      obtain ⟨hpass, hstore⟩ := hwatch _ _ _ _ hwatched
      refine ⟨hpass, fun hblank => ?_⟩
      have hafter : after.store.Blank := by
        rw [hstore]
        exact hblank.setTtl _
      exact ⟨hafter.factories, hafter.traits, hafter.files, rfl⟩

theorem ready_adopt (hadopt : (session.adopt source settings).2 = .ok ())
    (hlisted : ∃ files, filesToIndex source settings = .ok files) :
    (session.adopt source settings).1.Ready source := by
  have hsetup := setup_adopt hadopt
  have hsettings : (session.adopt source settings).1.settings = settings := congrArg Setup.settings hsetup
  refine ⟨?_, ?_, ?_⟩
  · rw [hsettings]
    exact hsetup
  · rw [hsettings]
    exact ((adopt_eq_ok_iff settings source session).1 hadopt).1
  · rw [hsettings]
    exact hlisted

namespace Shared

structure Sound (source : Source) (shared : Shared) : Prop where
  ready : shared.session.Ready source
  phase : Idle source shared ∨
    ∃ reading, Waits source shared reading ∧ (shared.session.rerun = true ∨ Current source shared reading)

variable {shared : Shared} {reading : Reading}

theorem sound_startPass (hready : session.Ready source) (moment : Moment) (marks : List Mark) :
    Sound source {
      session := session.startPass source moment.clock
      waiting := ((session.startPass source moment.clock).pass.map Reading.start).toList
      marks := marks ++ [.began (session.startPass source moment.clock).settings] } := by
  obtain ⟨files, hfiles⟩ := hready.listed
  have hsettings : (session.startPass source moment.clock).settings = session.settings :=
    congrArg Setup.settings (setup_startPass source moment.clock session)
  obtain ⟨-, -, hphase⟩ := startPass_cases hready.setup hready.fits hfiles moment
  refine ⟨hready.of_setup_eq (setup_startPass ..), ?_⟩
  rcases hphase with ⟨hnone, hinitialized, halone⟩ | ⟨hpass, hblank⟩
  · refine Or.inl ⟨hnone, by simp [hnone], Or.inr ⟨by simp, hinitialized, ?_⟩⟩
    rw [hsettings]
    exact halone
  · refine Or.inr ⟨.start (passUnder session.settings files), ⟨hpass, by simp [hpass], hblank,
      Reading.faithful_start source _⟩, Or.inr ⟨by simp, files, ?_, ?_⟩⟩
    · rw [hsettings]
      exact hfiles
    · rw [hsettings]
      rfl

theorem sound_ask (hready : shared.session.Ready source)
    (hphase : (shared.session.pass = none ∧ shared.waiting = []) ∨ ∃ reading, Waits source shared reading)
    (moment : Moment) {force : Bool} (hforce : force = true ∨ shared.session.pass.isSome = true) :
    Sound source (shared.ask source moment.clock force) := by
  rcases hphase with ⟨hnone, hwaiting⟩ | ⟨reading, hwaits⟩
  · obtain rfl : force = true := hforce.resolve_right (by simp [hnone])
    have hrequest : shared.session.request source moment.clock true =
        (shared.session.startPass source moment.clock,
          if (shared.session.startPass source moment.clock).pass.isSome then none
          else some (shared.session.startPass source moment.clock).store.initialized) := by
      simp [request, hnone]
    obtain ⟨files, hfiles⟩ := hready.listed
    obtain ⟨-, hruns, -⟩ := startPass_cases hready.setup hready.fits hfiles moment
    have hask : shared.ask source moment.clock true =
        { session := shared.session.startPass source moment.clock
          waiting := ((shared.session.startPass source moment.clock).pass.map Reading.start).toList
          marks := (shared.marks ++ [.requested]) ++
            [.began (shared.session.startPass source moment.clock).settings] } := by
      unfold ask
      rw [hrequest]
      cases hpass : (shared.session.startPass source moment.clock).pass with
      | none => simp [hwaiting, hruns]
      | some pass => simp [hwaiting, hruns, hpass]
    rw [hask]
    exact sound_startPass hready moment _
  · have hrequest : shared.session.request source moment.clock force =
        ({ shared.session with rerun := true }, some false) := by
      simp [request, hwaits.pass]
    unfold ask
    rw [hrequest]
    refine ⟨hready.of_setup_eq rfl, Or.inr ⟨reading, ?_, Or.inl rfl⟩⟩
    exact ⟨hwaits.pass, hwaits.waiting, hwaits.blank, hwaits.faithful⟩

theorem Sound.idle_or_waits (h : shared.Sound source) :
    (shared.session.pass = none ∧ shared.waiting = []) ∨ ∃ reading, Waits source shared reading := by
  rcases h.phase with hidle | ⟨reading, hwaits, -⟩
  · exact Or.inl ⟨hidle.pass, hidle.waiting⟩
  · exact Or.inr ⟨reading, hwaits⟩

/-- Whichever pass it is that something happens to, it is the one that waits. -/
theorem Sound.waits_of_mem (h : shared.Sound source) {before after : List Reading}
    (hwaiting : shared.waiting = before ++ reading :: after) :
    before = [] ∧ after = [] ∧ Waits source shared reading ∧
      (shared.session.rerun = true ∨ Current source shared reading) := by
  rcases h.phase with hidle | ⟨other, hwaits, hcurrent⟩
  · rw [hidle.waiting] at hwaiting
    simp at hwaiting
  · rw [hwaits.waiting] at hwaiting
    cases before with
    | nil =>
        obtain ⟨rfl, rfl⟩ := List.cons.inj hwaiting
        exact ⟨rfl, rfl, hwaits, hcurrent⟩
    | cons first rest =>
        have hnil := (List.cons.inj hwaiting).2
        simp at hnil

theorem Sound.step {after : Shared} (h : shared.Sound source) (hstep : Step source shared after) :
    after.Sound source := by
  cases hstep with
  | ask moment force hforce => exact sound_ask h.ready h.idle_or_waits moment hforce
  | adopt moment settings hadopt hlisted =>
      obtain ⟨hpass, hblank⟩ := adopt_keeps source settings shared.session
      refine sound_ask (ready_adopt hadopt hlisted) ?_ moment (Or.inl rfl)
      rcases h.idle_or_waits with ⟨hnone, hwaiting⟩ | ⟨reading, hwaits⟩
      · exact Or.inl ⟨hpass.trans hnone, hwaiting⟩
      · exact Or.inr ⟨reading, hpass.trans hwaits.pass, hwaits.waiting, hblank hwaits.blank, hwaits.faithful⟩
  | read before after reading file hwaiting hawaits =>
      obtain ⟨rfl, rfl, hwaits, hcurrent⟩ := h.waits_of_mem hwaiting
      refine ⟨h.ready, Or.inr ⟨reading.take source file, ?_, hcurrent⟩⟩
      exact ⟨hwaits.pass, rfl, hwaits.blank, hwaits.faithful.take hawaits⟩
  | finish before after reading moments next hwaiting hpending houtlives =>
      obtain ⟨rfl, rfl, hwaits, hcurrent⟩ := h.waits_of_mem hwaiting
      have hready := h.ready.of_setup_eq
        (setup_finishPass (fun n => (moments n).clock) reading.pass reading.completed shared.session)
      have hcompletes := hwaits.faithful.completes hpending
      unfold finish
      simp only [rerun_finishPass]
      by_cases hrerun : shared.session.rerun = true
      · -- The pass is out of date, and what it has filed goes away with the next one.
        rw [if_pos hrerun]
        exact sound_startPass hready next shared.marks
      · rw [if_neg hrerun]
        obtain ⟨hlast, files, hfiles, hpass⟩ := hcurrent.resolve_left hrerun
        obtain ⟨hnone, hstore⟩ := finishPass_of_readable moments reading.pass reading.completed shared.session
        have hsettings : (shared.session.finishPass (fun n => (moments n).clock) reading.pass
            reading.completed).settings = shared.session.settings :=
          congrArg Setup.settings (setup_finishPass ..)
        refine ⟨hready, Or.inl ⟨hnone, rfl, Or.inr ⟨?_, ?_, ?_⟩⟩⟩
        · rw [hsettings]
          exact hlast
        · rw [hstore]
          rfl
        · rw [hsettings, hpass]
          rw [hpass] at hcompletes
          exact alone_finishPass h.ready.setup h.ready.fits hwaits.blank hfiles hcompletes houtlives

theorem Sound.reaches {start : Shared} (h : start.Sound source) (hreaches : Reaches source start shared) :
    shared.Sound source := by
  induction hreaches with
  | refl => exact h
  | tail _ hstep ih => exact ih.step hstep

theorem sound_create {notifier : Notifier} (hcreate : create settings notifier settings.factoryPaths = .ok session)
    (hlisted : ∃ files, filesToIndex source settings = .ok files) : Sound source { session := session } := by
  have hsetup := setup_create hcreate
  simp only [create, Store.create, Value.toInt] at hcreate
  split at hcreate
  · next hfits =>
    cases hcreate
    exact ⟨⟨hsetup, hfits, hlisted⟩, Or.inl ⟨rfl, rfl, Or.inl ⟨rfl, rfl⟩⟩⟩
  · cases hcreate

end Shared

/-- **Requests supersede each other.** In whatever order requests, changes of settings and completions of reads come
to a new session, at most one pass waits. A store that counts as initialized is what a pass alone leaves under the
settings in force. And once nothing waits any more after a request, no pass is under way, a pass began after the last
request under the settings that are in force, and the store is what it alone leaves, in whatever order its reads
complete. -/
theorem passes_supersede {notifier : Notifier}
    (hcreate : create settings notifier settings.factoryPaths = .ok session)
    (hlisted : ∃ files, filesToIndex source settings = .ok files) {shared : Shared}
    (hreaches : Shared.Reaches source { session := session } shared) :
    shared.waiting.length ≤ 1 ∧
    (shared.session.store.initialized = true → Alone source shared.session.settings shared.session.store) ∧
    (shared.waiting = [] → shared.marks ≠ [] →
      shared.session.pass = none ∧ shared.marks.getLast? = some (.began shared.session.settings) ∧
        shared.session.store.initialized = true ∧
        Alone source shared.session.settings shared.session.store ∧
        (source.ListsInOrder → ∀ notifier fresh moments after,
          create shared.session.settings notifier shared.session.settings.factoryPaths = .ok fresh →
          Passes source moments fresh after → shared.session.store.SameIndex after.store)) := by
  have hsound := (Shared.sound_create hcreate hlisted).reaches hreaches
  rcases hsound.phase with hidle | ⟨reading, hwaits, -⟩
  · refine ⟨by simp [hidle.waiting], fun hinitialized => ?_, fun _ hmarks => ?_⟩
    · rcases hidle.last with ⟨-, hnot⟩ | ⟨-, -, halone⟩
      · rw [hnot] at hinitialized
        cases hinitialized
      · exact halone
    · obtain ⟨hlast, hinitialized, halone⟩ := hidle.last.resolve_left fun hnone => hmarks hnone.1
      exact ⟨hidle.pass, hlast, hinitialized, halone, fun hsource _ _ _ _ hfresh hpass =>
        halone.sameIndex hsource hfresh hpass⟩
  · refine ⟨by simp [hwaits.waiting], fun hinitialized => ?_, fun hnil _ => ?_⟩
    · rw [hwaits.blank.initialized] at hinitialized
      cases hinitialized
    · rw [hwaits.waiting] at hnil
      cases hnil

/-- Settings are taken on while the first pass waits: when its read completes the pass is over, another one begins,
and the store is that of the other one. -/
theorem passes_supersede_adopted :
    let text := ['f', 'a', 'c', 't', 'o', 'r', 'y', ' ', ':', 'u', ' ', 'd', 'o']
    let source : Source := { list := fun _ => .ok ["a"], modified := fun _ => .ok 0, read := fun _ => .ok text }
    let settings := { Settings.default with priorityOrder := [], blockMode := .regex }
    let session : Session :=
      { settings := settings
        services := .ofSettings settings
        notifier := {}
        store := .empty 60000
        watch := { patterns := settings.factoryPaths } }
    let other := { settings with cacheTimeout := 120, batchSize := 1 }
    ∃ shared, Shared.Reaches source { session := session } shared ∧
      shared.session.settings.cacheTimeout = other.cacheTimeout ∧ shared.session.runs = 2 ∧ shared.waiting = [] ∧
      shared.marks.getLast? = some (.began shared.session.settings) ∧
      Alone source shared.session.settings shared.session.store := by
  intro text source settings session other
  let moment : Moment := ⟨⟨0, 0⟩, by decide +kernel, by decide +kernel⟩
  let read (shared : Shared) : Shared := { shared with waiting := shared.waiting.map (·.take source "a") }
  let finish (shared : Shared) : Shared :=
    shared.waiting.head?.elim shared fun reading => shared.finish source (fun _ => moment) moment reading []
  have hread : ∀ shared : Shared, shared.waiting.map Reading.pending = [[[.plain "a"]]] →
      Shared.Step source shared (read shared) := by
    intro shared hpending
    obtain ⟨reading, hwaiting, hgroup⟩ := List.map_eq_singleton_iff.1 hpending
    have heq : read shared = { shared with waiting := [] ++ reading.take source "a" :: [] } := by
      simp only [read, hwaiting, List.map_cons, List.map_nil, List.nil_append]
    rw [heq]
    exact .read shared [] [] reading "a" hwaiting ⟨["a"], [], hgroup, by simp⟩
  have hfinish : ∀ shared : Shared, shared.waiting.map Reading.pending = [[]] →
      shared.session.store.Outlives (fun _ => moment) → Shared.Step source shared (finish shared) := by
    intro shared hpending houtlives
    obtain ⟨reading, hwaiting, hnone⟩ := List.map_eq_singleton_iff.1 hpending
    have heq : finish shared = shared.finish source (fun _ => moment) moment reading ([] ++ []) := by
      simp only [finish, hwaiting, List.head?_cons, Option.elim_some, List.append_nil]
    rw [heq]
    exact .finish shared [] [] reading (fun _ => moment) moment hwaiting hnone houtlives
  let started : Shared := ({ session := session } : Shared).ask source moment.clock true
  let adopted : Shared :=
    ({ started with session := (started.session.adopt source other).1 } : Shared).ask source moment.clock true
  have hadopt : (started.session.adopt source other).2 = .ok () := by
    refine (adopt_eq_ok_iff other source started.session).2 ⟨by decide +kernel, fun hlisteners => ?_⟩
    exact absurd (by decide +kernel) hlisteners
  have hlisted : ∀ settings : Settings, settings.priorityOrder = [] →
      ∃ files, filesToIndex source settings = .ok files := by
    intro settings hpriority
    unfold filesToIndex sortByPriority
    rw [hpriority]
    exact ⟨_, rfl⟩
  have houtlives : ∀ store : Store, 0 ≤ store.factories.lifetime ∧ 0 ≤ store.traits.lifetime →
      store.Outlives fun _ => moment := fun store hstore => .const hstore.1 hstore.2 moment
  have hreaches : Shared.Reaches source { session := session } (finish (read (finish (read adopted)))) := by
    refine .tail (.tail (.tail (.tail (.tail (.tail .refl (.ask _ moment true (Or.inl rfl)))
      (.adopt _ moment other hadopt (hlisted other rfl))) (hread _ ?_)) (hfinish _ ?_ (houtlives _ ?_)))
      (hread _ ?_)) (hfinish _ ?_ (houtlives _ ?_))
    all_goals decide +kernel
  have hstore : Store.create (.int 60000) = .ok (.empty 60000) := by rfl
  have hcreate : create settings {} settings.factoryPaths = .ok session := congrArg (Except.map _) hstore
  have hwaiting : (finish (read (finish (read adopted)))).waiting = [] :=
    List.map_eq_nil_iff.1 (by decide +kernel : List.map Reading.pending _ = [])
  have hmarks : (finish (read (finish (read adopted)))).marks.length = 4 := by decide +kernel
  obtain ⟨-, hlast, -, halone, -⟩ := (passes_supersede hcreate (hlisted settings rfl) hreaches).2.2 hwaiting
    (fun hnil => by rw [hnil] at hmarks; cases hmarks)
  exact ⟨_, hreaches, by decide +kernel, by decide +kernel, hwaiting, hlast, halone⟩

end Session

end FactoryIndex
