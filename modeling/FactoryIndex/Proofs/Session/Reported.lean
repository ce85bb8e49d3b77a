import FactoryIndex.Proofs.Session.Overlap
import FactoryIndex.Proofs.Session.Polling
import FactoryIndex.Proofs.Store.Exchange

/-!
# The changes that a poll reports

A poll reports a file whose time is later than in the last snapshot, and then the session looks at the file again only
if its time is later than that of its entry. These are two notions of what is later. A change brings the time of the
file into its entry, but a pass stamps the entries it makes with the time of day. So a file that was modified since the
snapshot, but not after the pass, is reported and left as it was; and as the snapshot has moved on, it is not reported
again.

Here a session may be in any state that its operations lead to, also with passes and changes under way side by side. All
that a poll relies on is that the store notes what it holds. The changes are then told one by one. Which of them are
applied is settled by the entries there were before the poll, since a change concerns the entry of its own file only.
-/

namespace FactoryIndex

namespace Session

/-! ### States of a session -/

/-- The states that operations lead to from a new session. Each operation meets files of its own and takes place at a
moment of its own. What waits for a read is taken apart: a pass ends, and a change is applied, with whatever has been
read. -/
inductive Reachable : Session → Prop
  | start {settings : Settings} {notifier : Notifier} {patterns : List RawText} {session : Session}
      (hcreate : create settings notifier patterns = .ok session) : Reachable session
  | request {session : Session} (source : Source) (moment : Moment) (force : Bool) (h : Reachable session) :
      Reachable (session.request source moment.clock force).1
  | finishPass {session : Session} (moments : Nat → Moment) (pass : Pass) (completed : List FileRead)
      (h : Reachable session) : Reachable (session.finishPass (fun n => (moments n).clock) pass completed)
  | startPass {session : Session} (source : Source) (moment : Moment) (h : Reachable session) :
      Reachable (session.startPass source moment.clock)
  | startChange {session : Session} (source : Source) (file kind : Value) (h : Reachable session) :
      Reachable (session.startChange source file kind).1
  | reindex {session : Session} (moment : Moment) (file : RawText) (modified : Int) (read : FileRead)
      (h : Reachable session) : Reachable (session.reindex moment.clock file modified read).1
  | listen {session : Session} (source : Source) (listener : Listener) (h : Reachable session) :
      Reachable (session.listen source listener).1
  | poll {session : Session} (source : Source) (moment : Moment) (h : Reachable session) :
      Reachable (session.poll source moment.clock).1
  | resolve {session : Session} (moment : Moment) (value : Value) (h : Reachable session) :
      Reachable (session.resolve moment.clock value).1
  | find {session : Session} (moment : Moment) (name : String) (h : Reachable session) :
      Reachable (session.find moment.clock name).1
  | cleanup {session : Session} (moment : Moment) (h : Reachable session) :
      Reachable (session.cleanup moment.clock).1
  | adopt {session : Session} (source : Source) (settings : Settings) (h : Reachable session) :
      Reachable (session.adopt source settings).1

variable {source : Source} {session : Session}

theorem Reachable.resume (source : Source) (moment : Moment) (h : session.Reachable) :
    (session.resume source moment.clock).Reachable := by
  unfold Session.resume
  split
  · exact h
  · next pass _ =>
    have hfinished := h.finishPass (fun _ => moment) pass (Outline.completed pass.batchSize (source.reads pass.files))
    simp only
    split
    · exact hfinished.startPass source moment
    · exact hfinished

/-- To index a project is to ask for it and to wait for two passes at most. -/
theorem Reachable.index (source : Source) (moment : Moment) (force : Bool) (h : session.Reachable) :
    (session.index source moment.clock force).1.Reachable := by
  have hrequested := h.request source moment force
  unfold Session.index
  cases hrequest : session.request source moment.clock force with
  | mk asked answer =>
      rw [hrequest] at hrequested
      cases answer with
      | some answer => exact hrequested
      | none => exact (hrequested.resume source moment).resume source moment

/-! ### A session notes what it holds -/

section Attributed

theorem attributed_startPass (source : Source) (moment : Moment) (h : session.store.Attributed) :
    (session.startPass source moment.clock).store.Attributed := by
  cases hfiles : filesToIndex source session.settings with
  | ok files => exact (mirrors_startPass hfiles moment).1
  | error failure =>
      have hstart : session.startPass source moment.clock =
          { session with runs := session.runs + 1, rerun := false }.failPass failure := by
        simp only [startPass, hfiles]
      rw [hstart]
      exact h

theorem attributed_request (source : Source) (moment : Moment) (force : Bool) (h : session.store.Attributed) :
    (session.request source moment.clock force).1.store.Attributed := by
  unfold request
  split
  · exact h
  · split
    · exact h
    · exact attributed_startPass source moment h

theorem attributed_startChange (source : Source) (file kind : Value) (h : session.store.Attributed) :
    (session.startChange source file kind).1.store.Attributed := by
  rcases (startChange_cases source file kind session).2 with hsame | ⟨name, hremoved⟩
  · rw [hsame]
    exact h
  · rw [hremoved]
    exact h.removeFile name

theorem attributed_reindex (moment : Moment) (file : RawText) (modified : Int) (read : FileRead)
    (h : session.store.Attributed) : (session.reindex moment.clock file modified read).1.store.Attributed := by
  rcases store_reindex moment file modified read session with ⟨-, hsame⟩ | hreplaced
  · rw [hsame]
    exact h
  · rw [hreplaced]
    exact h.replaceFile ..

theorem attributed_handleChange (source : Source) (moment : Moment) (file kind : Value) (h : session.store.Attributed) :
    (session.handleChange source moment.clock file kind).1.store.Attributed := by
  apply handleChange_induction (motive := fun after => after.store.Attributed)
  · exact attributed_startChange source file kind h
  · intro started name modified read hstarted
    exact attributed_reindex moment name modified read hstarted

theorem attributed_tellAll (source : Source) (moment : Moment) (calls : List ((RawText × ChangeKind) × Listener))
    (h : session.store.Attributed) : (session.tellAll source moment.clock calls).1.store.Attributed := by
  induction calls generalizing session with
  | nil => exact h
  | cons call rest ih =>
      obtain ⟨change, listener⟩ := call
      have htell : (session.tell source moment.clock change listener).1.store.Attributed := by
        cases listener with
        | notes => exact h
        | session => exact attributed_handleChange source moment _ _ h
      unfold tellAll
      cases htold : session.tell source moment.clock change listener with
      | mk told outcome =>
          rw [htold] at htell
          cases outcome with
          | ok _ => exact ih htell
          | error failure => exact htell

theorem store_of_takeSnapshot {started : Session} {times : OrderedMap RawText Int}
    (htake : session.takeSnapshot source = .ok (started, times)) : started.store = session.store := by
  unfold takeSnapshot at htake
  cases hlist : source.list session.watch.patterns with
  | error failure =>
      rw [hlist] at htake
      cases htake
  | ok files =>
      rw [hlist] at htake
      cases htake
      rfl

theorem attributed_poll (source : Source) (moment : Moment) (h : session.store.Attributed) :
    (session.poll source moment.clock).1.store.Attributed := by
  unfold poll
  split
  · split
    · exact h
    · next started times htake =>
      apply attributed_tellAll
      show started.store.Attributed
      rw [store_of_takeSnapshot htake]
      exact h
  · exact h

theorem store_restartWatch (source : Source) (session : Session) :
    (session.restartWatch source).1.store = session.store := by
  unfold restartWatch
  split
  · split
    · rfl
    · next started times htake =>
      show started.store = session.store
      exact store_of_takeSnapshot htake
  · rfl

theorem store_listen (source : Source) (listener : Listener) (session : Session) :
    (session.listen source listener).1.store = session.store := by
  have hrestart := store_restartWatch source session
  unfold listen
  by_cases hfirst : session.watch.listeners.isEmpty = true
  · simp only [if_pos hfirst]
    split
    · exact hrestart
    · exact hrestart
  · simp only [if_neg hfirst]

theorem store_watchPatterns (source : Source) (patterns : List RawText) (session : Session) :
    (session.watchPatterns source patterns).1.store = session.store := by
  simp only [watchPatterns]
  split
  · rfl
  · exact store_restartWatch source _

theorem attributed_adopt (source : Source) (settings : Settings) (h : session.store.Attributed) :
    (session.adopt source settings).1.store.Attributed := by
  have httl := h.setTtl (.int settings.cacheTimeoutMs)
  have hwatched (session : Session) : (session.watchPatterns source settings.factoryPaths).1.store = session.store :=
    store_watchPatterns source settings.factoryPaths session
  unfold adopt
  simp only
  split
  · exact httl
  · next hset =>
    split
    · next started failure hstarted =>
      rw [show started = _ from (congrArg Prod.fst hstarted).symm, hwatched]
      exact httl
    · next started hstarted =>
      apply Store.Attributed.setInitialized
      rw [show started = _ from (congrArg Prod.fst hstarted).symm, hwatched]
      exact httl

theorem attributed_of_reachable (hsession : session.Reachable) : session.store.Attributed := by
  induction hsession with
  | start hcreate => exact (Busy.sound_create hcreate).attributed
  | request source moment force _ ih => exact attributed_request source moment force ih
  | finishPass moments pass completed _ ih => exact attributed_finishPass moments pass completed ih
  | startPass source moment _ ih => exact attributed_startPass source moment ih
  | startChange source file kind _ ih => exact attributed_startChange source file kind ih
  | reindex moment file modified read _ ih => exact attributed_reindex moment file modified read ih
  | @listen session source listener _ ih =>
      rw [store_listen]
      exact ih
  | poll source moment _ ih => exact attributed_poll source moment ih
  | @resolve session moment value _ ih =>
      obtain ⟨store, hstore, hsame⟩ := resolve_keeps moment.measures value session
        (fun store lookup (hkept : store.Attributed) => hkept.touch moment.clock lookup) ih
      rw [hsame.store_eq]
      exact hstore
  | find moment name _ ih =>
      unfold find Store.Timed.findFactory
      rw [if_pos moment.measures]
      exact ih.touchFactory moment.clock name
  | @cleanup session moment _ ih =>
      rw [(cleanup_of_readable moment.measures session).store_eq]
      exact ih.cleanup moment.clock
  | adopt source settings _ ih => exact attributed_adopt source settings ih

end Attributed

end Session

/-! ### Being told about changes -/

def Census.ofStore (store : Store) : Census := ⟨Store.Kind.factory.Noted store, Store.Kind.trait.Noted store⟩

namespace Store

theorem Attributed.shows {store : Store} (h : store.Attributed) : store.Shows (.ofStore store) :=
  ⟨h, fun _ _ => Iff.rfl, fun _ _ => Iff.rfl⟩

/-- A file that was not looked at is noted for what it was noted for, unless that has been taken over. -/
theorem Kind.Mixes.noted_of_not_mem {α : Type} {kind : Kind α} {old new : RawText → String → Prop}
    {done : List RawText} {store : Store} (h : kind.Mixes old new done store) {file : RawText} (hdone : file ∉ done)
    (key : String) : kind.Noted store file key ↔ old file key ∧ ∀ other ∈ done, ¬ new other key := by
  rw [h file key]
  simp [hdone]

theorem shouldReindex_eq (store : Store) (file : RawText) (time : Int) :
    store.shouldReindex file time = (store.modifiedOf file).all fun stamp => decide (stamp < time) := by
  unfold shouldReindex modifiedOf
  cases store.files.get? file with
  | none => rfl
  | some entry => rfl

theorem modifiedOf_replaceFile {store : Store} {file : RawText} {factories : List Factory} {traits : List Trait}
    (h : store.Attributed) (clock : Clock) (hfactories : ∀ factory ∈ factories, factory.location.file = file)
    (htraits : ∀ t ∈ traits, t.location.file = file) (modified : Int) (other : RawText) :
    (store.replaceFile clock file factories traits (some modified)).modifiedOf other =
      if other = file then some modified else store.modifiedOf other := by
  by_cases hother : other = file
  · obtain ⟨entry, hentry, hmodified, -⟩ := entry_replaceFile hfactories htraits h clock (some modified)
    rw [if_pos hother, hother, modifiedOf, hentry, Option.map_some, hmodified, Option.getD_some]
  · rw [if_neg hother, modifiedOf, get?_replaceFile_of_ne hfactories htraits h clock (some modified) hother,
      Option.map_map]
    rfl

end Store

namespace Session

variable {source : Source} {moment : Moment} {mode : BlockMode} {listed : List RawText} {before : Store}
  {done : List RawText} {session : Session}

/-- Whether a change is applied to a store: a file that is gone is taken out, and any other one is looked at again if
its time is later than that of its entry. -/
def Applies (source : Source) (store : Store) (change : RawText × ChangeKind) : Prop :=
  change.2 = .deleted ∨ ∃ time, source.modified (.raw change.1) = .ok time ∧ store.shouldReindex change.1 time = true

/-- A session that is told about changes since its store was the given one. The files that changes were applied to are
noted for what they define now, with their times; all others are as they were. -/
structure Telling (source : Source) (mode : BlockMode) (listed : List RawText) (before : Store) (done : List RawText)
    (session : Session) : Prop where
  blockMode_eq : session.services.blockMode = mode
  mixes : session.store.Mixes (.ofStore before) (source.census mode listed) done
  modified_of_mem : ∀ file, file ∈ done →
    session.store.modifiedOf file = (source.version? listed file).map Version.time
  modified_of_not_mem : ∀ file, file ∉ done → session.store.modifiedOf file = before.modifiedOf file

theorem Telling.of_store {after : Session} (h : Telling source mode listed before done session)
    (hstore : after.store = session.store) (hservices : after.services = session.services) :
    Telling source mode listed before done after := by
  obtain ⟨hmode, hmixes, hmem, hnot⟩ := h
  rw [← hservices] at hmode
  rw [← hstore] at hmixes hmem hnot
  exact ⟨hmode, hmixes, hmem, hnot⟩

theorem Telling.deleted (hregular : source.Regular) (hsole : (source.census mode listed).Sole)
    (h : Telling source mode listed before done session) {file : RawText}
    (hgone : source.version? listed file = none) (clock : Clock) :
    Telling source mode listed before (file :: done)
      (session.handleChange source clock (.raw file) (.text ChangeKind.deleted.name)).1 := by
  obtain ⟨-, hstore, hservices⟩ := handleChange_deleted source clock file session
  refine ⟨hservices ▸ h.blockMode_eq, ?_, fun other hmem => ?_, fun other hnot => ?_⟩
  · rw [hstore]
    apply h.mixes.removeFile hsole
    · intro name
      rw [hregular.census_factories_iff, hgone]
      simp
    · intro key
      rw [hregular.census_traits_iff, hgone]
      simp
  · rw [hstore, Store.modifiedOf_removeFile]
    split
    · next heq =>
      rw [heq, hgone, Option.map_none]
    · next hne => exact h.modified_of_mem other ((List.mem_cons.1 hmem).resolve_left hne)
  · rw [List.mem_cons, not_or] at hnot
    rw [hstore, Store.modifiedOf_removeFile, if_neg hnot.1]
    exact h.modified_of_not_mem other hnot.2

theorem Telling.reindexed (hregular : source.Regular) (hsole : (source.census mode listed).Sole)
    (h : Telling source mode listed before done session) {file : RawText} {kind : ChangeKind} (hkind : kind ≠ .deleted)
    {version : Version} (hversion : source.version? listed file = some version)
    (hreindex : session.store.shouldReindex file version.time = true) (moment : Moment) :
    (session.handleChange source moment.clock (.raw file) (.text kind.name)).2 = .ok true ∧
      Telling source mode listed before (file :: done)
        (session.handleChange source moment.clock (.raw file) (.text kind.name)).1 := by
  obtain ⟨hfile, hmodified, -⟩ := Source.version?_eq_some hversion
  obtain ⟨houtcome, hstore, hservices⟩ := handleChange_reindexed moment hkind hmodified hreindex
    fun failure hread => hregular.isUnreadable file version.time failure hmodified hread
  rw [h.blockMode_eq] at hstore
  have hfactories : ∀ factory ∈ (source.outline mode file).factories, factory.location.file = file :=
    fun _ hmem => Source.file_of_mem_factories hmem
  have htraits : ∀ t ∈ (source.outline mode file).traits, t.location.file = file :=
    fun _ hmem => Source.file_of_mem_traits hmem
  have hstamps := Store.modifiedOf_replaceFile h.mixes.attributed moment.clock hfactories htraits version.time
  refine ⟨houtcome, hservices ▸ h.blockMode_eq, ?_, fun other hmem => ?_, fun other hnot => ?_⟩
  · rw [hstore]
    apply h.mixes.replaceFile hsole moment.clock hfactories htraits
    · intro name
      simp [Source.census, hfile]
    · intro key
      simp [Source.census, hfile]
  · rw [hstore, hstamps]
    split
    · next heq => rw [heq, hversion, Option.map_some]
    · next hne => exact h.modified_of_mem other ((List.mem_cons.1 hmem).resolve_left hne)
  · rw [List.mem_cons, not_or] at hnot
    rw [hstore, hstamps, if_neg hnot.1]
    exact h.modified_of_not_mem other hnot.2

/-- One change that says whether its file is still there. It is applied just if it would have been before all others. -/
theorem Telling.handle (hregular : source.Regular) (hsole : (source.census mode listed).Sole)
    (h : Telling source mode listed before done session) {change : RawText × ChangeKind}
    (hchange : change.2 = .deleted ↔ source.version? listed change.1 = none) (moment : Moment) :
    (∃ applied, (session.handleChange source moment.clock (.raw change.1) (.text change.2.name)).2 = .ok applied) ∧
      ∃ done', (∀ file, file ∈ done' ↔ file ∈ done ∨ (Applies source before change ∧ file = change.1)) ∧
        Telling source mode listed before done'
          (session.handleChange source moment.clock (.raw change.1) (.text change.2.name)).1 := by
  obtain ⟨file, kind⟩ := change
  cases hversion : source.version? listed file with
  | none =>
      obtain rfl : kind = .deleted := hchange.2 hversion
      refine ⟨⟨true, rfl⟩, _, fun other => ?_, h.deleted hregular hsole hversion moment.clock⟩
      simp [Applies, or_comm]
  | some version =>
      have hkind : kind ≠ .deleted := fun hdeleted => by
        rw [hchange.1 hdeleted] at hversion
        cases hversion
      obtain ⟨-, hmodified, -⟩ := Source.version?_eq_some hversion
      have happlies : Applies source before (file, kind) ↔ before.shouldReindex file version.time = true := by
        simp [Applies, hkind, hmodified]
      by_cases hdone : file ∈ done
      · -- The entry has the time of the file already.
        have hreindex : session.store.shouldReindex file version.time = false := by
          rw [Store.shouldReindex_eq, h.modified_of_mem file hdone, hversion]
          simp
        rw [handleChange_settled hkind hmodified hreindex]
        refine ⟨⟨false, rfl⟩, done, fun other => ?_, h⟩
        rw [or_iff_left_of_imp]
        rintro ⟨-, rfl⟩
        exact hdone
      · have hsame : before.shouldReindex file version.time = session.store.shouldReindex file version.time := by
          rw [Store.shouldReindex_eq, Store.shouldReindex_eq, h.modified_of_not_mem file hdone]
        rw [happlies, hsame]
        cases hreindex : session.store.shouldReindex file version.time with
        | true =>
            obtain ⟨houtcome, htelling⟩ := h.reindexed hregular hsole hkind hversion hreindex moment
            refine ⟨⟨true, houtcome⟩, _, fun other => ?_, htelling⟩
            simp [or_comm]
        | false =>
            rw [handleChange_settled hkind hmodified hreindex]
            refine ⟨⟨false, rfl⟩, done, fun other => ?_, h⟩
            simp

/-- Any number of listeners, told about any number of changes. -/
theorem Telling.tellAll (hregular : source.Regular) (hsole : (source.census mode listed).Sole)
    (h : Telling source mode listed before done session) {calls : List ((RawText × ChangeKind) × Listener)}
    (hcalls : ∀ call ∈ calls, call.1.2 = .deleted ↔ source.version? listed call.1.1 = none) (moment : Moment) :
    (session.tellAll source moment.clock calls).2 = .ok () ∧
      ∃ done', (∀ file, file ∈ done' ↔ file ∈ done ∨
          ∃ change, (change, .session) ∈ calls ∧ Applies source before change ∧ file = change.1) ∧
        Telling source mode listed before done' (session.tellAll source moment.clock calls).1 := by
  induction calls generalizing session done with
  | nil => exact ⟨rfl, done, fun file => by simp, h⟩
  | cons call rest ih =>
      obtain ⟨change, listener⟩ := call
      have hrest : ∀ call ∈ rest, call.1.2 = .deleted ↔ source.version? listed call.1.1 = none :=
        fun call hcall => hcalls call (List.mem_cons_of_mem _ hcall)
      cases listener with
      | notes =>
          have htold : Telling source mode listed before done { session with notes := session.notes ++ [change] } :=
            h.of_store rfl rfl
          obtain ⟨houtcome, done', hdone, htelling⟩ := ih htold hrest
          refine ⟨houtcome, done', fun file => ?_, htelling⟩
          rw [hdone]
          simp
      | session =>
          obtain ⟨⟨applied, hhandled⟩, first, hfirst, htold⟩ :=
            h.handle hregular hsole (hcalls _ List.mem_cons_self) moment
          obtain ⟨houtcome, done', hdone, htelling⟩ := ih htold hrest
          have htell : session.tell source moment.clock change .session =
              ((session.handleChange source moment.clock (.raw change.1) (.text change.2.name)).1, .ok ()) := by
            unfold tell
            simp only [hhandled]
            rfl
          rw [Session.tellAll, htell]
          refine ⟨houtcome, done', fun file => ?_, htelling⟩
          rw [hdone, hfirst, or_assoc]
          simp [or_and_right, exists_or]

/-- What a poll leaves of the store: the files whose reported changes apply are noted for what they define now, with
their times, and all others are as they were. -/
theorem telling_poll (hregular : source.Regular) (h : session.store.Attributed)
    (hwatches : Listener.session ∈ session.watch.listeners)
    (hlisted : source.list session.watch.patterns = .ok listed)
    (hsole : (source.census session.services.blockMode listed).Sole) (moment : Moment) :
    let found := changes session.watch.snapshot (snapshot source listed).1
    (session.poll source moment.clock).2 = .ok found ∧
      ∃ done, (∀ file, file ∈ done ↔
          ∃ change ∈ found, Applies source session.store change ∧ file = change.1) ∧
        Telling source session.services.blockMode listed session.store done (session.poll source moment.clock).1 := by
  intro found
  have hchanges : ∀ change ∈ found, change.2 = .deleted ↔ source.version? listed change.1 = none := by
    intro change hmem
    rw [deleted_iff_of_changeBetween (mem_changes_iff.1 hmem), get?_snapshot_eq_version?, Option.map_eq_none_iff]
  have hstart : Telling source session.services.blockMode listed session.store []
      { session.record (snapshot source listed).2 with
        watch := { session.watch with snapshot := (snapshot source listed).1 } } :=
    ⟨rfl, h.shows.mixes, fun _ hmem => absurd hmem List.not_mem_nil, fun _ _ => rfl⟩
  have hcalls : ∀ call ∈ found.flatMap fun change => session.watch.listeners.map fun listener => (change, listener),
      call.1.2 = .deleted ↔ source.version? listed call.1.1 = none := by
    intro call hcall
    obtain ⟨change, hchange, hlistener⟩ := List.mem_flatMap.1 hcall
    obtain ⟨listener, -, rfl⟩ := List.mem_map.1 hlistener
    exact hchanges change hchange
  obtain ⟨houtcome, done, hdone, htelling⟩ := hstart.tellAll hregular hsole hcalls moment
  rw [poll_of_ok hregular.tracksChanges hlisted]
  refine ⟨?_, done, fun file => ?_, htelling⟩
  · show Except.map _ _ = _
    rw [houtcome]
    rfl
  · rw [hdone]
    simp [hwatches]

theorem Telling.entry_of_mem (h : Telling source mode listed before done session) {file : RawText} {text : List Char}
    (hdone : file ∈ done) (hread : source.read file = .ok text) {version : Version}
    (hversion : source.version? listed file = some version) :
    ∃ entry, session.store.files.get? file = some entry ∧ entry.lastModified = version.time ∧
      (∀ name, name ∈ entry.factories ↔ name ∈ (Outline.parse mode text file).factories.map Factory.name) ∧
      ∀ key, key ∈ entry.traits ↔ key ∈ (Outline.parse mode text file).traits.map Trait.key := by
  have houtline : source.outline mode file = Outline.parse mode text file := by
    rw [Source.outline, hread]
  have hstamp := h.modified_of_mem file hdone
  rw [hversion, Option.map_some] at hstamp
  obtain ⟨entry, hentry, hmodified⟩ := Option.map_eq_some_iff.1 hstamp
  have hlisted := (Source.version?_eq_some hversion).1
  have hnoted {α : Type} (kind : Store.Kind α) (key : String) :
      key ∈ kind.names entry ↔ kind.Noted session.store file key := by
    rw [Store.Kind.Noted, hentry]
    simp
  refine ⟨entry, hentry, hmodified, fun name => ?_, fun key => ?_⟩
  · refine (hnoted .factory name).trans ((h.mixes.factories file name).trans ?_)
    simp [hdone, Source.census, hlisted, houtline]
  · refine (hnoted .trait key).trans ((h.mixes.traits file key).trans ?_)
    simp [hdone, Source.census, hlisted, houtline]

/-- **A reported change is applied if the time of the file is later than that of its entry**, and else it is not. Take
any state of a session that watches its folder, and any files in the folder, all of them readable and no two of them
with a name or a key in common. To poll succeeds. Nothing is noted any more for a file that is reported as gone. A file
that is reported as new or changed is noted for just what its text defines now, with its time, unless its entry had a
time that was as late. In that case it goes on to be noted for what it was noted for, as far as no change that is
applied takes that over. -/
theorem reported_changes_applied (hsession : session.Reachable)
    (hwatches : Listener.session ∈ session.watch.listeners) (tree : Tree) (folder : Path) (moment : Moment)
    (hlisted : (tree.source folder).list session.watch.patterns = .ok listed)
    (hreadable : ∀ file ∈ listed, ∃ text, (tree.source folder).read file = .ok text)
    (hsole : ((tree.source folder).census session.services.blockMode listed).Sole) :
    let source := tree.source folder
    let mode := session.services.blockMode
    let after := (session.poll source moment.clock).1
    ∃ found, (session.poll source moment.clock).2 = .ok found ∧
      (∀ file, (file, .deleted) ∈ found → after.store.files.get? file = none) ∧
      ∀ file kind, (file, kind) ∈ found → kind ≠ .deleted →
        ∃ time text, source.modified (.raw file) = .ok time ∧ source.read file = .ok text ∧
          (session.store.shouldReindex file time = true →
            ∃ entry, after.store.files.get? file = some entry ∧ entry.lastModified = time ∧
              (∀ name, name ∈ entry.factories ↔ name ∈ (Outline.parse mode text file).factories.map Factory.name) ∧
              ∀ key, key ∈ entry.traits ↔ key ∈ (Outline.parse mode text file).traits.map Trait.key) ∧
          (session.store.shouldReindex file time = false →
            (∀ name, Store.Kind.factory.Noted after.store file name ↔
              Store.Kind.factory.Noted session.store file name ∧ ∀ change ∈ found, Applies source session.store change →
                ¬ (source.census mode listed).factories change.1 name) ∧
            ∀ key, Store.Kind.trait.Noted after.store file key ↔
              Store.Kind.trait.Noted session.store file key ∧ ∀ change ∈ found, Applies source session.store change →
                ¬ (source.census mode listed).traits change.1 key) := by
  intro source mode after
  have hregular : source.Regular := tree.regular_source folder
  have h := attributed_of_reachable hsession
  obtain ⟨hfound, done, hdone, htelling⟩ := telling_poll hregular h hwatches hlisted hsole moment
  refine ⟨_, hfound, fun file hmem => ?_, fun file kind hmem hkind => ?_⟩
  · have hgone : source.version? listed file = none := by
      have hnone := (deleted_iff_of_changeBetween (mem_changes_iff.1 hmem)).1 rfl
      rwa [get?_snapshot_eq_version?, Option.map_eq_none_iff] at hnone
    have hstamp := htelling.modified_of_mem file ((hdone file).2 ⟨_, hmem, Or.inl rfl, rfl⟩)
    rw [hgone, Option.map_none] at hstamp
    exact Option.map_eq_none_iff.1 hstamp
  · obtain ⟨version, hversion⟩ : ∃ version, source.version? listed file = some version := by
      rw [← Option.ne_none_iff_exists']
      intro hnone
      apply hkind
      rw [deleted_iff_of_changeBetween (mem_changes_iff.1 hmem), get?_snapshot_eq_version?, hnone, Option.map_none]
    obtain ⟨hfile, hmodified, -⟩ := Source.version?_eq_some hversion
    obtain ⟨text, hread⟩ := hreadable file hfile
    refine ⟨version.time, text, hmodified, hread, fun hreindex => ?_, fun hreindex => ?_⟩
    · have hmem' : file ∈ done := (hdone file).2 ⟨_, hmem, Or.inr ⟨version.time, hmodified, hreindex⟩, rfl⟩
      exact htelling.entry_of_mem hmem' hread hversion
    · have hnot : file ∉ done := by
        intro hmem'
        obtain ⟨⟨_, kind'⟩, hother, happlies, rfl⟩ := (hdone file).1 hmem'
        -- A file is reported once.
        obtain rfl : kind = kind' :=
          Option.some.inj ((mem_changes_iff.1 hmem).symm.trans (mem_changes_iff.1 hother))
        obtain ⟨time, htime, hlater⟩ := happlies.resolve_left hkind
        obtain rfl : version.time = time := Except.ok.inj (hmodified.symm.trans htime)
        rw [hreindex] at hlater
        cases hlater
      have hall (taken : RawText → Prop) : (∀ other ∈ done, ¬ taken other) ↔
          ∀ change ∈ changes session.watch.snapshot (snapshot source listed).1,
            Applies source session.store change → ¬ taken change.1 := by
        simp only [hdone]
        constructor
        · exact fun hfree change hchange happlies => hfree change.1 ⟨change, hchange, happlies, rfl⟩
        · rintro hfree other ⟨change, hchange, happlies, rfl⟩
          exact hfree change hchange happlies
      refine ⟨fun name => ?_, fun key => ?_⟩
      · rw [htelling.mixes.factories.noted_of_not_mem hnot, hall fun other => _]
        rfl
      · rw [htelling.mixes.traits.noted_of_not_mem hnot, hall fun other => _]
        rfl

/-! ### A folder of one file -/

/-- A folder with a file that defines one factory, whose name is one letter. Its time is in milliseconds. -/
def oneFile (letter : UInt8) (time : Int) : Tree :=
  ({} : Tree).write (.ofText "p/a.rb")
    (.file [102, 97, 99, 116, 111, 114, 121, 32, 58, letter, 32, 100, 111] (reading time))

/-- A session that has indexed a folder and then begun to watch it. -/
def watching (tree : Tree) (clock : Clock) : Session :=
  let settings := { Settings.default with factoryPaths := ["*.rb"], priorityOrder := [], blockMode := .regex }
  let source := tree.source (.ofText "p")
  (((blank settings).index source clock false).1.listen source .session).1

theorem reachable_watching (tree : Tree) (moment : Moment) : (watching tree moment.clock).Reachable := by
  refine .listen _ _ (.index _ moment false (.start (create_eq_blank ?_)))
  decide +kernel

theorem sole_singleton (source : Source) (mode : BlockMode) (file : RawText) : (source.census mode [file]).Sole := by
  constructor
  · rintro a b name ⟨ha, -⟩ ⟨hb, -⟩
    rw [List.mem_singleton.1 ha, List.mem_singleton.1 hb]
  · rintro a b key ⟨ha, -⟩ ⟨hb, -⟩
    rw [List.mem_singleton.1 ha, List.mem_singleton.1 hb]

theorem eq_ok_of_toOption {ε α : Type} {outcome : Except ε α} {value : α} (h : outcome.toOption = some value) :
    outcome = .ok value := by
  cases outcome with
  | error _ => cases h
  | ok _ => rw [Option.some.inj h]

/-- A file is edited after the pass. The change that is reported is applied. -/
theorem reported_changes_applied_later :
    let session := watching (oneFile 117 900000000) ⟨reading 0, reading 1000000000⟩
    let source := (oneFile 118 1000000125).source (.ofText "p")
    let after := (session.poll source ⟨reading 1000, reading 1000001000⟩).1
    (session.store.files.get? "a.rb").map (fun entry => entry.factories.names) = some ["u"] ∧
      (session.poll source ⟨reading 1000, reading 1000001000⟩).2 = .ok [("a.rb", .changed)] ∧
      ∃ entry, after.store.files.get? "a.rb" = some entry ∧ ∀ name, name ∈ entry.factories ↔ name ∈ ["v"] := by
  intro session source after
  let earlier : Moment := ⟨⟨reading 0, reading 1000000000⟩, by decide +kernel, by decide +kernel⟩
  let later : Moment := ⟨⟨reading 1000, reading 1000001000⟩, by decide +kernel, by decide +kernel⟩
  have hlisted : source.list session.watch.patterns = .ok ["a.rb"] := eq_ok_of_toOption (by decide +kernel)
  have hpolled : (session.poll source later.clock).2 = .ok [("a.rb", .changed)] :=
    eq_ok_of_toOption (by decide +kernel)
  have htext : (source.read "a.rb").toOption = some "factory :v do".toList := by decide +kernel
  have hread : ∀ file ∈ [RawText.plain "a.rb"], ∃ text, source.read file = .ok text := by
    intro file hfile
    rw [List.mem_singleton.1 hfile]
    exact ⟨_, eq_ok_of_toOption htext⟩
  obtain ⟨found, hfound, -, hpresent⟩ := reported_changes_applied (reachable_watching (oneFile 117 900000000) earlier)
    (by decide +kernel) (oneFile 118 1000000125) (.ofText "p") later hlisted hread (sole_singleton _ _ _)
  obtain rfl : [(.plain "a.rb", .changed)] = found := Except.ok.inj (hpolled.symm.trans hfound)
  obtain ⟨time, text, hmodified, htext', hnewer, -⟩ := hpresent "a.rb" .changed (List.mem_singleton.2 rfl) (by decide)
  obtain rfl : "factory :v do".toList = text := Except.ok.inj ((eq_ok_of_toOption htext).symm.trans htext')
  have htime : source.modified (.text "a.rb") = .ok (reading 1000000125) := eq_ok_of_toOption (by decide +kernel)
  obtain rfl : reading 1000000125 = time := Except.ok.inj (htime.symm.trans hmodified)
  obtain ⟨entry, hentry, -, hnames, -⟩ := hnewer (by decide +kernel)
  have hparse : (Outline.parse session.services.blockMode "factory :v do".toList "a.rb").factories.map Factory.name =
      ["v"] := by decide +kernel
  rw [hparse] at hnames
  exact ⟨by decide +kernel, hpolled, entry, hentry, hnames⟩

/-- By its time, a file is edited between the last snapshot and the pass. The change is reported, and not applied, and
it is not reported again. -/
theorem reported_change_skipped :
    let edited := (oneFile 118 950000000).source (.ofText "p")
    ∃ earlier later : Moment,
      let session := watching (oneFile 117 900000000) earlier.clock
      let after := (session.poll edited later.clock).1
      session.Reachable ∧ session.store.initialized = true ∧ Listener.session ∈ session.watch.listeners ∧
        session.store.expiredCount later.clock = 0 ∧ edited.list session.watch.patterns = .ok ["a.rb"] ∧
        (edited.census session.services.blockMode ["a.rb"]).Sole ∧
        edited.read "a.rb" = .ok "factory :v do".toList ∧
        (Outline.parse session.services.blockMode "factory :v do".toList "a.rb").factories.map Factory.name = ["v"] ∧
        (session.poll edited later.clock).2 = .ok [("a.rb", .changed)] ∧
        (after.store.files.get? "a.rb").map (fun entry => entry.factories.names) = some ["u"] ∧
        (after.poll edited later.clock).2 = .ok [] := by
  let earlier : Moment := ⟨⟨reading 0, reading 1000000000⟩, by decide +kernel, by decide +kernel⟩
  let later : Moment := ⟨⟨reading 1000, reading 1000001000⟩, by decide +kernel, by decide +kernel⟩
  refine ⟨earlier, later, reachable_watching (oneFile 117 900000000) earlier, by decide +kernel, by decide +kernel,
    by decide +kernel, eq_ok_of_toOption ?_, sole_singleton _ _ _, eq_ok_of_toOption ?_, by decide +kernel,
    eq_ok_of_toOption ?_, by decide +kernel, eq_ok_of_toOption ?_⟩
  all_goals decide +kernel

end Session

end FactoryIndex
