import FactoryIndex.Proofs.Session.Supersede
import FactoryIndex.Proofs.Store.Contribution
import FactoryIndex.Session.Operation

/-!
# Changes that come while a pass waits

A pass and the changes of files each read a text, wait, and write to the store later. They do so side by side, so that
what is written last need not be what was read last. A `Busy` session is one on which all this is under way. It
remembers the text of each file that was read last, and which files are `behind`: something was written for them that
was no longer the last word. That happens in three ways. A change writes a text although a later one has been read; a
pass files a text although a later one has been read; or a pass files its definitions of a file beside those that a
change has left in the meantime, since a pass takes nothing away.

A definition in the store is always from the text that was read last, unless its file is behind or a text of it that
has been read is still to be written. A step keeps that, and so does every run. Files do fall behind: a definition that
is gone from the text that was read last may come back.
-/

namespace FactoryIndex

/-! ### What a session does to its store -/

namespace Session

variable {session : Session}

theorem gains_finishPass (moments : Nat → Moment) (pass : Pass) (completed : List FileRead) (session : Session) :
    Store.Gains pass.blockMode completed session.store
      (session.finishPass (fun n => (moments n).clock) pass completed).store := by
  rw [(finishPass_of_readable moments pass completed session).2]
  obtain ⟨hfactories, htraits⟩ := Store.adds_fill (fun n => (moments n).clock)
    (byRank pass.files (fun factory => factory.location.file)
      (Outline.ofCompleted pass.blockMode completed).1.factories)
    (byRank pass.files (fun t => t.location.file) (Outline.ofCompleted pass.blockMode completed).1.traits)
    session.store
  constructor
  · intro name factory hstored
    refine (hfactories name factory hstored).imp_left fun hmem => ?_
    rw [byRank, List.mem_mergeSort, Outline.factories_ofCompleted] at hmem
    exact List.mem_flatMap.1 hmem
  · intro key t hstored
    refine (htraits key t hstored).imp_left fun hmem => ?_
    rw [byRank, List.mem_mergeSort, Outline.traits_ofCompleted] at hmem
    exact List.mem_flatMap.1 hmem

theorem attributed_finishPass (moments : Nat → Moment) (pass : Pass) (completed : List FileRead)
    (h : session.store.Attributed) :
    (session.finishPass (fun n => (moments n).clock) pass completed).store.Attributed := by
  rw [(finishPass_of_readable moments pass completed session).2]
  exact (h.fill _ _ _).setInitialized true

/-- A pass that has just begun has left nothing of any file. -/
theorem mirrors_startPass {source : Source} {files : List RawText}
    (hfiles : filesToIndex source session.settings = .ok files) (moment : Moment) :
    (session.startPass source moment.clock).store.Attributed ∧ ∀ text file,
      (session.startPass source moment.clock).store.Mirrors session.services.blockMode text file := by
  obtain ⟨begun, -, hblank, -, -, -, hstart⟩ := startPass_of_ok hfiles moment.clock
  have hattributed : begun.store.Attributed := by
    rw [← hblank.clear_eq]
    exact Store.Attributed.clear _
  have hmirrors : ∀ text file, begun.store.Mirrors session.services.blockMode text file := by
    intro text file
    apply hattributed.mirrors
    rw [hblank.files, OrderedMap.get?_empty]
  rw [hstart]
  split
  · refine ⟨attributed_finishPass (fun _ => moment) _ [] hattributed, fun text file => ?_⟩
    have hgains := gains_finishPass (fun _ => moment)
      ⟨files, session.settings.batchSize, session.services.blockMode⟩ [] begun
    exact (hmirrors text file).gains hgains fun read hread => absurd hread List.not_mem_nil
  · exact ⟨hattributed, hmirrors⟩

/-- A change that is not given up replaces all that came from its file. -/
theorem store_reindex (moment : Moment) (file : RawText) (modified : Int) (read : FileRead) (session : Session) :
    ((∃ failure, read.outcome = .error failure) ∧
        (session.reindex moment.clock file modified read).1.store = session.store) ∨
      (session.reindex moment.clock file modified read).1.store =
        session.store.replaceFile moment.clock file
          (Outline.isolated session.services.blockMode read).1.factories
          (Outline.isolated session.services.blockMode read).1.traits (some modified) := by
  unfold reindex Outline.isolated
  cases hread : Outline.ofRead session.services.blockMode read with
  | error failure =>
      left
      refine ⟨?_, rfl⟩
      unfold Outline.ofRead at hread
      split at hread
      · cases hread
      · next failure houtcome => exact ⟨failure, houtcome⟩
  | ok result =>
      right
      simp only
      rw [Store.Timed.replaceFile_of_readable moment.measures moment.tellsDay, store_notifyAll]
      rfl

/-- A change concerns its own file only, of which it leaves what it has read. -/
theorem mirrors_reindex (h : session.store.Attributed) (moment : Moment) (modified : Int) (read : FileRead) :
    (session.reindex moment.clock read.file modified read).1.store.Attributed ∧
      ∀ text file, (∀ source, read.file = file → read.outcome = .ok source → text = some source) →
        (read.file = file ∧ (∃ source, read.outcome = .ok source)) ∨
          session.store.Mirrors session.services.blockMode text file →
        (session.reindex moment.clock read.file modified read).1.store.Mirrors session.services.blockMode
          text file := by
  rcases store_reindex moment read.file modified read session with ⟨⟨failure, hfailure⟩, hstore⟩ | hstore
  · rw [hstore]
    refine ⟨h, fun text file _ hbefore => hbefore.resolve_left ?_⟩
    rintro ⟨-, source, hsource⟩
    rw [hfailure] at hsource
    cases hsource
  · rw [hstore]
    refine ⟨h.replaceFile _ _ _ _ _, fun text file hlast hbefore => ?_⟩
    have hremoved : (session.store.removeFile read.file).Mirrors session.services.blockMode text file := by
      by_cases hfile : read.file = file
      · subst hfile
        exact (h.removeFile read.file).mirrors (Store.get?_removeFile session.store read.file)
      · have hmirrors := hbefore.resolve_left fun hread => hfile hread.1
        exact hmirrors.gains (h.gains_removeFile read.file) fun other hother => absurd hother List.not_mem_nil
    refine hremoved.gains (Store.gains_replaceFile _ moment.clock read.file read (some modified) session.store) ?_
    intro other hother hfile source hsource
    obtain rfl := List.mem_singleton.1 hother
    exact hlast source hfile hsource

/-- Up to the point where its file has to be read, a change takes away what comes from the file, or nothing. -/
theorem startChange_cases (source : Source) (file kind : Value) (session : Session) :
    (session.startChange source file kind).1.pass = session.pass ∧
      ((session.startChange source file kind).1.store = session.store ∨
        ∃ name, (session.startChange source file kind).1.store = session.store.removeFile name) := by
  have hremove (session : Session) : (session.removeFile file).1.pass = session.pass ∧
      ((session.removeFile file).1.store = session.store ∨
        ∃ name, (session.removeFile file).1.store = session.store.removeFile name) := by
    unfold removeFile
    split
    · next name => exact ⟨rfl, Or.inr ⟨name, rfl⟩⟩
    · exact ⟨rfl, Or.inl rfl⟩
    · exact ⟨rfl, Or.inl rfl⟩
    · exact ⟨rfl, Or.inl rfl⟩
  unfold startChange
  split
  · exact ⟨rfl, Or.inl rfl⟩
  · exact hremove session
  · split
    · split
      · exact hremove _
      · exact ⟨rfl, Or.inl rfl⟩
    · split <;> exact ⟨rfl, Or.inl rfl⟩

theorem blockMode_of_setup_eq {after : Session} (hsetup : after.setup = session.setup) :
    after.services.blockMode = session.services.blockMode :=
  congrArg (fun setup => setup.services.blockMode) hsetup

theorem pass_reindex (clock : Clock) (file : RawText) (modified : Int) (read : FileRead) (session : Session) :
    (session.reindex clock file modified read).1.pass = session.pass := by
  have hevents (events : List Event) : (session.notifyAll events).pass = session.pass :=
    view_notifyAll (fun _ _ => rfl) session events
  unfold reindex
  split
  · rfl
  · simp only
    split <;> exact hevents _

end Session

/-! ### Steps -/

/-- A change whose file has to be read: when the file was modified, and the read once it has completed. -/
structure Underway where
  file : RawText
  modified : Int
  read : Option { read : FileRead // read.file = file } := none

def Underway.complete (source : Source) (change : Underway) : Underway :=
  { change with read := some ⟨⟨change.file, source.delay change.file, source.read change.file⟩, rfl⟩ }

def Underway.Holds (file : RawText) (change : Underway) : Prop :=
  change.file = file ∧ ∃ read, change.read = some read ∧ ∃ text, read.val.outcome = .ok text

/-- A session on which a pass and changes are under way, the text of each file that was read last, and the files for
which something else was written. -/
structure Busy where
  session : Session
  pass : Option Reading := none
  changes : List Underway := []
  last : RawText → Option (List Char) := fun _ => none
  behind : List RawText := []

namespace Busy

/-- The texts that were read last once a read has completed. -/
def noted (read : FileRead) (last : RawText → Option (List Char)) : RawText → Option (List Char) :=
  match read.outcome with
  | .ok text => Function.update last read.file (some text)
  | .error _ => last

def begin (source : Source) (clock : Clock) (busy : Busy) : Busy :=
  let session := busy.session.startPass source clock
  { busy with
      session := session
      pass := session.pass.map Reading.start
      behind :=
        match Session.filesToIndex source busy.session.settings with
        | .ok _ => []
        | .error _ => busy.behind }

def take (source : Source) (reading : Reading) (file : RawText) (busy : Busy) : Busy :=
  { busy with
      pass := some (reading.take source file)
      last := noted ⟨file, source.delay file, source.read file⟩ busy.last }

/-- Whether a text that a pass has read is no longer the last word when it is filed: the file was read again, or a
change has left something of it in the store. -/
def overtaken (busy : Busy) (read : FileRead) : Bool :=
  match read.outcome with
  | .ok text => decide (busy.last read.file ≠ some text) || busy.session.store.files.contains read.file
  | .error _ => false

/-- A pass whose reads have all completed ends. -/
def finish (moments : Nat → Moment) (reading : Reading) (busy : Busy) : Busy :=
  { busy with
      session := busy.session.finishPass (fun n => (moments n).clock) reading.pass reading.completed
      pass := none
      behind := busy.behind ++ (reading.completed.filter busy.overtaken).map FileRead.file }

/-- A change arrives. It is over unless its file has to be read; a file of which nothing is left is not behind. -/
def announce (source : Source) (file kind : Value) (busy : Busy) : Busy :=
  let result := busy.session.startChange source file kind
  { busy with
      session := result.1
      changes :=
        match result.2 with
        | .ok (.reading name modified) => busy.changes ++ [{ file := name, modified := modified }]
        | _ => busy.changes
      behind := busy.behind.filter result.1.store.files.contains }

def complete (source : Source) (before after : List Underway) (change : Underway) (busy : Busy) : Busy :=
  { busy with
      changes := before ++ change.complete source :: after
      last := noted ⟨change.file, source.delay change.file, source.read change.file⟩ busy.last }

def apply (moment : Moment) (change : Underway) (read : FileRead) (others : List Underway) (busy : Busy) : Busy :=
  { busy with
      session := (busy.session.reindex moment.clock change.file change.modified read).1
      changes := others
      behind :=
        match read.outcome with
        | .ok text =>
          if busy.last change.file = some text then busy.behind.filter (· ≠ change.file)
          else change.file :: busy.behind
        | .error _ => busy.behind }

/-- What may happen next. The files may be different ones each time. A pass begins only if none waits. -/
inductive Step : Busy → Busy → Prop
  | begin (busy : Busy) (source : Source) (moment : Moment) (hpass : busy.session.pass = none) :
      Step busy (busy.begin source moment.clock)
  | take (busy : Busy) (source : Source) (reading : Reading) (file : RawText) (hpass : busy.pass = some reading)
      (hawaits : reading.Awaits file) : Step busy (busy.take source reading file)
  | finish (busy : Busy) (moments : Nat → Moment) (reading : Reading) (hpass : busy.pass = some reading)
      (hpending : reading.pending = []) : Step busy (busy.finish moments reading)
  | announce (busy : Busy) (source : Source) (file kind : Value) : Step busy (busy.announce source file kind)
  | complete (busy : Busy) (source : Source) (before after : List Underway) (change : Underway)
      (hchanges : busy.changes = before ++ change :: after) (hread : change.read = none) :
      Step busy (busy.complete source before after change)
  | apply (busy : Busy) (moment : Moment) (before after : List Underway) (change : Underway)
      (read : { read : FileRead // read.file = change.file }) (hchanges : busy.changes = before ++ change :: after)
      (hread : change.read = some read) : Step busy (busy.apply moment change read (before ++ after))

def Reaches : Busy → Busy → Prop := Relation.ReflTransGen Step

/-! ### The invariant -/

/-- A text of a file has been read and is still to be written. -/
def Holds (busy : Busy) (file : RawText) : Prop :=
  (∃ reading, busy.pass = some reading ∧ ∃ read ∈ reading.completed, read.file = file ∧
    ∃ text, read.outcome = .ok text) ∨
  ∃ change ∈ busy.changes, change.Holds file

/-- Whatever the store has of a file is from the text that was read last, unless the file is behind or a text of it is
still to be written. -/
structure Sound (mode : BlockMode) (busy : Busy) : Prop where
  attributed : busy.session.store.Attributed
  blockMode : busy.session.services.blockMode = mode
  pass : busy.session.pass = busy.pass.map Reading.pass
  passMode : ∀ reading, busy.pass = some reading → reading.pass.blockMode = mode
  files : ∀ file, file ∈ busy.behind ∨ busy.Holds file ∨
    busy.session.store.Mirrors mode (busy.last file) file

variable {mode : BlockMode} {busy : Busy}

theorem noted_cases (read : FileRead) (last : RawText → Option (List Char)) (file : RawText) :
    (read.file = file ∧ ∃ text, read.outcome = .ok text) ∨ noted read last file = last file := by
  unfold noted
  cases read.outcome with
  | error failure => exact Or.inr rfl
  | ok text =>
      by_cases hfile : read.file = file
      · exact Or.inl ⟨hfile, text, rfl⟩
      · exact Or.inr (Function.update_of_ne (Ne.symm hfile) _ _)

/-- A text that has just been read is still to be written. -/
theorem Sound.note (h : busy.Sound mode) {after : Busy} {read : FileRead} (hsession : after.session = busy.session)
    (hbehind : after.behind = busy.behind) (hlast : after.last = noted read busy.last)
    (hholds : ∀ file, busy.Holds file → after.Holds file)
    (hread : ∀ text, read.outcome = .ok text → after.Holds read.file) (file : RawText) :
    file ∈ after.behind ∨ after.Holds file ∨ after.session.store.Mirrors mode (after.last file) file := by
  rw [hsession, hbehind, hlast]
  rcases noted_cases read busy.last file with ⟨rfl, text, htext⟩ | hsame
  · exact Or.inr (Or.inl (hread text htext))
  · rw [hsame]
    exact (h.files file).imp_right (Or.imp_left (hholds file))

theorem Sound.begin (h : busy.Sound mode) (source : Source) (moment : Moment) (hpass : busy.session.pass = none) :
    (busy.begin source moment.clock).Sound mode := by
  have hmode : (busy.session.startPass source moment.clock).services.blockMode = mode :=
    (Session.blockMode_of_setup_eq (Session.setup_startPass ..)).trans h.blockMode
  have hreading : (busy.session.startPass source moment.clock).pass =
      ((busy.session.startPass source moment.clock).pass.map Reading.start).map Reading.pass := by
    rw [Option.map_map]
    exact Option.map_id'.symm
  cases hfiles : Session.filesToIndex source busy.session.settings with
  | error failure =>
      have hstart : busy.session.startPass source moment.clock =
          { busy.session with runs := busy.session.runs + 1, rerun := false }.failPass failure := by
        simp only [Session.startPass, hfiles]
      unfold Busy.begin
      simp only [hfiles]
      rw [hstart] at hmode hreading ⊢
      refine ⟨h.attributed, hmode, hreading, fun _ hother => (by cases hother), fun file => ?_⟩
      have hnone : busy.pass = none := by
        have hmap := h.pass.symm.trans hpass
        exact Option.map_eq_none_iff.1 hmap
      rcases h.files file with hbehind | (⟨reading, hreading, -⟩ | hchange) | hmirrors
      · exact Or.inl hbehind
      · rw [hnone] at hreading
        cases hreading
      · exact Or.inr (Or.inl (Or.inr hchange))
      · exact Or.inr (Or.inr hmirrors)
  | ok files =>
      obtain ⟨hattributed, hmirrors⟩ := Session.mirrors_startPass hfiles moment
      rw [h.blockMode] at hmirrors
      refine ⟨hattributed, hmode, hreading, fun reading hother => ?_, fun file => Or.inr (Or.inr (hmirrors _ _))⟩
      obtain ⟨pass, hwaits, rfl⟩ := Option.map_eq_some_iff.1 hother
      obtain ⟨rfl, -⟩ := Session.pass_startPass hfiles moment hwaits
      exact h.blockMode

theorem Sound.take (h : busy.Sound mode) (source : Source) {reading : Reading} (file : RawText)
    (hpass : busy.pass = some reading) : (busy.take source reading file).Sound mode := by
  have hcompleted : ∀ read, read ∈ reading.completed ∨ read = ⟨file, source.delay file, source.read file⟩ →
      read ∈ (reading.take source file).completed := by
    intro read hread
    simpa [Reading.take] using hread
  refine ⟨h.attributed, h.blockMode, ?_, ?_, ?_⟩
  · show busy.session.pass = some reading.pass
    rw [h.pass, hpass]
    rfl
  · intro other hother
    rw [← Option.some.inj hother]
    exact h.passMode reading hpass
  · refine h.note rfl rfl rfl ?_ ?_
    · intro other hholds
      rcases hholds with ⟨waiting, hwaiting, read, hread, hfile⟩ | hchange
      · obtain rfl : reading = waiting := Option.some.inj (hpass.symm.trans hwaiting)
        exact Or.inl ⟨_, rfl, read, hcompleted read (Or.inl hread), hfile⟩
      · exact Or.inr hchange
    · intro text htext
      exact Or.inl ⟨_, rfl, _, hcompleted _ (Or.inr rfl), rfl, text, htext⟩

theorem Sound.finish (h : busy.Sound mode) (moments : Nat → Moment) {reading : Reading}
    (hpass : busy.pass = some reading) : (busy.finish moments reading).Sound mode := by
  have hnone := (Session.finishPass_of_readable moments reading.pass reading.completed busy.session).1
  have hgains := Session.gains_finishPass moments reading.pass reading.completed busy.session
  rw [h.passMode reading hpass] at hgains
  refine ⟨?_, ?_, hnone, fun _ hother => (by cases hother), fun file => ?_⟩
  · exact Session.attributed_finishPass moments reading.pass reading.completed h.attributed
  · exact (Session.blockMode_of_setup_eq (Session.setup_finishPass ..)).trans h.blockMode
  · by_cases hovertaken : ∃ read ∈ reading.completed, read.file = file ∧ busy.overtaken read = true
    · obtain ⟨read, hread, rfl, hlate⟩ := hovertaken
      exact Or.inl (List.mem_append_right _ (List.mem_map_of_mem (List.mem_filter.2 ⟨hread, hlate⟩)))
    · -- What the pass has read of the file is the last word, and nothing else of the file is there.
      have hturn : ∀ read ∈ reading.completed, read.file = file → ∀ text, read.outcome = .ok text →
          busy.last file = some text ∧ busy.session.store.files.contains file = false := by
        intro read hread hfile text htext
        have hnot : ¬ busy.overtaken read = true := fun hlate => hovertaken ⟨read, hread, hfile, hlate⟩
        simpa [overtaken, htext, hfile] using hnot
      have hlast := fun read hread hfile text htext => (hturn read hread hfile text htext).1
      rcases h.files file with hbehind | (⟨waiting, hwaiting, read, hread, hfile, text, htext⟩ | hchange) | hmirrors
      · exact Or.inl (List.mem_append_left _ hbehind)
      · obtain rfl : reading = waiting := Option.some.inj (hpass.symm.trans hwaiting)
        have habsent := (hturn read hread hfile text htext).2
        have hmirrors : busy.session.store.Mirrors mode (busy.last file) file :=
          h.attributed.mirrors (by simpa [OrderedMap.contains] using habsent)
        exact Or.inr (Or.inr (hmirrors.gains hgains hlast))
      · exact Or.inr (Or.inl (Or.inr hchange))
      · exact Or.inr (Or.inr (hmirrors.gains hgains hlast))

theorem Sound.announce (h : busy.Sound mode) (source : Source) (file kind : Value) :
    (busy.announce source file kind).Sound mode := by
  obtain ⟨hpass, hstore⟩ := Session.startChange_cases source file kind busy.session
  have hattributed : (busy.session.startChange source file kind).1.store.Attributed := by
    rcases hstore with hsame | ⟨name, hremoved⟩
    · rw [hsame]
      exact h.attributed
    · rw [hremoved]
      exact h.attributed.removeFile name
  have hgains : Store.Gains mode [] busy.session.store (busy.session.startChange source file kind).1.store := by
    rcases hstore with hsame | ⟨name, hremoved⟩
    · rw [hsame]
      exact ⟨fun _ _ => Or.inr, fun _ _ => Or.inr⟩
    · rw [hremoved]
      exact h.attributed.gains_removeFile name
  have hchanges : ∀ change ∈ busy.changes, change ∈ (busy.announce source file kind).changes := by
    intro change hchange
    unfold Busy.announce
    simp only
    split
    · exact List.mem_append_left _ hchange
    · exact hchange
  refine ⟨hattributed, ?_, hpass.trans h.pass, h.passMode, fun other => ?_⟩
  · exact (Session.blockMode_of_setup_eq (Session.setup_startChange ..)).trans h.blockMode
  · rcases h.files other with hbehind | (hreading | ⟨change, hchange, hread⟩) | hmirrors
    · by_cases hleft : (busy.session.startChange source file kind).1.store.files.contains other = true
      · exact Or.inl (List.mem_filter.2 ⟨hbehind, hleft⟩)
      · right
        right
        apply hattributed.mirrors
        simpa [OrderedMap.contains] using hleft
    · exact Or.inr (Or.inl (Or.inl hreading))
    · exact Or.inr (Or.inl (Or.inr ⟨change, hchanges change hchange, hread⟩))
    · exact Or.inr (Or.inr (hmirrors.gains hgains fun read hread => absurd hread List.not_mem_nil))

theorem Sound.complete (h : busy.Sound mode) (source : Source) {before after : List Underway} {change : Underway}
    (hchanges : busy.changes = before ++ change :: after) (hread : change.read = none) :
    (busy.complete source before after change).Sound mode := by
  refine ⟨h.attributed, h.blockMode, h.pass, h.passMode, h.note rfl rfl rfl ?_ ?_⟩
  · intro file hholds
    rcases hholds with hreading | ⟨other, hother, hheld⟩
    · exact Or.inl hreading
    · rw [hchanges, List.mem_append, List.mem_cons] at hother
      rcases hother with hbefore | rfl | hafter
      · exact Or.inr ⟨other, List.mem_append_left _ hbefore, hheld⟩
      · obtain ⟨-, read, hsome, -⟩ := hheld
        rw [hread] at hsome
        cases hsome
      · exact Or.inr ⟨other, List.mem_append_right _ (List.mem_cons_of_mem _ hafter), hheld⟩
  · intro text htext
    exact Or.inr ⟨change.complete source, List.mem_append_right _ List.mem_cons_self, rfl, _, rfl, text, htext⟩

/-- Only a change of its own brings a file up to date. -/
theorem mem_behind_apply (moment : Moment) {change : Underway} {read : FileRead} (others : List Underway)
    {file : RawText} (hbehind : file ∈ busy.behind)
    (hother : ¬ (change.file = file ∧ ∃ text, read.outcome = .ok text)) :
    file ∈ (busy.apply moment change read others).behind := by
  unfold Busy.apply
  cases houtcome : read.outcome with
  | error failure => exact hbehind
  | ok text =>
      simp only
      split
      · refine List.mem_filter.2 ⟨hbehind, decide_eq_true ?_⟩
        rintro rfl
        exact hother ⟨rfl, text, houtcome⟩
      · exact List.mem_cons_of_mem _ hbehind

theorem Sound.apply (h : busy.Sound mode) (moment : Moment) {before after : List Underway} {change : Underway}
    {read : { read : FileRead // read.file = change.file }} (hchanges : busy.changes = before ++ change :: after)
    (hread : change.read = some read) : (busy.apply moment change read (before ++ after)).Sound mode := by
  obtain ⟨hattributed, hmirrors⟩ := Session.mirrors_reindex h.attributed moment change.modified read
  rw [h.blockMode, read.property] at hmirrors
  rw [read.property] at hattributed
  -- Whatever else is still to be written is so afterwards.
  have hholds : ∀ file, busy.Holds file →
      (busy.apply moment change read (before ++ after)).Holds file ∨
        (change.file = file ∧ ∃ text, read.val.outcome = .ok text) := by
    intro file hfile
    rcases hfile with hreading | ⟨other, hother, hheld⟩
    · exact Or.inl (Or.inl hreading)
    · rw [hchanges, List.mem_append, List.mem_cons] at hother
      rcases hother with hbefore | rfl | hafter
      · exact Or.inl (Or.inr ⟨other, List.mem_append_left _ hbefore, hheld⟩)
      · obtain ⟨hsame, found, hfound, htext⟩ := hheld
        obtain rfl : read = found := Option.some.inj (hread.symm.trans hfound)
        exact Or.inr ⟨hsame, htext⟩
      · exact Or.inl (Or.inr ⟨other, List.mem_append_right _ hafter, hheld⟩)
  refine ⟨hattributed, ?_, (Session.pass_reindex ..).trans h.pass, h.passMode, fun file => ?_⟩
  · exact (Session.blockMode_of_setup_eq (Session.setup_reindex ..)).trans h.blockMode
  · by_cases hlate : change.file = file ∧ ∃ text, read.val.outcome = .ok text ∧ busy.last change.file ≠ some text
    · obtain ⟨rfl, text, htext, hne⟩ := hlate
      left
      simp [Busy.apply, htext, hne]
    · have hlast : ∀ text, change.file = file → read.val.outcome = .ok text → busy.last file = some text := by
        rintro text rfl htext
        by_contra hne
        exact hlate ⟨rfl, text, htext, hne⟩
      by_cases hown : change.file = file ∧ ∃ text, read.val.outcome = .ok text
      · exact Or.inr (Or.inr (hmirrors _ file hlast (Or.inl hown)))
      · rcases h.files file with hbehind | hheld | hbefore
        · exact Or.inl (mem_behind_apply moment (before ++ after) hbehind hown)
        · exact Or.inr (Or.inl ((hholds file hheld).resolve_right hown))
        · exact Or.inr (Or.inr (hmirrors _ file hlast (Or.inr hbefore)))

theorem Sound.step {after : Busy} (h : busy.Sound mode) (hstep : Step busy after) : after.Sound mode := by
  cases hstep with
  | begin source moment hpass => exact h.begin source moment hpass
  | take source reading file hpass _ => exact h.take source file hpass
  | finish moments reading hpass _ => exact h.finish moments hpass
  | announce source file kind => exact h.announce source file kind
  | complete source before after change hchanges hread => exact h.complete source hchanges hread
  | apply moment before after change read hchanges hread => exact h.apply moment hchanges hread

theorem Sound.reaches {after : Busy} (h : busy.Sound mode) (hreaches : Reaches busy after) : after.Sound mode := by
  induction hreaches with
  | refl => exact h
  | tail _ hstep ih => exact ih.step hstep

theorem sound_create {settings : Settings} {notifier : Notifier} {patterns : List RawText} {session : Session}
    (hcreate : Session.create settings notifier patterns = .ok session) :
    Sound settings.blockMode { session := session } := by
  simp only [Session.create, Store.create, Value.toInt] at hcreate
  split at hcreate
  · cases hcreate
    have hattributed : (Store.empty settings.ttl).Attributed := .of_empty (fun _ => rfl) (fun _ => rfl) rfl
    refine ⟨hattributed, rfl, rfl, fun _ hother => (by cases hother), fun file => Or.inr (Or.inr ?_)⟩
    exact hattributed.mirrors rfl
  · cases hcreate

/-! ### A single file -/

def readPass (source : Source) (file : RawText) (busy : Busy) : Busy :=
  match busy.pass with
  | some reading => busy.take source reading file
  | none => busy

def endPass (moment : Moment) (busy : Busy) : Busy :=
  match busy.pass with
  | some reading => busy.finish (fun _ => moment) reading
  | none => busy

def readChange (source : Source) (busy : Busy) : Busy :=
  match busy.changes with
  | [change] => busy.complete source [] [] change
  | _ => busy

def endChange (moment : Moment) (busy : Busy) : Busy :=
  match busy.changes with
  | [⟨file, modified, some read⟩] => busy.apply moment ⟨file, modified, some read⟩ read []
  | _ => busy

theorem step_readPass (source : Source) {file : RawText} (h : busy.pass.map Reading.pending = some [[file]]) :
    Step busy (busy.readPass source file) := by
  obtain ⟨reading, hpass, hpending⟩ := Option.map_eq_some_iff.1 h
  unfold readPass
  rw [hpass]
  exact .take busy source reading file hpass ⟨[file], [], hpending, List.mem_cons_self⟩

theorem step_endPass (moment : Moment) (h : busy.pass.map Reading.pending = some []) :
    Step busy (busy.endPass moment) := by
  obtain ⟨reading, hpass, hpending⟩ := Option.map_eq_some_iff.1 h
  unfold endPass
  rw [hpass]
  exact .finish busy _ reading hpass hpending

theorem step_readChange (source : Source) (h : busy.changes.map (fun change => change.read.isSome) = [false]) :
    Step busy (busy.readChange source) := by
  obtain ⟨change, hchanges, hread⟩ := List.map_eq_singleton_iff.1 h
  unfold readChange
  rw [hchanges]
  exact .complete busy source [] [] change hchanges (by simpa using hread)

theorem step_endChange (moment : Moment) (h : busy.changes.map (fun change => change.read.isSome) = [true]) :
    Step busy (busy.endChange moment) := by
  obtain ⟨⟨file, modified, read⟩, hchanges, hread⟩ := List.map_eq_singleton_iff.1 h
  unfold endChange
  rw [hchanges]
  cases read with
  | none => cases hread
  | some read => exact .apply busy moment [] [] ⟨file, modified, some read⟩ read hchanges rfl

end Busy

/-- **The text that was read last decides.** A pass and any number of changes are under way on a new session, in
whatever order they read and write, while the files change. Once all of them have ended, every definition that is
located in a file is one of the text of that file that was read last, unless the file is behind: what was written for
it last was not the text that was read last, or a pass has added to what a change had written. -/
theorem last_read_decides {settings : Settings} {notifier : Notifier} {patterns : List RawText} {session : Session}
    (hcreate : Session.create settings notifier patterns = .ok session) {busy : Busy}
    (hreaches : Busy.Reaches { session := session } busy) (hpass : busy.pass = none) (hchanges : busy.changes = [])
    {file : RawText} (hfile : file ∉ busy.behind) :
    busy.session.store.Mirrors settings.blockMode (busy.last file) file := by
  have hsound := (Busy.sound_create hcreate).reaches hreaches
  rcases hsound.files file with hbehind | (⟨reading, hreading, -⟩ | ⟨change, hchange, -⟩) | hmirrors
  · exact absurd hbehind hfile
  · rw [hpass] at hreading
    cases hreading
  · rw [hchanges] at hchange
    cases hchange
  · exact hmirrors

/-- The only file changes while the pass waits. The pass ends first and files the old text; the change ends last, and
what it has read is what stays. -/
theorem last_read_decides_changed :
    let text := ['f', 'a', 'c', 't', 'o', 'r', 'y', ' ', ':', 'u', ' ', 'd', 'o']
    let source (time : Int) (text : List Char) : Source :=
      { list := fun _ => .ok ["a"], modified := fun _ => .ok (reading time), read := fun _ => .ok text }
    let settings := { Settings.default with priorityOrder := [], blockMode := .regex }
    let session : Session :=
      { settings := settings, services := .ofSettings settings, notifier := {}, store := .empty 60000, watch := {} }
    ∃ moment : Moment,
      let begun := ({ session := session } : Busy).begin (source 0 text) moment.clock
      let announced := (begun.readPass (source 0 text) "a").announce (source 1 []) (.text "a") (.text "changed")
      let ended := ((announced.readChange (source 1 [])).endPass moment).endChange moment
      Busy.Reaches { session := session } ended ∧ ended.last "a" = some [] ∧
        ended.session.store.Mirrors settings.blockMode (ended.last "a") "a" := by
  intro text source settings session
  let moment : Moment := ⟨⟨0, 0⟩, by decide +kernel, by decide +kernel⟩
  refine ⟨moment, ?_⟩
  intro begun announced ended
  have hreaches : Busy.Reaches { session := session } ended := by
    refine .tail (.tail (.tail (.tail (.tail (.tail .refl (.begin _ (source 0 text) moment rfl))
      (Busy.step_readPass _ ?_)) (.announce _ _ _ _)) (Busy.step_readChange _ ?_)) (Busy.step_endPass _ ?_))
      (Busy.step_endChange _ ?_)
    all_goals decide +kernel
  have hstore : Store.create (.int 60000) = .ok (.empty 60000) := by rfl
  have hcreate : Session.create settings {} [] = .ok session := congrArg (Except.map _) hstore
  have hpass : ended.pass = none := Option.map_eq_none_iff.1 (by decide +kernel : ended.pass.map Reading.pending = none)
  have hchanges : ended.changes = [] :=
    List.map_eq_nil_iff.1 (by decide +kernel : ended.changes.map Underway.file = [])
  have hbehind : RawText.plain "a" ∉ ended.behind := by decide +kernel
  exact ⟨hreaches, by decide +kernel, last_read_decides hcreate hreaches hpass hchanges hbehind⟩

/-- The same when the change ends first. The pass, which ends last, finds the name free and brings back the definition
that is gone from the text that was read last. -/
theorem gone_definition_returns :
    let text := ['f', 'a', 'c', 't', 'o', 'r', 'y', ' ', ':', 'u', ' ', 'd', 'o']
    let source (time : Int) (text : List Char) : Source :=
      { list := fun _ => .ok ["a"], modified := fun _ => .ok (reading time), read := fun _ => .ok text }
    let settings := { Settings.default with priorityOrder := [], blockMode := .regex }
    let session : Session :=
      { settings := settings, services := .ofSettings settings, notifier := {}, store := .empty 60000, watch := {} }
    ∃ moment : Moment,
      let begun := ({ session := session } : Busy).begin (source 0 text) moment.clock
      let announced := (begun.readPass (source 0 text) "a").announce (source 1 []) (.text "a") (.text "changed")
      let ended := ((announced.readChange (source 1 [])).endChange moment).endPass moment
      Session.create settings {} [] = .ok session ∧ Busy.Reaches { session := session } ended ∧
        ended.pass = none ∧ ended.changes = [] ∧ ended.session.runs = 1 ∧ ended.last "a" = some [] ∧
        ¬ ended.session.store.Mirrors settings.blockMode (ended.last "a") "a" := by
  intro text source settings session
  let moment : Moment := ⟨⟨0, 0⟩, by decide +kernel, by decide +kernel⟩
  refine ⟨moment, ?_⟩
  intro begun announced ended
  have hreaches : Busy.Reaches { session := session } ended := by
    refine .tail (.tail (.tail (.tail (.tail (.tail .refl (.begin _ (source 0 text) moment rfl))
      (Busy.step_readPass _ ?_)) (.announce _ _ _ _)) (Busy.step_readChange _ ?_)) (Busy.step_endChange _ ?_))
      (Busy.step_endPass _ ?_)
    all_goals decide +kernel
  have hstore : Store.create (.int 60000) = .ok (.empty 60000) := by rfl
  have hlast : ended.last "a" = some [] := by decide +kernel
  have hheld : (Store.Kind.factory.stored ended.session.store "u").map (fun factory => factory.location.file) =
      some (.plain "a") := by decide +kernel
  have hnothing : (Outline.parse settings.blockMode [] "a").factories.length = 0 := by decide +kernel
  refine ⟨congrArg (Except.map _) hstore, hreaches,
    Option.map_eq_none_iff.1 (by decide +kernel : ended.pass.map Reading.pending = none),
    List.map_eq_nil_iff.1 (by decide +kernel : ended.changes.map Underway.file = []), by decide +kernel, hlast, ?_⟩
  intro hmirrors
  obtain ⟨factory, hstored, hfile⟩ := Option.map_eq_some_iff.1 hheld
  obtain ⟨found, hfound, hmem⟩ := hmirrors.factories "u" factory hstored hfile
  obtain rfl : [] = found := Option.some.inj (hlast.symm.trans hfound)
  rw [List.eq_nil_of_length_eq_zero hnothing] at hmem
  cases hmem

end FactoryIndex
