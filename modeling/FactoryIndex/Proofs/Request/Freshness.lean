import FactoryIndex.Proofs.Request.Isolation
import FactoryIndex.Proofs.Session.Polling

/-!
# How fresh the index is after a poll

The files of a project are created, edited and deleted while requests come in, and a poll is to bring the index up to
date. What it can see of the past are three records, made at different times. A snapshot is taken when a session begins
to listen, which is with its first poll, and then with every other one. The entries of files are stamped when a pass
files their definitions, and when the files are looked at again. And a session that has an index builds no other one,
unless it is forced to.

So there are changes that leave no trace. What is changed after the index was built and before the first poll is part of
the first snapshot already. A file that comes after a poll, is indexed by force and is gone at the next poll was in
neither of the snapshots. And a file that is given an earlier time than it had seems not to be modified. As long as
nothing of this happens, the index shows after every poll what the files define.
-/

namespace FactoryIndex

/-- Requests for one project that come one after the other, each in its own surroundings. -/
structure Course where
  project : RawText
  settings : Settings
  request : Nat → Request

namespace Course

variable (course : Course)

/-! ### What happens -/

def clock (n : Nat) : Clock := (course.request n).here.clock

def source (n : Nat) : Source := (course.request n).here.source course.project

def files (n : Nat) : List RawText := ((course.source n).list course.settings.factoryPaths).toOption.getD []

def version? (n : Nat) (file : RawText) : Option Version := (course.source n).version? (course.files n) file

def census (n : Nat) : Census := (course.source n).census course.settings.blockMode (course.files n)

def registry : Nat → Registry
  | 0 => .empty
  | n + 1 => ((registry n).answer (course.request n)).registry

def outcome (n : Nat) : Except Failure Value := ((course.registry n).answer (course.request n)).outcome

def runs (n : Nat) : Nat := (course.registry n).runs course.project

def Polls (n : Nat) : Prop := (course.request n).errand? = some ⟨.poll, course.project, course.settings⟩

/-- The index that is there after a request was built by another one before it. -/
def BuiltAt (i j : Nat) : Prop :=
  i < j ∧ course.runs i < course.runs (i + 1) ∧ course.runs (i + 1) = course.runs (j + 1)

/-- Requests to index, resolve, poll or count, with the same settings, while files are changed. The files can always be
listed and put in order, no two of them define the same, and a change gives a file a time that is after that of all
requests before. No definition expires. -/
structure Admissible (n : Nat) : Prop where
  asks : ∀ i ≤ n, ∃ command, command ≠ .changed ∧
    (course.request i).errand? = some ⟨command, course.project, course.settings⟩
  readable : ∀ i ≤ n, (course.clock i).measures = true ∧ (course.clock i).tellsDay = true
  fits : fitsSeconds course.settings.ttl = true
  ordered : ∀ i ≤ n, ∃ files, Session.filesToIndex (course.source i) course.settings = .ok files
  sole : ∀ i ≤ n, (course.census i).Sole
  stamped : ∀ i j, i < j → j ≤ n → ∀ file version, course.version? j file = some version →
    course.version? i file ≠ some version → ∀ k ≤ i, (course.clock k).wall < version.time
  live : ∀ i ≤ n, ∀ session, OrderedMap.get? (course.registry i) course.project = some session →
    session.store.expiredCount (course.clock i) = 0

/-- No change goes without a trace. -/
structure Traced (n : Nat) : Prop where
  /-- A change gives a file a time that is after all that it had before. -/
  later : ∀ i j, i < j → j ≤ n → ∀ file version, course.version? j file = some version →
    course.version? i file ≠ some version → ∀ k ≤ i, ∀ earlier, course.version? k file = some earlier →
    earlier.time < version.time
  /-- Nothing is changed between the time when the index was built and the first poll. -/
  first : ∀ i j, j ≤ n → course.Polls j → (∀ k < j, ¬ course.Polls k) → course.BuiltAt i j →
    ∀ file, course.version? i file = course.version? j file
  /-- A file that is gone was there at the last poll, if it was there when the index was built since. -/
  gone : ∀ q i j, q < i → j ≤ n → course.Polls q → course.Polls j → (∀ k, q < k → k < j → ¬ course.Polls k) →
    course.BuiltAt i j → ∀ file, course.version? i file ≠ none → course.version? j file = none →
    course.version? q file ≠ none

variable {course} {n i j s : Nat} {session after : Session}

theorem regular (course : Course) (i : Nat) : (course.source i).Regular := Tree.regular_source _ _

theorem Admissible.list_eq (h : course.Admissible n) (hi : i ≤ n) :
    (course.source i).list course.settings.factoryPaths = .ok (course.files i) := by
  obtain ⟨names, hnames⟩ := h.ordered i hi
  obtain ⟨listed, hlisted, -⟩ := Session.filesToIndex_eq_ok hnames
  rw [files, hlisted]
  rfl

def Admissible.moment (h : course.Admissible n) (hi : i ≤ n) : Moment :=
  ⟨course.clock i, (h.readable i hi).1, (h.readable i hi).2⟩

theorem agreeOn_of_version?_eq {file : RawText} (hsame : course.version? i file = course.version? j file) :
    (course.census i).AgreeOn (course.census j) file :=
  (course.regular i).agreeOn (course.regular j) hsame

/-! ### What is left of the past -/

/-- The times that entries of files may have: those of requests, and those of the file at their times. -/
def Stamps (course : Course) (s : Nat) (file : RawText) (time : Int) : Prop :=
  ∃ k ≤ s, time = (course.clock k).wall ∨
    ∃ version, course.version? k file = some version ∧ time = version.time

/-- The session has an index that shows what the files defined at the time of a request. -/
structure Kept (course : Course) (s : Nat) (session : Session) : Prop where
  idle : session.pass = none
  setup : session.setup = .ofSettings course.settings
  initialized : session.store.initialized = true
  shows : session.store.Shows (course.census s)
  stamped : session.store.Stamped (course.Stamps s)

def Snapped (course : Course) (q : Nat) (session : Session) : Prop :=
  session.watch.listeners = [.session] ∧
    session.watch.snapshot = (Session.snapshot (course.source q) (course.files q)).1

/-- The snapshot shows the changes since the time when the index was up to date. -/
def Covers (course : Course) (s j : Nat) (session : Session) : Prop :=
  (session.watch.listeners = [] ∧ ∀ file, course.version? s file = course.version? j file) ∨
  ∃ q ≤ s, course.Snapped q session ∧
    ∀ file, course.version? s file ≠ none → course.version? j file = none → course.version? q file ≠ none

/-- A file whose entry is not before its version has not changed. -/
theorem version?_eq_of_stamps (hadm : course.Admissible n) (htraced : course.Traced n) (hs : s ≤ j) (hj : j ≤ n)
    {file : RawText} {version : Version} {stamp : Int} (hversion : course.version? j file = some version)
    (hstamp : course.Stamps s file stamp) (hle : version.time ≤ stamp) :
    course.version? s file = course.version? j file := by
  rcases Nat.lt_or_eq_of_le hs with hlt | rfl
  · rw [hversion]
    by_contra hne
    obtain ⟨k, hk, rfl | ⟨earlier, hearlier, rfl⟩⟩ := hstamp
    · have hwall := hadm.stamped s j hlt hj file version hversion hne k hk
      omega
    · have htime := htraced.later s j hlt hj file version hversion hne k hk earlier hearlier
      omega
  · rfl

/-- A file that the snapshots tell nothing about has not changed. -/
theorem version?_eq_of_changeBetween (htraced : course.Traced n) {q : Nat} (hq : q ≤ s) (hs : s ≤ j) (hj : j ≤ n)
    {file : RawText} (hgone : course.version? s file ≠ none → course.version? j file = none →
      course.version? q file ≠ none)
    (hquiet : Session.changeBetween (Session.snapshot (course.source q) (course.files q)).1
      (Session.snapshot (course.source j) (course.files j)).1 file = none) :
    course.version? s file = course.version? j file := by
  have hbefore : (Session.snapshot (course.source q) (course.files q)).1.get? file =
      (course.version? q file).map Version.time := Session.get?_snapshot_eq_version? _ _ _
  have hnow : (Session.snapshot (course.source j) (course.files j)).1.get? file =
      (course.version? j file).map Version.time := Session.get?_snapshot_eq_version? _ _ _
  rw [Session.changeBetween, hbefore, hnow] at hquiet
  cases hversion : course.version? j file with
  | none =>
      cases hearlier : course.version? q file with
      | none =>
          by_contra hthere
          exact hgone hthere hversion hearlier
      | some earlier => simp [hversion, hearlier] at hquiet
  | some version =>
      cases hearlier : course.version? q file with
      | none => simp [hversion, hearlier] at hquiet
      | some earlier =>
          have hle : version.time ≤ earlier.time := by simpa [hversion, hearlier] using hquiet
          by_contra hne
          have hlt : s < j := Nat.lt_of_le_of_ne hs fun heq => hne (by rw [heq, hversion])
          have htime := htraced.later s j hlt hj file version hversion hne q hq earlier hearlier
          omega

/-! ### Polling -/

theorem Stamps.mono {file : RawText} {time : Int} (h : course.Stamps s file time) (hs : s ≤ j) :
    course.Stamps j file time := by
  obtain ⟨k, hk, htime⟩ := h
  exact ⟨k, hk.trans hs, htime⟩

theorem Kept.blockMode_eq (h : course.Kept s session) : session.services.blockMode = course.settings.blockMode :=
  congrArg (fun setup => setup.services.blockMode) h.setup

theorem Kept.patterns_eq (h : course.Kept s session) : session.watch.patterns = course.settings.factoryPaths :=
  congrArg Setup.patterns h.setup

theorem Kept.of_eq (h : course.Kept s session) (hpass : after.pass = session.pass)
    (hsetup : after.setup = session.setup) (hstore : after.store = session.store) : course.Kept s after := by
  refine ⟨hpass.trans h.idle, hsetup.trans h.setup, ?_, ?_, ?_⟩
  · rw [hstore]
    exact h.initialized
  · rw [hstore]
    exact h.shows
  · rw [hstore]
    exact h.stamped

theorem Kept.poll (hadm : course.Admissible n) (htraced : course.Traced n) {q : Nat} (hq : q ≤ s) (hs : s ≤ j)
    (hj : j ≤ n) (h : course.Kept s session) (hsnapped : course.Snapped q session)
    (hgone : ∀ file, course.version? s file ≠ none → course.version? j file = none → course.version? q file ≠ none) :
    (∃ found, (session.poll (course.source j) (course.clock j)).2 = .ok found) ∧
      course.Kept j (session.poll (course.source j) (course.clock j)).1 ∧
      course.Snapped j (session.poll (course.source j) (course.clock j)).1 := by
  have hlist : (course.source j).list session.watch.patterns = .ok (course.files j) := by
    rw [h.patterns_eq]
    exact hadm.list_eq hj
  have hsource : Session.Followable (course.source j) course.settings.blockMode (course.files j) (course.census s)
      (course.Stamps s) := by
    refine ⟨course.regular j, hadm.sole s (hs.trans hj), hadm.sole j hj, ?_⟩
    intro file version stamp hversion hstamp hle
    exact agreeOn_of_version?_eq (version?_eq_of_stamps hadm htraced hs hj hversion hstamp hle)
  have hquiet : ∀ file, Session.changeBetween session.watch.snapshot
      (Session.snapshot (course.source j) (course.files j)).1 file = none →
      (course.census s).AgreeOn (course.census j) file := by
    intro file hnone
    rw [hsnapped.2] at hnone
    exact agreeOn_of_version?_eq (version?_eq_of_changeBetween htraced hq hs hj (hgone file) hnone)
  obtain ⟨hfound, hinitialized, hshows, hstamped, hpass, -, hwatch⟩ := Session.poll_follows hsource hlist hsnapped.1
    h.blockMode_eq h.initialized h.shows h.stamped hquiet (hadm.moment hj)
  refine ⟨hfound, ⟨hpass.trans h.idle, (Session.setup_poll ..).trans h.setup, hinitialized, hshows, ?_⟩, ?_⟩
  · intro file entry hentry
    rcases hstamped file entry hentry with hearlier | hnow
    · exact Stamps.mono hearlier hs
    · exact ⟨j, le_refl j, hnow⟩
  · rw [Snapped, show (session.poll (course.source j) (course.clock j)).1.watch = _ from hwatch]
    exact ⟨hsnapped.1, rfl⟩

/-- A session begins to listen while its index is up to date, or listens already. -/
theorem Kept.ensureListening (hadm : course.Admissible n) (hs : s ≤ j) (hj : j ≤ n) (h : course.Kept s session)
    (hcovers : course.Covers s j session) :
    ∃ listening q s', session.ensureListening (course.request j).here course.project = (listening, .ok ()) ∧
      q ≤ s' ∧ s' ≤ j ∧ course.Kept s' listening ∧ course.Snapped q listening ∧
      ∀ file, course.version? s' file ≠ none → course.version? j file = none → course.version? q file ≠ none := by
  have hlist : (course.source j).list session.watch.patterns = .ok (course.files j) := by
    rw [h.patterns_eq]
    exact hadm.list_eq hj
  rcases Session.ensureListening_cases (course.request j).here course.project session with
    ⟨hlisteners, hlistening⟩ | ⟨-, failure, hfailed, -⟩ | ⟨hlisteners, files, hfiles, hlistening⟩
  · rcases hcovers with ⟨hnone, -⟩ | ⟨q, hq, hsnapped, hgone⟩
    · exact absurd hnone hlisteners
    · exact ⟨session, q, s, hlistening, hq, hs, h, hsnapped, hgone⟩
  · cases hlist.symm.trans hfailed
  · obtain rfl : course.files j = files := Except.ok.inj (hlist.symm.trans hfiles)
    rcases hcovers with ⟨-, hsame⟩ | ⟨q, -, hsnapped, -⟩
    · have hshows : session.store.Shows (course.census j) := by
        apply h.shows.congr
        intro file
        exact agreeOn_of_version?_eq (hsame file)
      refine ⟨_, j, j, hlistening, le_refl j, le_refl j, ?_, ⟨rfl, rfl⟩, fun _ hthere hnone => absurd hnone hthere⟩
      exact ⟨h.idle, h.setup, h.initialized, hshows, fun file entry hentry => (h.stamped file entry hentry).mono hs⟩
    · cases hlisteners.symm.trans hsnapped.1

theorem Kept.answerPoll (hadm : course.Admissible n) (htraced : course.Traced n) (hs : s ≤ j) (hj : j ≤ n)
    (h : course.Kept s session) (hcovers : course.Covers s j session) :
    (∃ answer, (session.answerPoll (course.request j).here course.project).2 = .ok answer) ∧
      course.Kept j (session.answerPoll (course.request j).here course.project).1 ∧
      course.Snapped j (session.answerPoll (course.request j).here course.project).1 := by
  obtain ⟨listening, q, s', hlistening, hq, hs', hkept, hsnapped, hgone⟩ := h.ensureListening hadm hs hj hcovers
  obtain ⟨⟨found, hfound⟩, hafter, hsnapped'⟩ := hkept.poll hadm htraced hq hs' hj hsnapped hgone
  have hindex := Session.index_of_initialized h.idle h.initialized (course.source j) (course.clock j)
  have hpoll : listening.poll (course.source j) (course.clock j) =
      ((listening.poll (course.source j) (course.clock j)).1, .ok found) := by
    rw [← hfound]
  unfold Session.answerPoll
  rw [show session.index ((course.request j).here.source course.project) (course.request j).here.clock false =
    (session, true) from hindex]
  simp only [hlistening]
  rw [show listening.poll ((course.request j).here.source course.project) (course.request j).here.clock = _ from hpoll]
  exact ⟨⟨_, rfl⟩, hafter, hsnapped'⟩

/-! ### Indexing -/

theorem kept_index_forced (hadm : course.Admissible n) (hj : j ≤ n) (hidle : session.pass = none)
    (hsetup : session.setup = .ofSettings course.settings) :
    course.Kept j (session.index (course.source j) (course.clock j) true).1 ∧
      (session.index (course.source j) (course.clock j) true).1.runs = session.runs + 1 ∧
      (session.index (course.source j) (course.clock j) true).1.watch = session.watch ∧
      (session.index (course.source j) (course.clock j) true).1.store.expiredCount (course.clock j) = 0 := by
  have hsettings : session.settings = course.settings := congrArg Setup.settings hsetup
  have hmode : session.services.blockMode = course.settings.blockMode :=
    congrArg (fun setup => setup.services.blockMode) hsetup
  have hlifetimes : session.store.lifetimes = ⟨course.settings.ttl, course.settings.ttl, course.settings.ttl⟩ :=
    congrArg Setup.lifetimes hsetup
  have hpos := course.settings.ttl_pos
  rcases Session.index_forced_cases hidle hsetup (course.source j) (hadm.moment hj) with ⟨failure, hfailed, -⟩ | hpass
  · obtain ⟨files, hfiles⟩ := hadm.ordered j hj
    cases hfiles.symm.trans hfailed
  · have hlisted : (course.source j).list session.settings.factoryPaths = .ok (course.files j) := by
      rw [hsettings]
      exact hadm.list_eq hj
    have hsole : ((course.source j).census session.services.blockMode (course.files j)).Sole := by
      rw [hmode]
      exact hadm.sole j hj
    obtain ⟨files, -, hidle', hinitialized, hreflects⟩ := hpass.reflects hpos (course.regular j).listsInOrder hlisted
      hlifetimes
    have hshows := hpass.shows (course.regular j) hlisted hsole
    have hstamped := hpass.stamped_wall (course.regular j) hlisted
    obtain ⟨hwatch, hruns⟩ := hpass.keeps
    rw [hmode] at hshows
    refine ⟨⟨hidle', (Session.setup_index ..).trans hsetup, hinitialized, hshows, ?_⟩, hruns, hwatch,
      hreflects.expiredCount_eq_zero hpos⟩
    intro file entry hentry
    exact ⟨j, le_refl j, Or.inl (hstamped file entry hentry)⟩

/-- What a request that does not poll does to a session: nothing, or a pass. -/
def Indexes (course : Course) (j : Nat) (session after : Session) : Prop :=
  after.watch = session.watch ∧
    ((after.runs = session.runs ∧ after.store = session.store ∧ after.pass = session.pass ∧
        after.setup = session.setup) ∨
      (session.runs < after.runs ∧ course.Kept j after))

theorem indexes_index (hadm : course.Admissible n) (hj : j ≤ n) (hidle : session.pass = none)
    (hsetup : session.setup = .ofSettings course.settings)
    (hlive : session.store.expiredCount (course.clock j) = 0) (force : Bool) :
    course.Indexes j session (session.index (course.source j) (course.clock j) force).1 ∧
      (session.index (course.source j) (course.clock j) force).1.store.expiredCount (course.clock j) = 0 := by
  rcases Session.index_eq_or_forced hidle (course.source j) (course.clock j) force with ⟨-, hsame⟩ | hforced
  · rw [hsame]
    exact ⟨⟨rfl, Or.inl ⟨rfl, rfl, rfl, rfl⟩⟩, hlive⟩
  · obtain ⟨hkept, hruns, hwatch, hlive'⟩ := kept_index_forced hadm hj hidle hsetup
    rw [hforced]
    exact ⟨⟨hwatch, Or.inr ⟨by omega, hkept⟩⟩, hlive'⟩

/-- An operation after which the store is as before. -/
theorem Indexes.sameBut {middle : Session} (h : course.Indexes j session middle)
    (hsame : Session.SameBut middle.store middle after) (hsetup : after.setup = middle.setup) :
    course.Indexes j session after := by
  obtain ⟨hwatch, hstore⟩ := h
  refine ⟨hsame.watch_eq.trans hwatch, hstore.imp ?_ ?_⟩
  · intro ⟨hruns, hstore, hpass, hsetup'⟩
    exact ⟨hsame.runs_eq.trans hruns, hsame.store_eq.trans hstore, hsame.pass_eq.trans hpass, hsetup.trans hsetup'⟩
  · intro ⟨hruns, hkept⟩
    exact ⟨hsame.runs_eq ▸ hruns, hkept.of_eq hsame.pass_eq hsetup hsame.store_eq⟩

theorem indexes_run (hadm : course.Admissible n) (hj : j ≤ n) (hidle : session.pass = none)
    (hsetup : session.setup = .ofSettings course.settings)
    (hlive : session.store.expiredCount (course.clock j) = 0) {command : SessionCommand} (hchanged : command ≠ .changed)
    (hpoll : command ≠ .poll) (args : Value) :
    course.Indexes j session (command.run (course.request j).here course.project args session).1 := by
  have hindex (force : Bool) := indexes_index hadm hj hidle hsetup hlive force
  have hmeasures := (hadm.readable j hj).1
  have hself : course.Indexes j session session := ⟨rfl, Or.inl ⟨rfl, rfl, rfl, rfl⟩⟩
  cases command with
  | index =>
      simp only [SessionCommand.run, Session.answerIndex]
      split
      · exact hself
      · exact (hindex _).1
  | resolve =>
      simp only [SessionCommand.run, Session.answerResolve]
      split
      · exact (hindex false).1
      · next value _ =>
        obtain ⟨hindexed, hlive'⟩ := hindex false
        obtain ⟨_, rfl, hsame⟩ := Session.resolve_keeps hmeasures value
          (session.index (course.source j) (course.clock j) false).1
          (motive := fun store => store = (session.index (course.source j) (course.clock j) false).1.store)
          (fun store lookup hstore => by
            rw [hstore]
            exact Store.touch_of_expiredCount_eq_zero hlive' lookup) rfl
        exact hindexed.sameBut hsame (Session.setup_resolve _ value _)
  | stats =>
      have hsame := Session.cleanup_of_readable hmeasures session
      rw [Store.cleanup_of_expiredCount_eq_zero hlive] at hsame
      exact hself.sameBut hsame (Session.setup_cleanup _ session)
  | changed => exact absurd rfl hchanged
  | poll => exact absurd rfl hpoll

/-! ### One request -/

def Built (course : Course) (s : Nat) (session : Session) : Prop :=
  course.runs s < course.runs (s + 1) ∧ course.runs (s + 1) = session.runs

/-- What the watch of a session tells about the polls before a request, the index having been up to date at another one.
With settings that do not agree with themselves the watch starts over at every request. -/
def Recalls (course : Course) (s j : Nat) (session : Session) : Prop :=
  (session.watch.listeners = [] ∧ (∀ i < j, ¬ course.Polls i) ∧ course.Built s session) ∨
  ∃ q ≤ s, course.Snapped q session ∧ (course.settings.agrees course.settings = true →
    course.Polls q ∧ (∀ i, q < i → i < j → ¬ course.Polls i) ∧ (q = s ∨ course.Built s session))

structure Stands (course : Course) (j : Nat) (session : Session) : Prop where
  idle : session.pass = none
  setup : session.setup = .ofSettings course.settings
  index : (session.store.initialized = false ∧ session.watch.listeners = [] ∧ ∀ i < j, ¬ course.Polls i) ∨
    ∃ s < j, course.Kept s session ∧ course.Recalls s j session

/-- The session that a command is run on: the one from before, or one that has taken on its settings again. -/
def Ready (course : Course) (j : Nat) (session : Session) : Prop :=
  (course.runs j = session.runs ∧ course.Stands j session ∧
    (session.store.initialized = true → course.settings.agrees course.settings = true)) ∨
  (course.runs j < session.runs ∧ course.settings.agrees course.settings = false ∧ course.Kept j session ∧
    ((session.watch.listeners = [] ∧ ∀ i < j, ¬ course.Polls i) ∨ course.Snapped j session))

theorem Recalls.covers (htraced : course.Traced n) (hj : j ≤ n) (hs : s < j) (hpolls : course.Polls j)
    (hagrees : course.settings.agrees course.settings = true) (hruns : course.runs (j + 1) = session.runs)
    (h : course.Recalls s j session) : course.Covers s j session := by
  have hbuilt (hs' : course.Built s session) : course.BuiltAt s j := ⟨hs, hs'.1, hs'.2.trans hruns.symm⟩
  rcases h with ⟨hlisteners, hnone, hs'⟩ | ⟨q, hq, hsnapped, hpolled⟩
  · exact Or.inl ⟨hlisteners, htraced.first s j hj hpolls hnone (hbuilt hs')⟩
  · refine Or.inr ⟨q, hq, hsnapped, fun file hthere hgone => ?_⟩
    obtain ⟨hpolls', hbetween, hsame | hs'⟩ := hpolled hagrees
    · rw [hsame]
      exact hthere
    · rcases Nat.lt_or_eq_of_le hq with hlt | rfl
      · exact htraced.gone q s j hlt hj hpolls' hpolls hbetween (hbuilt hs') file hthere hgone
      · exact hthere

theorem runs_answerPoll (hidle : session.pass = none) (hinitialized : session.store.initialized = true)
    (here : Surroundings) (project : RawText) : (session.answerPoll here project).1.runs = session.runs := by
  have hlisten : (session.ensureListening here project).1.runs = session.runs := by
    rcases Session.ensureListening_cases here project session with
      ⟨-, hsame⟩ | ⟨-, failure, -, hsame⟩ | ⟨-, files, -, hlistening⟩
    · rw [hsame]
    · rw [hsame]
    · rw [hlistening]
      rfl
  unfold Session.answerPoll
  rw [Session.index_of_initialized hidle hinitialized]
  simp only
  split
  · next listening failure hlistening => rwa [hlistening] at hlisten
  · next listening hlistening =>
    rw [hlistening] at hlisten
    have hpoll := (Session.runs_poll (here.source project) here.clock listening).trans hlisten
    split
    · next polled failure hpolled => rwa [hpolled] at hpoll
    · next polled changes hpolled => rwa [hpolled] at hpoll

/-- To poll begins with an index, so it makes no difference if that was there. -/
theorem answerPoll_index {here : Surroundings} {project : RawText}
    (hidle : (session.index (here.source project) here.clock false).1.pass = none)
    (hinitialized : (session.index (here.source project) here.clock false).1.store.initialized = true) :
    session.answerPoll here project =
      (session.index (here.source project) here.clock false).1.answerPoll here project := by
  conv_rhs => unfold Session.answerPoll
  rw [Session.index_of_initialized hidle hinitialized]
  rfl

/-- A poll brings the index up to date whatever session it is given. -/
theorem Ready.answerPoll (hadm : course.Admissible n) (htraced : course.Traced n) (hj : j ≤ n) (hpolls : course.Polls j)
    (hruns : course.runs (j + 1) = (session.answerPoll (course.request j).here course.project).1.runs)
    (h : course.Ready j session) :
    (∃ answer, (session.answerPoll (course.request j).here course.project).2 = .ok answer) ∧
      course.Kept j (session.answerPoll (course.request j).here course.project).1 ∧
      course.Snapped j (session.answerPoll (course.request j).here course.project).1 := by
  rcases h with ⟨-, ⟨hidle, hsetup, ⟨hnot, hlisteners, -⟩ | ⟨s, hs, hkept, hrecalls⟩⟩, hagrees⟩ | ⟨-, -, hkept, hwatch⟩
  · -- There is no index yet, so one is built right now.
    have hforced := Session.index_of_not_initialized hnot (course.source j) (course.clock j)
    obtain ⟨hkept, -, hwatch, -⟩ := kept_index_forced hadm hj hidle hsetup
    rw [← hforced] at hkept hwatch
    rw [answerPoll_index hkept.idle hkept.initialized]
    apply hkept.answerPoll hadm htraced (le_refl j) hj
    exact Or.inl ⟨hwatch ▸ hlisteners, fun _ => rfl⟩
  · apply hkept.answerPoll hadm htraced hs.le hj
    apply hrecalls.covers htraced hj hs hpolls (hagrees hkept.initialized)
    rw [hruns, runs_answerPoll hkept.idle hkept.initialized]
  · apply hkept.answerPoll hadm htraced (le_refl j) hj
    rcases hwatch with ⟨hlisteners, -⟩ | hsnapped
    · exact Or.inl ⟨hlisteners, fun _ => rfl⟩
    · exact Or.inr ⟨j, le_refl j, hsnapped, fun _ hthere hgone => absurd hgone hthere⟩

/-- What is known of polls before a request without one is known after it, as well if that builds the index. -/
theorem Recalls.next {s' : Nat} (hpolls : ¬ course.Polls j) (h : course.Recalls s j session) (hs : s ≤ s')
    (hwatch : after.watch = session.watch)
    (hbuilt : (s' = s ∧ after.runs = session.runs) ∨ course.Built s' after) : course.Recalls s' (j + 1) after := by
  have hstill (hs : course.Built s session) : course.Built s' after := by
    rcases hbuilt with ⟨rfl, hruns⟩ | hbuilt
    · exact ⟨hs.1, hs.2.trans hruns.symm⟩
    · exact hbuilt
  rcases h with ⟨hlisteners, hnone, hs'⟩ | ⟨q, hq, ⟨hlisteners, hsnapshot⟩, hpolled⟩
  · refine Or.inl ⟨hwatch ▸ hlisteners, fun i hi => ?_, hstill hs'⟩
    rcases Nat.lt_succ_iff_lt_or_eq.1 hi with hlt | rfl
    · exact hnone i hlt
    · exact hpolls
  · refine Or.inr ⟨q, hq.trans hs, ⟨hwatch ▸ hlisteners, hwatch ▸ hsnapshot⟩, fun hagrees => ?_⟩
    obtain ⟨hpolls', hbetween, hsame⟩ := hpolled hagrees
    refine ⟨hpolls', fun i hlt hi => ?_, ?_⟩
    · rcases Nat.lt_succ_iff_lt_or_eq.1 hi with hlt' | rfl
      · exact hbetween i hlt hlt'
      · exact hpolls
    · rcases hbuilt with ⟨rfl, -⟩ | hbuilt
      · exact hsame.imp_right hstill
      · exact Or.inr hbuilt

theorem Ready.next (hpolls : ¬ course.Polls j) (hruns : course.runs (j + 1) = after.runs) (h : course.Ready j session)
    (hindexes : course.Indexes j session after) : course.Stands (j + 1) after := by
  have hnone (hbefore : ∀ i < j, ¬ course.Polls i) : ∀ i < j + 1, ¬ course.Polls i := by
    intro i hi
    rcases Nat.lt_succ_iff_lt_or_eq.1 hi with hlt | rfl
    · exact hbefore i hlt
    · exact hpolls
  obtain ⟨hwatch, hstore⟩ := hindexes
  rcases h with ⟨hbefore, ⟨hidle, hsetup, ⟨hnot, hlisteners, hbefore'⟩ | ⟨s, hs, hkept, hrecalls⟩⟩, -⟩ |
    ⟨hbefore, hagrees, hkept, hlistens⟩
  · rcases hstore with ⟨-, hsame, hpass, hsetup'⟩ | ⟨hmore, hkept⟩
    · exact ⟨hpass.trans hidle, hsetup'.trans hsetup, Or.inl ⟨hsame ▸ hnot, hwatch ▸ hlisteners, hnone hbefore'⟩⟩
    · refine ⟨hkept.idle, hkept.setup, Or.inr ⟨j, Nat.lt_succ_self j, hkept, Or.inl ⟨?_, hnone hbefore', ?_⟩⟩⟩
      · rw [hwatch]
        exact hlisteners
      · exact ⟨by omega, hruns⟩
  · rcases hstore with ⟨hruns', hsame, hpass, hsetup'⟩ | ⟨hmore, hkept'⟩
    · refine ⟨hpass.trans hidle, hsetup'.trans hsetup, Or.inr ⟨s, by omega, hkept.of_eq hpass hsetup' hsame, ?_⟩⟩
      exact hrecalls.next hpolls (le_refl s) hwatch (Or.inl ⟨rfl, hruns'⟩)
    · refine ⟨hkept'.idle, hkept'.setup, Or.inr ⟨j, Nat.lt_succ_self j, hkept', ?_⟩⟩
      exact hrecalls.next hpolls hs.le hwatch (Or.inr ⟨by omega, hruns⟩)
  · have hkept' : course.Kept j after ∧ session.runs ≤ after.runs := by
      rcases hstore with ⟨hruns', hsame, hpass, hsetup'⟩ | ⟨hmore, hkept'⟩
      · exact ⟨hkept.of_eq hpass hsetup' hsame, hruns'.ge⟩
      · exact ⟨hkept', hmore.le⟩
    obtain ⟨hkept', hmore⟩ := hkept'
    refine ⟨hkept'.idle, hkept'.setup, Or.inr ⟨j, Nat.lt_succ_self j, hkept', ?_⟩⟩
    rcases hlistens with ⟨hlisteners, hbefore'⟩ | ⟨hlisteners, hsnapshot⟩
    · exact Or.inl ⟨hwatch ▸ hlisteners, hnone hbefore', by omega, hruns⟩
    · refine Or.inr ⟨j, le_refl j, ⟨hwatch ▸ hlisteners, hwatch ▸ hsnapshot⟩, fun hagrees' => ?_⟩
      rw [hagrees] at hagrees'
      cases hagrees'

theorem Stands.withoutReports (h : course.Stands j session) : course.Stands j session.withoutReports := by
  refine ⟨h.idle, h.setup, h.index.imp_right ?_⟩
  intro ⟨s, hs, hkept, hrecalls⟩
  exact ⟨s, hs, hkept.of_eq rfl rfl rfl, hrecalls⟩

/-- The project has a session as soon as there was a request. -/
structure Standing (course : Course) (j : Nat) : Prop where
  stands : ∀ session, OrderedMap.get? (course.registry j) course.project = some session → course.Stands j session
  unknown : OrderedMap.get? (course.registry j) course.project = none → j = 0

/-- A session that listens or was polled never, whose settings do not agree with themselves. -/
theorem Stands.ready_of_not_agrees (hadm : course.Admissible n) (hj : j ≤ n) (h : course.Stands j session)
    (hruns : course.runs j = session.runs) (hagrees : course.settings.agrees course.settings = false) :
    ∃ found answer, session.applySettings (course.source j) (course.clock j) course.settings = (found, .ok answer) ∧
      course.Ready j found ∧ found.pass = none ∧ found.setup = .ofSettings course.settings ∧
      found.store.expiredCount (course.clock j) = 0 := by
  have hadopt : (session.adopt (course.source j) course.settings).2 = .ok () := by
    rw [Session.adopt_eq_ok_iff]
    exact ⟨hadm.fits, fun _ _ => ⟨_, hadm.list_eq hj⟩⟩
  obtain ⟨hpass, hruns', -, hlisteners, hsnapshot⟩ :=
    Session.adopt_again h.setup (course.regular j).tracksChanges hadopt
  have hsetup := Session.setup_adopt hadopt
  obtain ⟨hkept, hmore, hwatch, hlive⟩ := kept_index_forced hadm hj (hpass.trans h.idle) hsetup
  have hlistens : (session.watch.listeners = [] ∧ ∀ i < j, ¬ course.Polls i) ∨
      session.watch.listeners = [.session] := by
    rcases h.index with ⟨-, hnone, hbefore⟩ | ⟨s, -, -, ⟨hnone, hbefore, -⟩ | ⟨q, -, ⟨hsession, -⟩, -⟩⟩
    · exact Or.inl ⟨hnone, hbefore⟩
    · exact Or.inl ⟨hnone, hbefore⟩
    · exact Or.inr hsession
  refine ⟨_, _, Session.applySettings_of_adopt hadopt _, Or.inr ⟨by omega, hagrees, hkept, ?_⟩, hkept.idle, hkept.setup,
    hlive⟩
  rw [Snapped, hwatch, hlisteners]
  rcases hlistens with hnone | hsession
  · exact Or.inl hnone
  · obtain ⟨files, hfiles, htimes⟩ := hsnapshot (by rw [hsession]; exact List.cons_ne_nil _ _)
    obtain rfl : course.files j = files := Except.ok.inj ((hadm.list_eq hj).symm.trans hfiles)
    exact Or.inr ⟨hsession, htimes⟩

theorem Standing.ready (hadm : course.Admissible n) (hj : j ≤ n) (h : course.Standing j) :
    ∃ found, (course.registry j).sessionFor (course.request j).here course.project course.settings =
        .ok (found, .ok ()) ∧
      course.Ready j found ∧ found.pass = none ∧ found.setup = .ofSettings course.settings ∧
      found.store.expiredCount (course.clock j) = 0 := by
  cases hprevious : OrderedMap.get? (course.registry j) course.project with
  | none =>
      have hcreated := Session.create_eq_blank hadm.fits
      have hsetup : (Session.blank course.settings).setup = .ofSettings course.settings := Session.setup_create hcreated
      obtain rfl := h.unknown hprevious
      refine ⟨.blank course.settings, ?_, Or.inl ⟨rfl, ⟨rfl, hsetup, Or.inl ⟨rfl, rfl, ?_⟩⟩, ?_⟩, rfl, hsetup, rfl⟩
      · simp only [Registry.sessionFor, hprevious, hcreated, Except.map]
      · intro i hi
        omega
      · intro hinitialized
        cases hinitialized
  | some previous =>
      have hstands := h.stands previous hprevious
      have hsettings : previous.settings = course.settings := congrArg Setup.settings hstands.setup
      have hruns : course.runs j = previous.runs := by
        rw [runs, Registry.runs, hprevious]
        rfl
      cases hagrees : course.settings.agrees course.settings with
      | true =>
          refine ⟨previous, ?_, Or.inl ⟨hruns, hstands, fun _ => hagrees⟩, hstands.idle, hstands.setup,
            hadm.live j hj previous hprevious⟩
          simp only [Registry.sessionFor, hprevious, hsettings, hagrees, if_true]
      | false =>
          obtain ⟨found, answer, happly, hready⟩ := hstands.ready_of_not_agrees hadm hj hruns hagrees
          refine ⟨found, ?_, hready⟩
          simp only [Registry.sessionFor, hprevious, hsettings, hagrees, Bool.false_eq_true, if_false]
          rw [show previous.applySettings ((course.request j).here.source course.project) (course.request j).here.clock
            course.settings = _ from happly]
          rfl

/-- One request: the session stands again, and a poll has brought it up to date. -/
theorem Standing.step (hadm : course.Admissible n) (htraced : course.Traced n) (hj : j ≤ n) (h : course.Standing j) :
    course.Standing (j + 1) ∧ (course.Polls j → (∃ answer, course.outcome j = .ok answer) ∧
      ∃ session, OrderedMap.get? (course.registry (j + 1)) course.project = some session ∧ course.Kept j session) := by
  obtain ⟨command, hchanged, herrand⟩ := hadm.asks j hj
  obtain ⟨found, hfor, hready, hidle, hsetup, hlive⟩ := h.ready hadm hj
  obtain ⟨hregistry, houtcome⟩ := Registry.answer_of_errand herrand (course.registry j)
  obtain ⟨hregistry', houtcome'⟩ := Registry.runOnSession_of_ok hfor command (course.request j).args
  let after := (command.run (course.request j).here course.project (course.request j).args found).1
  have hget : OrderedMap.get? (course.registry (j + 1)) course.project = some after.withoutReports := by
    rw [registry, hregistry, hregistry', OrderedMap.get?_insert, if_pos rfl]
  have hruns : course.runs (j + 1) = after.runs := by
    rw [runs, Registry.runs, hget]
    rfl
  have hpolls : course.Polls j ↔ command = .poll := by
    rw [Polls, herrand]
    simp
  have hstanding (hstands : course.Stands (j + 1) after) : course.Standing (j + 1) := by
    constructor
    · intro session hsession
      rw [hget] at hsession
      cases hsession
      exact hstands.withoutReports
    · intro hnone
      rw [hget] at hnone
      cases hnone
  by_cases hcommand : command = .poll
  · subst hcommand
    obtain ⟨⟨answer, hanswer⟩, hkept, hsnapped⟩ := hready.answerPoll hadm htraced hj (hpolls.2 rfl) hruns
    refine ⟨hstanding ⟨hkept.idle, hkept.setup, Or.inr ⟨j, Nat.lt_succ_self j, hkept, Or.inr ⟨j, le_refl j, hsnapped,
      fun _ => ⟨hpolls.2 rfl, fun i hlt hi => ?_, Or.inl rfl⟩⟩⟩⟩, fun _ => ⟨⟨answer, ?_⟩, _, hget, ?_⟩⟩
    · omega
    · rw [outcome, houtcome, houtcome']
      exact hanswer
    · exact hkept.of_eq rfl rfl rfl
  · have hindexes := indexes_run hadm hj hidle hsetup hlive hchanged hcommand (course.request j).args
    have hnot : ¬ course.Polls j := fun hpoll => hcommand (hpolls.1 hpoll)
    exact ⟨hstanding (hready.next hnot hruns hindexes), fun hpoll => absurd hpoll hnot⟩

theorem Admissible.standing (hadm : course.Admissible n) (htraced : course.Traced n) (hj : j ≤ n) :
    course.Standing j := by
  induction j with
  | zero =>
      refine ⟨fun session hsession => ?_, fun _ => rfl⟩
      rw [registry, OrderedMap.get?_empty] at hsession
      cases hsession
  | succ j ih => exact ((ih (by omega)).step hadm htraced (by omega)).1

end Course

/-! ### A project of at most one file -/

namespace Course

/-- What there is at a request for a project of at most one file: the command, whether an index is built by force, the
bytes of the file with the time when they were written, and how much time has passed. Times are in milliseconds. -/
structure Step where
  command : String
  force : Bool := false
  file? : Option (List UInt8 × Int)
  passed : Int

def stepArgs (force : Bool) : Value := .object [("factory_paths", .list [.text "*.rb"]),
  ("block_mode", .text "regex"), ("factory_methods", .list [.text "create"]), ("force", .bool force)]

def ofSteps (steps : Nat → Step) : Course where
  project := "p"
  settings := (Settings.load (stepArgs false) .empty).outcome.toOption.getD .default
  request n :=
    { here :=
        { tree := match (steps n).file? with
            | some (bytes, modified) => ({} : Tree).write (.ofText "p/a.rb") (.file bytes (reading modified))
            | none => ({} : Tree).makeFolders (.ofText "p")
          clock := ⟨reading (1000000 + (steps n).passed), reading (1000000000 + (steps n).passed)⟩ }
      command := .text (steps n).command
      project := .text "p"
      args := stepArgs (steps n).force }

/-- A text that defines one factory, whose name is one letter. -/
def factoryNamed (letter : UInt8) : List UInt8 := [102, 97, 99, 116, 111, 114, 121, 32, 58, letter, 32, 100, 111]

variable {steps : Nat → Step} {course : Course} {i n : Nat}

theorem load_stepArgs (force : Bool) :
    (Settings.load (stepArgs force) .empty).outcome = .ok (ofSteps steps).settings := by
  have hsame : Settings.load (stepArgs force) .empty = Settings.load (stepArgs false) .empty := by
    cases force <;> rfl
  have hloaded : (Settings.load (stepArgs false) .empty).outcome.toOption.isSome = true := by decide +kernel
  rw [hsame]
  cases houtcome : (Settings.load (stepArgs false) .empty).outcome with
  | error failure =>
      rw [houtcome] at hloaded
      cases hloaded
  | ok settings =>
      simp only [ofSteps, houtcome]
      rfl

theorem errand?_ofSteps {command : SessionCommand}
    (hcommand : Command.ofValue? (.text (steps i).command) = some (.onSession command)) :
    ((ofSteps steps).request i).errand? = some ⟨command, (ofSteps steps).project, (ofSteps steps).settings⟩ := by
  unfold Request.errand?
  rw [show Command.ofValue? ((ofSteps steps).request i).command = _ from hcommand,
    show (Settings.load ((ofSteps steps).request i).args ((ofSteps steps).request i).here.environment).outcome = _
      from load_stepArgs (steps i).force]
  rfl

theorem sole_of_files {file : RawText} (hfiles : ∀ name ∈ course.files i, name = file) : (course.census i).Sole := by
  constructor
  · intro a b name ⟨ha, _⟩ ⟨hb, _⟩
    rw [hfiles a ha, hfiles b hb]
  · intro a b key ⟨ha, _⟩ ⟨hb, _⟩
    rw [hfiles a ha, hfiles b hb]

theorem version?_eq_none {file other : RawText} (hfiles : ∀ name ∈ course.files i, name = file) (hne : other ≠ file) :
    course.version? i other = none := by
  rw [version?, Source.version?, if_neg]
  exact fun hlisted => hne (hfiles other hlisted)

/-- For a project of at most one file it can be computed whether requests are admissible. -/
theorem admissible_ofSteps
    (hcommands : ∀ i ≤ n, (steps i).command ∈ ["index", "resolve", "poll", "stats"])
    (hreadable : ∀ i ≤ n, ((ofSteps steps).clock i).measures = true ∧ ((ofSteps steps).clock i).tellsDay = true)
    (hfiles : ∀ i ≤ n, ∀ file ∈ (ofSteps steps).files i, file = "a.rb")
    (hordered : ∀ i ≤ n, (Session.filesToIndex ((ofSteps steps).source i) (ofSteps steps).settings).isOk = true)
    (hstamped : ∀ i ≤ n, ∀ j ≤ n, i < j → (ofSteps steps).version? i "a.rb" = (ofSteps steps).version? j "a.rb" ∨
      ∀ k ≤ i, ((ofSteps steps).version? j "a.rb").all fun version => ((ofSteps steps).clock k).wall < version.time)
    (hlive : ∀ i ≤ n, (OrderedMap.get? ((ofSteps steps).registry i) "p").all fun session =>
      session.store.expiredCount ((ofSteps steps).clock i) == 0) :
    (ofSteps steps).Admissible n := by
  refine ⟨fun i hi => ?_, hreadable, ?_, fun i hi => ?_, fun i hi => sole_of_files (hfiles i hi), ?_, ?_⟩
  · have hcommand := hcommands i hi
    simp only [List.mem_cons, List.not_mem_nil, or_false] at hcommand
    rcases hcommand with hcommand | hcommand | hcommand | hcommand
    · exact ⟨.index, by decide, errand?_ofSteps (by rw [hcommand]; rfl)⟩
    · exact ⟨.resolve, by decide, errand?_ofSteps (by rw [hcommand]; rfl)⟩
    · exact ⟨.poll, by decide, errand?_ofSteps (by rw [hcommand]; rfl)⟩
    · exact ⟨.stats, by decide, errand?_ofSteps (by rw [hcommand]; rfl)⟩
  · show fitsSeconds ((Settings.load (stepArgs false) .empty).outcome.toOption.getD .default).ttl = true
    decide +kernel
  · have hok := hordered i hi
    cases hsorted : Session.filesToIndex ((ofSteps steps).source i) (ofSteps steps).settings with
    | error failure =>
        rw [hsorted] at hok
        cases hok
    | ok files => exact ⟨files, rfl⟩
  · intro i j hlt hj file version hversion hne k hk
    by_cases hfile : file = "a.rb"
    · subst hfile
      rcases hstamped i (by omega) j hj hlt with hsame | hlater
      · exact absurd (hsame.trans hversion) hne
      · have hbefore := hlater k hk
        rw [hversion] at hbefore
        exact of_decide_eq_true hbefore
    · rw [version?_eq_none (hfiles j hj) hfile] at hversion
      cases hversion
  · intro i hi session hsession
    have hnone := hlive i hi
    rw [show OrderedMap.get? ((ofSteps steps).registry i) "p" = some session from hsession] at hnone
    exact eq_of_beq hnone

/-- A poll after which a file is noted for a factory that it does not define. -/
def Misses (course : Course) (n : Nat) : Prop :=
  course.Polls n ∧ ∃ session, OrderedMap.get? (course.registry (n + 1)) course.project = some session ∧
    ∃ file name, Store.Kind.factory.Noted session.store file name ∧ ¬ (course.census n).factories file name

theorem misses_ofSteps (name : String) (hcommand : (steps n).command = "poll")
    (hnoted : ((OrderedMap.get? ((ofSteps steps).registry (n + 1)) "p").any fun session =>
      (session.store.files.get? "a.rb").any fun entry => decide (name ∈ entry.factories.names)) = true)
    (hdefined : ∀ file ∈ (ofSteps steps).files n,
      ∀ factory ∈ (((ofSteps steps).source n).outline (ofSteps steps).settings.blockMode file).factories,
        factory.name ≠ name) :
    (ofSteps steps).Misses n := by
  obtain ⟨session, hsession, hentry⟩ := (Option.any_eq_true ..).1 hnoted
  obtain ⟨entry, hentry, hname⟩ := (Option.any_eq_true ..).1 hentry
  have hmem : name ∈ entry.factories.names := of_decide_eq_true hname
  refine ⟨errand?_ofSteps (by rw [hcommand]; rfl), session, hsession, "a.rb", name, ⟨entry, hentry, hmem⟩, ?_⟩
  intro ⟨hfile, factory, hfactory, hname⟩
  exact hdefined "a.rb" hfile factory hfactory hname

end Course

/-! ### After a poll -/

/-- **After a poll the index is up to date.** Whatever requests there were before, and whatever has happened to the
files meanwhile, a poll succeeds, and after it every file of the project is noted for the factories and the traits that
its text defines now, and no other file is noted for anything, provided that no change went without a trace. -/
theorem poll_up_to_date (course : Course) (n : Nat) (hadm : course.Admissible n) (htraced : course.Traced n)
    (hpolls : course.Polls n) :
    (∃ answer, course.outcome n = .ok answer) ∧
      ∃ session, OrderedMap.get? (course.registry (n + 1)) course.project = some session ∧
        (∀ file name, Store.Kind.factory.Noted session.store file name ↔ (course.census n).factories file name) ∧
        ∀ file key, Store.Kind.trait.Noted session.store file key ↔ (course.census n).traits file key := by
  obtain ⟨-, hstep⟩ := (hadm.standing htraced (le_refl n)).step hadm htraced (le_refl n)
  obtain ⟨hanswer, session, hget, hkept⟩ := hstep hpolls
  exact ⟨hanswer, session, hget, hkept.shows.factories, hkept.shows.traits⟩

/-- A file is edited after a poll and then listed as it was before. The next poll makes up for that. -/
theorem poll_up_to_date_edited :
    let course := Course.ofSteps fun
      | 0 => { command := "poll", file? := some (Course.factoryNamed 117, 900000000), passed := 0 }
      | 1 => { command := "index", file? := some (Course.factoryNamed 118, 1000000125), passed := 1000 }
      | _ => { command := "poll", file? := some (Course.factoryNamed 118, 1000000125), passed := 2000 }
    course.Admissible 2 ∧ course.Traced 2 ∧
      ∃ session, OrderedMap.get? (course.registry 3) course.project = some session ∧
        Store.Kind.factory.Noted session.store "a.rb" "v" ∧ ¬ Store.Kind.factory.Noted session.store "a.rb" "u" := by
  intro course
  have hadm : course.Admissible 2 := by
    apply Course.admissible_ofSteps <;> decide +kernel
  have hfiles : ∀ i ≤ 2, ∀ file ∈ course.files i, file = "a.rb" := by decide +kernel
  have hlisted : RawText.plain "a.rb" ∈ course.files 2 := by decide +kernel
  have hpolls : course.Polls 0 := Course.errand?_ofSteps (by rfl)
  have htraced : course.Traced 2 := by
    have htimes : ∀ i ≤ 2, ∀ j ≤ 2, i < j → course.version? i "a.rb" = course.version? j "a.rb" ∨
        ∀ k ≤ i, (course.version? j "a.rb").all fun version =>
          (course.version? k "a.rb").all fun earlier => earlier.time < version.time := by
      decide +kernel
    refine ⟨?_, ?_, ?_⟩
    · intro i j hlt hj file version hversion hne k hk earlier hearlier
      by_cases hfile : file = "a.rb"
      · subst hfile
        rcases htimes i (by omega) j hj hlt with hsame | hlater
        · exact absurd (hsame.trans hversion) hne
        · have hbefore := hlater k hk
          rw [hversion, hearlier] at hbefore
          exact of_decide_eq_true hbefore
      · rw [Course.version?_eq_none (hfiles j hj) hfile] at hversion
        cases hversion
    · intro i j hj _ hnone hbuilt
      have hlt := hbuilt.1
      exact absurd hpolls (hnone 0 (by omega))
    · intro q i j hq hj _ _ _ hbuilt file hthere hgone
      have hlt := hbuilt.1
      obtain ⟨rfl, rfl⟩ : i = 1 ∧ j = 2 := by omega
      have htree : ∀ n, n = 1 ∨ n = 2 → (course.request n).here.tree = ({} : Tree).write (.ofText "p/a.rb")
          (.file (Course.factoryNamed 118) (reading 1000000125)) := by
        rintro n (rfl | rfl) <;> rfl
      have hsame : course.version? 1 file = course.version? 2 file := by
        simp only [Course.version?, Course.files, Course.source, Surroundings.source, htree 1 (Or.inl rfl),
          htree 2 (Or.inr rfl)]
      rw [hsame] at hthere
      exact absurd hgone hthere
  have hdefined : ((course.source 2).outline course.settings.blockMode "a.rb").factories.map Factory.name = ["v"] := by
    decide +kernel
  obtain ⟨-, session, hsession, hnoted, -⟩ := poll_up_to_date course 2 hadm htraced (Course.errand?_ofSteps (by rfl))
  refine ⟨hadm, htraced, session, hsession, ?_, ?_⟩
  · rw [hnoted]
    obtain ⟨factory, hfactory, hname⟩ := List.mem_map.1 (hdefined ▸ List.mem_singleton_self "v")
    exact ⟨hlisted, factory, hfactory, hname⟩
  · rw [hnoted]
    intro ⟨_, factory, hfactory, hname⟩
    have hmem := List.mem_map_of_mem (f := Factory.name) hfactory
    rw [hdefined, hname] at hmem
    exact absurd (List.mem_singleton.1 hmem) (by decide)

/-- Three changes that leave no trace, so that polls miss them. A file is edited after the index was built and before
the first poll. A file whose time is yet to come is edited and given an earlier time, which is after all requests, too.
And a file comes after a poll, is indexed by force and is gone at the next poll. -/
theorem polls_miss_changes :
    (let course := Course.ofSteps fun
      | 0 => { command := "index", file? := some (Course.factoryNamed 117, 900000000), passed := 0 }
      | _ => { command := "poll", file? := some (Course.factoryNamed 118, 1000000125), passed := 1000 }
    course.Admissible 1 ∧ course.Misses 1) ∧
    (let course := Course.ofSteps fun
      | 0 => { command := "poll", file? := some (Course.factoryNamed 117, 2000000000), passed := 0 }
      | _ => { command := "poll", file? := some (Course.factoryNamed 118, 1500000000), passed := 1000 }
    course.Admissible 1 ∧ course.Misses 1) ∧
    let course := Course.ofSteps fun
      | 0 => { command := "poll", file? := none, passed := 0 }
      | 1 => { command := "index", force := true, file? := some (Course.factoryNamed 117, 1000000125), passed := 1000 }
      | _ => { command := "poll", file? := none, passed := 2000 }
    course.Admissible 2 ∧ course.Misses 2 := by
  refine ⟨⟨?_, ?_⟩, ⟨?_, ?_⟩, ?_, ?_⟩
  · apply Course.admissible_ofSteps <;> decide +kernel
  · apply Course.misses_ofSteps "u" <;> decide +kernel
  · apply Course.admissible_ofSteps <;> decide +kernel
  · apply Course.misses_ofSteps "u" <;> decide +kernel
  · apply Course.admissible_ofSteps <;> decide +kernel
  · apply Course.misses_ofSteps "u" <;> decide +kernel

end FactoryIndex
