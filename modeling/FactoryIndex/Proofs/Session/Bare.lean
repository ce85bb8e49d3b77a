import FactoryIndex.Proofs.Session.Polling

/-!
# What a session does whatever it has reported

Events and log records are written and never read, and so is the count of passes. `bare` takes them off a session, and
`Heedless` says of an operation that it commutes with that: what it answers, and what it leaves besides reports, is a
matter of the bare session alone. The only operation that looks back at the events is the offer to try again, and that
is a request to index like any other.

That another pass was asked for is read when the pass under way ends, and at no other time. A session on which no pass
is under way is therefore bare of that too.
-/

namespace FactoryIndex.Session

/-- A session apart from what it has reported, how many passes it has begun, and a further pass that was asked for when
none is under way. -/
def bare (session : Session) : Session :=
  { session with rerun := session.pass.isSome && session.rerun, runs := 0, events := [], log := [] }

/-- What an operation does and answers does not depend on what the session has reported. -/
structure Heedless {β : Type} (operation : Session → Session × β) : Prop where
  bare_eq : ∀ session, (operation session.bare).1.bare = (operation session).1.bare
  answer_eq : ∀ session, (operation session.bare).2 = (operation session).2

section Rules

variable {β γ : Type}

theorem bare_bare (session : Session) : session.bare.bare = session.bare := by
  simp only [bare, Bool.and_self_left]

theorem bare_notifyAll (session : Session) (events : List Event) : (session.notifyAll events).bare = session.bare :=
  view_notifyAll (fun _ _ => rfl) session events

namespace Heedless

theorem of_and {operation : Session → Session × β}
    (h : ∀ session, (operation session.bare).1.bare = (operation session).1.bare ∧
      (operation session.bare).2 = (operation session).2) : Heedless operation :=
  ⟨fun session => (h session).1, fun session => (h session).2⟩

theorem congr {operation : Session → Session × β} (h : Heedless operation) {one other : Session}
    (hsame : one.bare = other.bare) :
    (operation one).1.bare = (operation other).1.bare ∧ (operation one).2 = (operation other).2 := by
  constructor
  · rw [← h.bare_eq one, hsame, h.bare_eq other]
  · rw [← h.answer_eq one, hsame, h.answer_eq other]

theorem pure (answer : β) : Heedless fun session => (session, answer) := ⟨bare_bare, fun _ => rfl⟩

theorem bind {operation : Session → Session × β} (h : Heedless operation) {next : β → Session → Session × γ}
    (hnext : ∀ value, Heedless (next value)) :
    Heedless fun session => next (operation session).2 (operation session).1 := by
  apply of_and
  intro session
  simp only [h.answer_eq]
  exact (hnext _).congr (h.bare_eq session)

theorem map {operation : Session → Session × β} (h : Heedless operation) (f : β → γ) :
    Heedless fun session => ((operation session).1, f (operation session).2) :=
  h.bind fun value => .pure (f value)

theorem ite {condition : Session → Bool} (hcondition : ∀ session, condition session.bare = condition session)
    {yes no : Session → Session × β} (hyes : Heedless yes) (hno : Heedless no) :
    Heedless fun session => if condition session then yes session else no session := by
  apply of_and
  intro session
  simp only [hcondition]
  split
  · exact ⟨hyes.bare_eq session, hyes.answer_eq session⟩
  · exact ⟨hno.bare_eq session, hno.answer_eq session⟩

/-- The answer is what is seen of the session in the end. -/
theorem answer {operation : Session → Session} (h : Heedless fun session => (operation session, ()))
    (view : Session → β) (hview : ∀ session, view session.bare = view session) :
    Heedless fun session => (operation session, view (operation session)) := by
  refine ⟨h.bare_eq, fun session => ?_⟩
  have hsame : (operation session.bare).bare = (operation session).bare := h.bare_eq session
  show view (operation session.bare) = view (operation session)
  rw [← hview (operation session.bare), ← hview (operation session), hsame]

end Heedless

end Rules

/-! ### Changes of files -/

theorem heedless_notifyAll (events : List Event) : Heedless fun session => (session.notifyAll events, ()) := by
  apply Heedless.of_and
  intro session
  simp only [bare_notifyAll, bare_bare, and_self]

theorem heedless_removeFile (file : Value) : Heedless (removeFile file) := by
  cases file with
  | raw name =>
      apply Heedless.of_and
      intro session
      simp only [removeFile, record, bare, Bool.and_self_left, and_self]
  | _ => exact .pure _

theorem heedless_startChange (source : Source) (file kind : Value) : Heedless (startChange source file kind) := by
  unfold startChange
  cases ChangeKind.ofValue kind with
  | error failure => exact .pure _
  | ok change =>
      cases change with
      | deleted => exact (heedless_removeFile file).map _
      | created | changed =>
          cases source.modified file with
          | error failure =>
              simp only
              split
              · exact ((heedless_notifyAll [fileVanished file failure]).bind fun _ => heedless_removeFile file).map _
              · exact .pure _
          | ok modified =>
              cases file with
              | raw name => exact ⟨bare_bare, fun _ => rfl⟩
              | _ => exact .pure _

theorem heedless_reindex (clock : Clock) (file : RawText) (modified : Int) (read : FileRead) :
    Heedless (reindex clock file modified read) := by
  apply Heedless.of_and
  intro session
  simp only [reindex, notifyAll_eq, bare]
  cases Outline.ofRead session.services.blockMode read with
  | error failure => simp only [Bool.and_self_left, and_self]
  | ok result =>
      simp only
      split
      · simp only [record, Bool.and_self_left, and_self]
      · simp only [record, notify, Bool.and_self_left, and_self]

theorem heedless_followChange (source : Source) (clock : Clock) (outcome : Except Failure ChangeProgress) :
    Heedless fun session =>
      match (session, outcome) with
      | (session, .error failure) => (session, .error failure)
      | (session, .ok (.settled reindexed)) => (session, .ok reindexed)
      | (session, .ok (.reading name modified)) =>
        let (session, outcome) := session.reindex clock name modified ⟨name, source.delay name, source.read name⟩
        (session, outcome.map fun _ => true) := by
  rcases outcome with failure | reindexed | ⟨name, modified⟩
  · exact .pure _
  · exact .pure _
  · exact (heedless_reindex clock name modified _).map _

theorem heedless_handleChange (source : Source) (clock : Clock) (file kind : Value) :
    Heedless (handleChange source clock file kind) :=
  (heedless_startChange source file kind).bind (heedless_followChange source clock)

/-! ### Watching -/

theorem heedless_restartWatch (source : Source) : Heedless (restartWatch source) := by
  apply Heedless.of_and
  intro session
  simp only [restartWatch, takeSnapshot, bare]
  split
  · cases source.list session.watch.patterns with
    | error failure => simp only [Except.map, Bool.and_self_left, and_self]
    | ok files => simp only [Except.map, record, Bool.and_self_left, and_self]
  · simp only [Bool.and_self_left, and_self]

theorem heedless_addListener (listener : Listener) (outcome : Except Failure Unit) : Heedless (fun session =>
    match outcome with
    | .error failure => (session, .error failure)
    | .ok () =>
      ({ session with watch := { session.watch with listeners := session.watch.listeners ++ [listener] } },
        .ok ()) : Session → Session × Except Failure Unit) := by
  cases outcome with
  | error failure => exact .pure _
  | ok _ =>
      apply Heedless.of_and
      intro session
      simp only [bare, Bool.and_self_left, and_self]

theorem heedless_listen (source : Source) (listener : Listener) : Heedless (listen source listener) := by
  have hfirst : Heedless fun session =>
      if session.watch.listeners.isEmpty then session.restartWatch source else (session, .ok ()) :=
    .ite (fun _ => rfl) (heedless_restartWatch source) (.pure _)
  exact hfirst.bind (heedless_addListener listener)

theorem heedless_tell (source : Source) (clock : Clock) (change : RawText × ChangeKind) (listener : Listener) :
    Heedless (tell source clock change listener) := by
  cases listener with
  | session => exact (heedless_handleChange ..).map _
  | notes =>
      apply Heedless.of_and
      intro session
      simp only [tell, bare, Bool.and_self_left, and_self]

theorem Heedless.unless_error {operation : Session → Session × Except Failure Unit} (h : Heedless operation)
    (outcome : Except Failure Unit) : Heedless fun session =>
      match (session, outcome) with
      | (session, .ok ()) => operation session
      | (session, .error failure) => (session, .error failure) := by
  cases outcome with
  | error failure => exact .pure _
  | ok _ => exact h

theorem heedless_tellAll (source : Source) (clock : Clock) (calls : List ((RawText × ChangeKind) × Listener)) :
    Heedless (tellAll source clock calls) := by
  induction calls with
  | nil => exact .pure _
  | cons call rest ih => exact (heedless_tell source clock call.1 call.2).bind ih.unless_error

theorem heedless_poll (source : Source) (clock : Clock) : Heedless (poll source clock) := by
  apply Heedless.of_and
  intro session
  cases htracks : source.tracksChanges with
  | false => simp only [poll, htracks, Bool.false_eq_true, if_false, bare_bare, and_self]
  | true =>
      cases hlist : source.list session.watch.patterns with
      | error failure =>
          have hlist' : source.list session.bare.watch.patterns = .error failure := hlist
          simp only [poll, htracks, if_true, takeSnapshot, hlist, hlist', Except.map, bare_bare, and_self]
      | ok files =>
          have hlist' : source.list session.bare.watch.patterns = .ok files := hlist
          have hstart : ({ session.bare.record (snapshot source files).2 with
                watch := { session.watch with snapshot := (snapshot source files).1 } } : Session).bare =
              ({ session.record (snapshot source files).2 with
                watch := { session.watch with snapshot := (snapshot source files).1 } } : Session).bare := by
            simp only [bare, record, Bool.and_self_left]
          rw [poll_of_ok htracks hlist, poll_of_ok htracks hlist']
          obtain ⟨hsame, houtcome⟩ := (heedless_tellAll source clock _).congr hstart
          exact ⟨hsame, congrArg (Except.map _) houtcome⟩

theorem heedless_watchPatterns (source : Source) (patterns : List RawText) :
    Heedless (watchPatterns source patterns) := by
  have hset : Heedless fun session => ({ session with watch := { session.watch with patterns := patterns } }, ()) := by
    apply Heedless.of_and
    intro session
    simp only [bare, Bool.and_self_left, and_self]
  have hnext : Heedless fun session =>
      if session.watch.listeners.isEmpty then (session, .ok ()) else session.restartWatch source :=
    .ite (fun _ => rfl) (.pure _) (heedless_restartWatch source)
  exact hset.bind fun _ => hnext

/-! ### Asking, and taking on other settings -/

theorem heedless_resolve (clock : Clock) (value : Value) : Heedless (resolve clock value) := by
  apply Heedless.of_and
  intro session
  simp only [resolve, notifyAll_eq, bare]
  split
  · split
    · split
      · simp only [Bool.and_self_left, and_self]
      · simp only [notify, Bool.and_self_left, and_self]
    · simp only [notify, Bool.and_self_left, and_self]
    · simp only [Bool.and_self_left, and_self]
  · simp only [Bool.and_self_left, and_self]

theorem heedless_find (clock : Clock) (name : String) : Heedless (find clock name) := by
  apply Heedless.of_and
  intro session
  simp only [find, bare, Bool.and_self_left, and_self]

theorem heedless_cleanup (clock : Clock) : Heedless (cleanup clock) := by
  apply Heedless.of_and
  intro session
  simp only [cleanup, record, bare, Bool.and_self_left, and_self]

/-- New services are taken on, and the index is due, unless something has failed. -/
theorem heedless_takeOn (settings : Settings) (outcome : Except Failure Unit) : Heedless fun session =>
    match (session, outcome) with
    | (session, .error failure) => (session, Except.error failure)
    | (session, .ok ()) =>
      ({ session with
          services := .ofSettings settings
          store := session.store.setInitialized false }, .ok ()) := by
  cases outcome with
  | error failure => exact .pure _
  | ok _ =>
      apply Heedless.of_and
      intro session
      simp only [bare, Bool.and_self_left, and_self]

theorem heedless_watchAndTakeOn (source : Source) (settings : Settings) (outcome : Except Failure Unit) :
    Heedless (fun session =>
      match outcome with
      | .error failure => (session, .error failure)
      | .ok () =>
        match session.watchPatterns source settings.factoryPaths with
        | (session, .error failure) => (session, .error failure)
        | (session, .ok ()) =>
          ({ session with
              services := .ofSettings settings
              store := session.store.setInitialized false }, .ok ()) : Session → Session × Except Failure Unit) := by
  cases outcome with
  | error failure => exact .pure _
  | ok _ => exact (heedless_watchPatterns source settings.factoryPaths).bind (heedless_takeOn settings)

theorem heedless_takeLifetime (settings : Settings) : Heedless fun session =>
    let notifier := if session.notifier.writesLog then { session.notifier with debug := settings.debug }
      else session.notifier
    let (store, outcome) := session.store.setTtl (.int settings.cacheTimeoutMs)
    ({ session with settings := settings, notifier := notifier, store := store }, outcome) := by
  apply Heedless.of_and
  intro session
  simp only [bare, Bool.and_self_left]
  exact ⟨rfl, trivial⟩

theorem heedless_adopt (source : Source) (settings : Settings) : Heedless (adopt source settings) :=
  (heedless_takeLifetime settings).bind (heedless_watchAndTakeOn source settings)

/-! ### Indexing -/

theorem heedless_finishPass (clock : Nat → Clock) (pass : Pass) (completed : List FileRead) :
    Heedless fun session => (session.finishPass clock pass completed, ()) := by
  apply Heedless.of_and
  intro session
  simp only [finishPass, notifyAll_eq, bare]
  split
  · simp only [notify, Option.isSome_none, Bool.false_and, and_self]
  · simp only [failPass, notify, Option.isSome_none, Bool.false_and, and_self]

theorem heedless_startPass (source : Source) (clock : Clock) :
    Heedless fun session => (session.startPass source clock, ()) := by
  apply Heedless.of_and
  intro session
  simp only [startPass, bare]
  cases filesToIndex source session.settings with
  | error failure => simp only [failPass, notify, and_self]
  | ok files =>
      simp only
      split
      · refine ⟨((heedless_finishPass (fun _ => clock) _ []).congr ?_).1, trivial⟩
        simp only [bare, Bool.and_false]
      · simp only [Bool.and_false, and_self]

theorem heedless_request (source : Source) (clock : Clock) (force : Bool) :
    Heedless (request source clock force) := by
  have hasked : Heedless fun session => ({ session with rerun := true }, some false) := by
    apply Heedless.of_and
    intro session
    simp only [bare, and_self]
  have hstarted : Heedless fun session =>
      let session := session.startPass source clock
      (session, if session.pass.isSome then none else some session.store.initialized) :=
    (heedless_startPass source clock).answer
      (fun session => if session.pass.isSome then none else some session.store.initialized) fun _ => rfl
  exact .ite (fun _ => rfl) hasked (.ite (fun _ => rfl) (.pure _) hstarted)

theorem heedless_resume (source : Source) (clock : Clock) :
    Heedless fun session => (session.resume source clock, ()) := by
  apply Heedless.of_and
  intro session
  cases hpass : session.pass with
  | none =>
      have hpass' : session.bare.pass = none := hpass
      simp only [resume, hpass, hpass', bare_bare, and_self]
  | some pass =>
      have hpass' : session.bare.pass = some pass := hpass
      have hrerun : session.bare.rerun = session.rerun := by
        simp only [bare, hpass, Option.isSome_some, Bool.true_and]
      have hstore : session.bare.store = session.store := rfl
      have hfinished := (heedless_finishPass (fun _ => clock) pass
        (Outline.completed pass.batchSize (source.reads pass.files))).bare_eq session
      simp only [resume, hpass, hpass', rerun_finishPass_eq, hrerun, hstore]
      split
      · exact ⟨((heedless_startPass source clock).congr hfinished).1, trivial⟩
      · exact ⟨hfinished, trivial⟩

theorem heedless_settle (source : Source) (clock : Clock) (answer : Option Bool) : Heedless fun session =>
    match answer with
    | some answer => (session, answer)
    | none => (session.settle source clock, (session.settle source clock).store.initialized) := by
  cases answer with
  | some answer => exact .pure _
  | none =>
      exact ((heedless_resume source clock).bind fun _ => heedless_resume source clock).answer
        (fun session => session.store.initialized) fun _ => rfl

theorem heedless_index (source : Source) (clock : Clock) (force : Bool) : Heedless (index source clock force) :=
  (heedless_request source clock force).bind (heedless_settle source clock)

end FactoryIndex.Session
