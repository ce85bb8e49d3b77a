import FactoryIndex.Proofs.Session.Bare
import FactoryIndex.Proofs.Session.Reported

/-!
# A pass that cannot begin

If the files cannot be listed or put in order, a pass is given up before the store has been emptied. The failure is
reported, with the offer to try again, and apart from reports the session is what it was. The same holds of a pass that
was asked for while another one was under way: what that one has filed stays.

So a request that comes to nothing can be struck from the history of a session. `Spares` strikes any number of such
requests out, wherever they stand and whatever else is done before, between and after. Both histories lead to the same
bare session, hence to sessions that index alike from then on.
-/

namespace FactoryIndex.Session

/-! ### Histories -/

inductive Operation where
  | index (source : Source) (clock : Clock) (force : Bool)
  | request (source : Source) (clock : Clock) (force : Bool)
  | resume (source : Source) (clock : Clock)
  | startPass (source : Source) (clock : Clock)
  | finishPass (clock : Nat → Clock) (pass : Pass) (completed : List FileRead)
  | handleChange (source : Source) (clock : Clock) (file kind : Value)
  | startChange (source : Source) (file kind : Value)
  | reindex (clock : Clock) (file : RawText) (modified : Int) (read : FileRead)
  | listen (source : Source) (listener : Listener)
  | watchPatterns (source : Source) (patterns : List RawText)
  | poll (source : Source) (clock : Clock)
  | resolve (clock : Clock) (value : Value)
  | find (clock : Clock) (name : String)
  | cleanup (clock : Clock)
  | adopt (source : Source) (settings : Settings)

def perform (session : Session) : Operation → Session
  | .index source clock force => (session.index source clock force).1
  | .request source clock force => (session.request source clock force).1
  | .resume source clock => session.resume source clock
  | .startPass source clock => session.startPass source clock
  | .finishPass clock pass completed => session.finishPass clock pass completed
  | .handleChange source clock file kind => (session.handleChange source clock file kind).1
  | .startChange source file kind => (session.startChange source file kind).1
  | .reindex clock file modified read => (session.reindex clock file modified read).1
  | .listen source listener => (session.listen source listener).1
  | .watchPatterns source patterns => (session.watchPatterns source patterns).1
  | .poll source clock => (session.poll source clock).1
  | .resolve clock value => (session.resolve clock value).1
  | .find clock name => (session.find clock name).1
  | .cleanup clock => (session.cleanup clock).1
  | .adopt source settings => (session.adopt source settings).1

theorem bare_perform (session : Session) (operation : Operation) :
    (session.bare.perform operation).bare = (session.perform operation).bare := by
  cases operation with
  | index source clock force => exact (heedless_index source clock force).bare_eq session
  | request source clock force => exact (heedless_request source clock force).bare_eq session
  | resume source clock => exact (heedless_resume source clock).bare_eq session
  | startPass source clock => exact (heedless_startPass source clock).bare_eq session
  | finishPass clock pass completed => exact (heedless_finishPass clock pass completed).bare_eq session
  | handleChange source clock file kind => exact (heedless_handleChange source clock file kind).bare_eq session
  | startChange source file kind => exact (heedless_startChange source file kind).bare_eq session
  | reindex clock file modified read => exact (heedless_reindex clock file modified read).bare_eq session
  | listen source listener => exact (heedless_listen source listener).bare_eq session
  | watchPatterns source patterns => exact (heedless_watchPatterns source patterns).bare_eq session
  | poll source clock => exact (heedless_poll source clock).bare_eq session
  | resolve clock value => exact (heedless_resolve clock value).bare_eq session
  | find clock name => exact (heedless_find clock name).bare_eq session
  | cleanup clock => exact (heedless_cleanup clock).bare_eq session
  | adopt source settings => exact (heedless_adopt source settings).bare_eq session

theorem bare_perform_congr {one other : Session} (hsame : one.bare = other.bare) (operation : Operation) :
    (one.perform operation).bare = (other.perform operation).bare := by
  rw [← bare_perform one, hsame, bare_perform other]

def performAll (session : Session) (history : List Operation) : Session := history.foldl perform session

/-! ### Requests that come to nothing -/

variable {source : Source} {session : Session} {force : Bool} {failure : Failure}

/-- An index is due on an idle session, and the files cannot be listed or put in order. -/
structure Fails (source : Source) (force : Bool) (failure : Failure) (session : Session) : Prop where
  idle : session.pass = none
  due : force = true ∨ session.store.initialized = false
  files : filesToIndex source session.settings = .error failure

theorem startPass_of_error (hfiles : filesToIndex source session.settings = .error failure) (clock : Clock) :
    session.startPass source clock =
      ({ session with runs := session.runs + 1, rerun := false } : Session).failPass failure := by
  simp only [startPass, hfiles]

theorem Fails.request_eq (h : Fails source force failure session) (clock : Clock) :
    session.request source clock force =
      (({ session with runs := session.runs + 1, rerun := false } : Session).failPass failure,
        some session.store.initialized) := by
  have hdue : (session.store.initialized && !force) = false := by
    rcases h.due with rfl | hnone
    · exact Bool.and_false _
    · rw [hnone, Bool.false_and]
  simp only [request, h.idle, Option.isSome_none, Bool.false_eq_true, if_false, hdue,
    startPass_of_error h.files, failPass, notify]

theorem Fails.index_eq (h : Fails source force failure session) (clock : Clock) :
    session.index source clock force =
      (({ session with runs := session.runs + 1, rerun := false } : Session).failPass failure,
        session.store.initialized) := by
  simp only [index, h.request_eq]

theorem Fails.bare_failPass (h : Fails source force failure session) :
    (({ session with runs := session.runs + 1, rerun := false } : Session).failPass failure).bare = session.bare := by
  simp only [failPass, notify, bare, h.idle, Option.isSome_none, Bool.false_and]

/-- A pass that was asked for while another one was under way, and cannot begin, leaves what that one has filed. -/
theorem resume_of_error {pass : Pass} (hpass : session.pass = some pass) (hrerun : session.rerun = true)
    (hfiles : filesToIndex source session.settings = .error failure) (moment : Moment) :
    let finished := session.finishPass (fun _ => moment.clock) pass
      (Outline.completed pass.batchSize (source.reads pass.files))
    session.resume source moment.clock =
      ({ finished with runs := finished.runs + 1, rerun := false } : Session).failPass failure := by
  intro finished
  have hsettings : finished.settings = session.settings :=
    congrArg Setup.settings (setup_finishPass (fun _ => moment.clock) pass _ session)
  have hasked : finished.rerun = true := (rerun_finishPass (fun _ => moment) pass _ session).trans hrerun
  rw [← hsettings] at hfiles
  simp only [resume, hpass]
  exact (if_pos hasked).trans (startPass_of_error hfiles moment.clock)

def Operation.Fails (session : Session) : Operation → Prop
  | .index source _ force => ∃ failure, Session.Fails source force failure session
  | .request source _ force => ∃ failure, Session.Fails source force failure session
  | _ => False

theorem bare_perform_of_fails {operation : Operation} (hfails : operation.Fails session) :
    (session.perform operation).bare = session.bare := by
  cases operation with
  | index source clock force =>
      obtain ⟨failure, h⟩ := hfails
      rw [perform, h.index_eq, h.bare_failPass]
  | request source clock force =>
      obtain ⟨failure, h⟩ := hfails
      rw [perform, h.request_eq, h.bare_failPass]
  | _ => exact hfails.elim

/-- The second history is the first one without some of the requests that come to nothing in it. -/
inductive Spares : Session → List Operation → List Operation → Prop
  | nil (session : Session) : Spares session [] []
  | keep {session : Session} {history spared : List Operation} (operation : Operation)
      (h : Spares (session.perform operation) history spared) :
      Spares session (operation :: history) (operation :: spared)
  | skip {session : Session} {history spared : List Operation} {operation : Operation}
      (hfails : operation.Fails session) (h : Spares (session.perform operation) history spared) :
      Spares session (operation :: history) spared

theorem Spares.bare_performAll {history spared : List Operation} (h : Spares session history spared)
    {other : Session} (hsame : other.bare = session.bare) :
    (other.performAll spared).bare = (session.performAll history).bare := by
  induction h generalizing other with
  | nil session => exact hsame
  | keep operation _ ih => exact ih (bare_perform_congr hsame operation)
  | skip hfails _ ih => exact ih (hsame.trans (bare_perform_of_fails hfails).symm)

/-- **A request to index that fails leaves no trace but its report.** Let the files of an idle session not be listed or
not be put in order, when there is no index or a new one is forced. Then the store stays, the answer is whether it counts
as an index, no pass is under way, and none is asked for. One event is added, an error with the offer to try again, and
to take that offer is to force an index. If the request was made while another pass was under way, it fails after that
pass, and what the pass has filed stays. However many such requests are struck from a history, to force an index at its
end leads to the same store, and to the same answer. -/
theorem failed_index_leaves_no_trace (hidle : session.pass = none)
    (hdue : force = true ∨ session.store.initialized = false)
    (hfiles : filesToIndex source session.settings = .error failure) (clock : Clock) :
    let failed := session.index source clock force
    (failed.1.store = session.store ∧ failed.2 = session.store.initialized ∧ failed.1.pass = none ∧
      failed.1.rerun = false ∧ failed.1.bare = session.bare) ∧
    (failed.1.events = session.events ++ [indexingFailed failure] ∧ (indexingFailed failure).level = .error ∧
      ∀ source' clock', failed.1.retry source' clock' =
        ((failed.1.index source' clock' true).1, some (failed.1.index source' clock' true).2)) ∧
    (∀ (busy : Session) (pass : Pass) (moment : Moment), busy.pass = some pass → busy.rerun = true →
      busy.settings = session.settings →
      let finished := busy.finishPass (fun _ => moment.clock) pass
        (Outline.completed pass.batchSize (source.reads pass.files))
      let after := busy.resume source moment.clock
      after.store = finished.store ∧ after.pass = none ∧ after.rerun = false ∧
        after.events = finished.events ++ [indexingFailed failure]) ∧
    ∀ history spared, session.Spares history spared → ∀ source' clock',
      ((session.performAll history).index source' clock' true).1.store =
          ((session.performAll spared).index source' clock' true).1.store ∧
        ((session.performAll history).index source' clock' true).2 =
          ((session.performAll spared).index source' clock' true).2 := by
  have hfails : Fails source force failure session := ⟨hidle, hdue, hfiles⟩
  intro failed
  have hfailed : failed = (({ session with runs := session.runs + 1, rerun := false } : Session).failPass failure,
      session.store.initialized) := hfails.index_eq clock
  have hevents : failed.1.events = session.events ++ [indexingFailed failure] := by
    rw [hfailed]
    rfl
  refine ⟨?_, ⟨hevents, rfl, fun source' clock' => ?_⟩, ?_, ?_⟩
  · rw [hfailed]
    exact ⟨rfl, rfl, rfl, rfl, hfails.bare_failPass⟩
  · have hoffer : failed.1.events.any Event.retry = true := by
      rw [hevents, List.any_append]
      exact Bool.or_true _
    simp only [retry, hoffer, if_true]
  · intro busy pass moment hpass hrerun hsettings finished after
    rw [← hsettings] at hfiles
    have hafter : after = _ := resume_of_error hpass hrerun hfiles moment
    rw [hafter]
    exact ⟨rfl, rfl, rfl, rfl⟩
  · intro history spared hspares source' clock'
    have hsame := hspares.bare_performAll (Eq.refl session.bare)
    obtain ⟨hbare, hanswer⟩ := (heedless_index source' clock' true).congr hsame
    exact ⟨(congrArg Session.store hbare).symm, hanswer.symm⟩

/-- Two requests fail, with a change of a file between them. -/
theorem failed_index_leaves_no_trace_twice :
    let broken : Source :=
      { list := fun _ => .error (.reported .runtime "listing failed")
        modified := fun _ => .error .noSource
        read := fun _ => .error .noSource }
    let source := (oneFile 118 1000000125).source (.ofText "p")
    let clock : Clock := ⟨reading 1000, reading 1000001000⟩
    let session := watching (oneFile 117 900000000) ⟨reading 0, reading 1000000000⟩
    let attempt := Operation.index broken clock true
    let change := Operation.handleChange source clock (.text "a.rb") (.text "changed")
    (session.index broken clock true).1.store = session.store ∧ (session.index broken clock true).2 = true ∧
      (session.index broken clock true).1.events.length = session.events.length + 1 ∧
      ((session.performAll [attempt, change, attempt]).index source clock true).2 = true ∧
      ((session.performAll [attempt, change, attempt]).index source clock true).1.store =
        ((session.performAll [change]).index source clock true).1.store := by
  intro broken source clock session attempt change
  have hidle : session.pass = none := by decide +kernel
  have hidle' : ((session.perform attempt).perform change).pass = none := by decide +kernel
  have hfiles (settings : Settings) : filesToIndex broken settings = .error (.reported .runtime "listing failed") := rfl
  have hfails : attempt.Fails session := ⟨_, hidle, Or.inl rfl, hfiles _⟩
  have hfails' : attempt.Fails ((session.perform attempt).perform change) := ⟨_, hidle', Or.inl rfl, hfiles _⟩
  obtain ⟨⟨hstore, hanswer, -⟩, ⟨hevents, -⟩, -, hspared⟩ :=
    failed_index_leaves_no_trace hidle (Or.inl rfl : true = true ∨ _) (hfiles session.settings) clock
  obtain ⟨hlate, -⟩ := hspared [attempt, change, attempt] [change]
    (.skip hfails (.keep change (.skip hfails' (.nil _)))) source clock
  refine ⟨hstore, hanswer.trans ?_, ?_, ?_, hlate⟩
  · decide +kernel
  · rw [hevents, List.length_append, List.length_singleton]
  · decide +kernel

end FactoryIndex.Session
