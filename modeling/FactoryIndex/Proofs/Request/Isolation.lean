import FactoryIndex.Proofs.Request.Coherence

/-!
# Projects do not interfere

A registry is one map that all requests share, and a request may do anything to the session of its project: make it,
give it other settings, rebuild it, or fail half-way. What keeps projects apart is that a request looks at nothing of
the registry but the session of its own project, and leaves every other one alone. These are the two facts about one
request. Over a whole run they say that the requests of a project are answered as if there were no others.

A request whose project is no text has no session, and so it is a project of its own that nothing reaches.
-/

namespace FactoryIndex

namespace Registry

def answer (registry : Registry) (request : Request) : Reply :=
  registry.dispatch request.here request.command request.project request.args

def after (registry : Registry) (requests : List Request) : Registry :=
  requests.foldl (fun registry request => (registry.answer request).registry) registry

/-- Requests that are answered one after the other, each with its outcome. -/
def exchanges : List Request → Registry → List (Request × Except Failure Value)
  | [], _ => []
  | request :: rest, registry =>
      (request, (registry.answer request).outcome) :: exchanges rest (registry.answer request).registry

def session? (registry : Registry) : Value → Option Session
  | .raw project => OrderedMap.get? registry project
  | _ => none

variable {a b registry : Registry} {request : Request}

def runs (registry : Registry) (project : RawText) : Nat :=
  ((OrderedMap.get? registry project).map Session.runs).getD 0

/-! ### One request -/

theorem answer_of_errand {errand : Errand} (herrand : request.errand? = some errand) (registry : Registry) :
    (registry.answer request).registry =
        (registry.runOnSession request.here errand.command errand.project request.args errand.settings).registry ∧
      (registry.answer request).outcome =
        (registry.runOnSession request.here errand.command errand.project request.args errand.settings).outcome := by
  constructor
  · rw [answer, registry_dispatch, herrand]
  · unfold Request.errand? at herrand
    split at herrand
    · next command project settings hcommand hproject hload =>
      cases herrand
      simp only [answer, dispatch, hcommand, hload, hproject, run]
    · cases herrand

theorem runOnSession_of_ok {project : RawText} {settings : Settings} {here : Surroundings} {found : Session}
    (hfor : registry.sessionFor here project settings = .ok (found, .ok ())) (command : SessionCommand) (args : Value) :
    (registry.runOnSession here command project args settings).registry =
        OrderedMap.insert registry project (command.run here project args found).1.withoutReports ∧
      (registry.runOnSession here command project args settings).outcome =
        (command.run here project args found).2 := by
  simp only [runOnSession, hfor, and_self]

theorem sessionFor_congr {project : RawText} (hsame : OrderedMap.get? a project = OrderedMap.get? b project)
    (here : Surroundings) (settings : Settings) :
    a.sessionFor here project settings = b.sessionFor here project settings := by
  unfold sessionFor
  rw [hsame]

theorem runOnSession_congr {project : RawText} (hsame : OrderedMap.get? a project = OrderedMap.get? b project)
    (here : Surroundings) (command : SessionCommand) (args : Value) (settings : Settings) :
    (a.runOnSession here command project args settings).outcome =
        (b.runOnSession here command project args settings).outcome ∧
      OrderedMap.get? (a.runOnSession here command project args settings).registry project =
        OrderedMap.get? (b.runOnSession here command project args settings).registry project := by
  unfold runOnSession
  rw [sessionFor_congr hsame]
  cases b.sessionFor here project settings with
  | error failure => exact ⟨rfl, hsame⟩
  | ok found =>
      obtain ⟨session, ready⟩ := found
      refine ⟨rfl, ?_⟩
      simp only [OrderedMap.get?_insert, if_true]

theorem get?_runOnSession_of_ne {project other : RawText} (hne : other ≠ project) (here : Surroundings)
    (command : SessionCommand) (args : Value) (settings : Settings) (registry : Registry) :
    OrderedMap.get? (registry.runOnSession here command project args settings).registry other =
      OrderedMap.get? registry other := by
  unfold runOnSession
  cases registry.sessionFor here project settings with
  | error failure => rfl
  | ok found =>
      obtain ⟨session, ready⟩ := found
      simp only [OrderedMap.get?_insert, if_neg hne]

/-- What is looked at: a request is answered by the session of its project, and leaves it in the same state. -/
theorem answer_congr (hsame : a.session? request.project = b.session? request.project) :
    (a.answer request).outcome = (b.answer request).outcome ∧
      (a.answer request).registry.session? request.project =
        (b.answer request).registry.session? request.project := by
  unfold answer dispatch
  obtain ⟨records, outcome⟩ := Settings.load request.args request.here.environment
  cases Command.ofValue? request.command with
  | none => exact ⟨rfl, hsame⟩
  | some command =>
      cases outcome with
      | error failure => exact ⟨rfl, hsame⟩
      | ok settings =>
          cases command with
          | extract => exact ⟨rfl, hsame⟩
          | onSession command =>
              cases hproject : request.project with
              | raw project =>
                  rw [hproject] at hsame
                  exact runOnSession_congr hsame request.here command request.args settings
              | null => exact ⟨rfl, rfl⟩
              | bool value => exact ⟨rfl, rfl⟩
              | int value => exact ⟨rfl, rfl⟩
              | double value => exact ⟨rfl, rfl⟩
              | list items => exact ⟨rfl, rfl⟩
              | object fields => exact ⟨rfl, rfl⟩

/-- What is left alone: a request does nothing to the session of another project. -/
theorem session?_answer_of_ne {project : Value} (hne : request.project ≠ project) (registry : Registry) :
    (registry.answer request).registry.session? project = registry.session? project := by
  cases project with
  | raw name =>
      unfold answer
      rw [session?, registry_dispatch]
      cases herrand : request.errand? with
      | none => rfl
      | some errand =>
          apply get?_runOnSession_of_ne
          rintro rfl
          apply hne
          unfold Request.errand? at herrand
          split at herrand
          · next hcommand hproject hload =>
            cases herrand
            exact hproject
          · cases herrand
  | null => rfl
  | bool value => rfl
  | int value => rfl
  | double value => rfl
  | list items => rfl
  | object fields => rfl

/-! ### Any number of requests -/

section Run

open Classical

theorem exchanges_filter (project : Value) (requests : List Request)
    (hsame : a.session? project = b.session? project) :
    (a.exchanges requests).filter (fun exchange => exchange.1.project = project) =
        b.exchanges (requests.filter fun request => request.project = project) ∧
      (a.after requests).session? project =
        (b.after (requests.filter fun request => request.project = project)).session? project := by
  induction requests generalizing a b with
  | nil => exact ⟨rfl, hsame⟩
  | cons request rest ih =>
      by_cases hproject : request.project = project
      · -- Both runs answer the request, and go on with the same session.
        subst hproject
        obtain ⟨houtcome, hafter⟩ := answer_congr hsame
        obtain ⟨hexchanges, hrun⟩ := ih hafter
        simp only [exchanges, List.filter_cons, decide_true, if_true]
        rw [houtcome, hexchanges]
        exact ⟨rfl, hrun⟩
      · -- Only the first run has the request, and it does not show.
        have hkept := (session?_answer_of_ne hproject a).trans hsame
        obtain ⟨hexchanges, hrun⟩ := ih hkept
        simp only [exchanges, List.filter_cons, hproject, decide_false, Bool.false_eq_true, if_false]
        exact ⟨hexchanges, hrun⟩

end Run

end Registry

open Classical in
/-- **Projects do not interfere.** Of requests that share a registry, those of one project are answered, and leave its
session, as they would without all the others. -/
theorem projects_independent (registry : Registry) (requests : List Request) (project : Value) :
    (registry.exchanges requests).filter (fun exchange => exchange.1.project = project) =
        registry.exchanges (requests.filter fun request => request.project = project) ∧
      (registry.after requests).session? project =
        (registry.after (requests.filter fun request => request.project = project)).session? project :=
  Registry.exchanges_filter project requests rfl

end FactoryIndex
