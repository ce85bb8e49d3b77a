import FactoryIndex.Proofs.Session.Setup
import FactoryIndex.Proofs.Settings.Ranges
import Mathlib.Algebra.Group.Int.Defs

/-!
# Sessions serve their settings

A registry compares the settings of a request only with those that a session has noted, and hands over to whatever
services the session has. That is sound as long as the services are those of the noted settings. They are, after
any requests, unless a session has failed to take on settings: it notes the new ones first, and what comes after a
failure stays as it was. A `History` remembers the sessions that were torn in this way. One that later takes on
settings without a failure is whole again.
-/

namespace FactoryIndex

/-! ### Loaded settings -/

namespace Settings

/-- Settings whose time to live is one that a store can have. -/
def Usable (settings : Settings) : Prop := Store.minTtl ≤ settings.cacheTimeoutMs

theorem Usable.ttl_eq {settings : Settings} (husable : settings.Usable) : settings.ttl = settings.cacheTimeoutMs := by
  unfold Usable at husable
  unfold ttl Store.boundedTtl
  rw [if_neg (by omega)]

theorem usable_ofFields {fields : Fields} {settings : Settings}
    (hload : (ofFields fields).outcome = .ok settings) : settings.Usable := by
  have hle := (inRange_ofFields hload).le_timeout
  show 1000 ≤ settings.cacheTimeout * 1000
  omega

theorem usable_load {args : Value} {environment : OrderedMap RawText RawText} {settings : Settings}
    (hload : (load args environment).outcome = .ok settings) : settings.Usable := by
  unfold load at hload
  split at hload
  · exact usable_ofFields hload
  · cases hload

end Settings

/-! ### Serving settings -/

/-- A session does what the given settings ask for. -/
structure Session.Serves (settings : Settings) (session : Session) : Prop where
  ttl : session.store.ttl = settings.cacheTimeoutMs
  factories : session.store.factories.lifetime = settings.cacheTimeoutMs
  traits : session.store.traits.lifetime = settings.cacheTimeoutMs
  blockMode : session.services.blockMode = settings.blockMode
  batchSize : session.services.batchSize = settings.batchSize
  methods : session.services.methods = settings.factoryMethods
  patterns : session.watch.patterns = settings.factoryPaths

namespace Session.Serves

variable {session after : Session} {settings settings' : Settings}

theorem of_setup (husable : settings.Usable) (hsetup : session.setup = .ofSettings settings) :
    session.Serves settings := by
  obtain ⟨-, hservices, hlifetimes, hpatterns⟩ := Setup.mk.inj hsetup
  rw [husable.ttl_eq] at hlifetimes
  obtain ⟨httl, hfactories, htraits⟩ := Lifetimes.mk.inj hlifetimes
  refine ⟨httl, hfactories, htraits, ?_, ?_, ?_, hpatterns⟩
  · rw [hservices, Services.ofSettings]
  · rw [hservices, Services.ofSettings]
  · rw [hservices, Services.ofSettings]

theorem of_setup_eq (h : session.Serves settings) (hsetup : after.setup = session.setup) : after.Serves settings := by
  obtain ⟨-, hservices, hlifetimes, hpatterns⟩ := Setup.mk.inj hsetup
  obtain ⟨httl, hfactories, htraits⟩ := Lifetimes.mk.inj hlifetimes
  exact ⟨httl.trans h.ttl, hfactories.trans h.factories, htraits.trans h.traits, hservices ▸ h.blockMode,
    hservices ▸ h.batchSize, hservices ▸ h.methods, hpatterns.trans h.patterns⟩

theorem of_agrees (h : session.Serves settings) (hagrees : settings.agrees settings' = true) :
    session.Serves settings' := by
  simp only [Settings.agrees, Bool.and_eq_true, beq_iff_eq] at hagrees
  obtain ⟨⟨⟨⟨⟨⟨hpaths, -⟩, htimeout⟩, hbatch⟩, hmethods⟩, -⟩, hmode⟩ := hagrees
  have hms : settings.cacheTimeoutMs = settings'.cacheTimeoutMs := by
    unfold Settings.cacheTimeoutMs
    rw [htimeout]
  exact ⟨hms ▸ h.ttl, hms ▸ h.factories, hms ▸ h.traits, hmode ▸ h.blockMode, hbatch ▸ h.batchSize,
    hmethods ▸ h.methods, hpaths ▸ h.patterns⟩

end Session.Serves

/-! ### One request -/

structure Request where
  here : Surroundings
  command : Value
  project : Value
  args : Value

/-- What a request asks of a session: a command for that of a project, under settings. -/
structure Errand where
  command : SessionCommand
  project : RawText
  settings : Settings

/-- What a request asks of a session, if it gets that far. -/
def Request.errand? (request : Request) : Option Errand :=
  match Command.ofValue? request.command, request.project,
      (Settings.load request.args request.here.environment).outcome with
  | some (.onSession command), .raw project, .ok settings => some ⟨command, project, settings⟩
  | _, _, _ => none

theorem Request.usable {request : Request} {errand : Errand} (herrand : request.errand? = some errand) :
    errand.settings.Usable := by
  unfold errand? at herrand
  split at herrand
  · next hload =>
    cases herrand
    exact Settings.usable_load hload
  · cases herrand

theorem Session.setup_run (command : SessionCommand) (here : Surroundings) (project : RawText) (args : Value)
    (session : Session) : (command.run here project args session).1.setup = session.setup := by
  have hindex := fun force => setup_index (here.source project) here.clock force session
  cases command with
  | index =>
      simp only [SessionCommand.run, answerIndex]
      split
      · rfl
      · exact hindex _
  | resolve =>
      simp only [SessionCommand.run, answerResolve]
      split
      · exact hindex false
      · exact (setup_resolve ..).trans (hindex false)
  | changed =>
      simp only [SessionCommand.run, answerChanged]
      split
      · next file kind _ _ =>
        have hchange := (setup_handleChange (here.source project) here.clock file kind _).trans (hindex false)
        split
        · next after failure hafter => rwa [hafter] at hchange
        · next after reindexed hafter => rwa [hafter] at hchange
      · exact hindex false
      · exact hindex false
  | poll =>
      have hlisten : ∀ session : Session, (session.ensureListening here project).1.setup = session.setup := by
        intro session
        unfold ensureListening
        split
        · exact setup_listen ..
        · rfl
      simp only [SessionCommand.run, answerPoll]
      have hlistening := (hlisten _).trans (hindex false)
      split
      · next after failure hafter => rwa [hafter] at hlistening
      · next after hafter =>
        rw [hafter] at hlistening
        have hpoll := (setup_poll (here.source project) here.clock after).trans hlistening
        split
        · next polled failure hpolled => rwa [hpolled] at hpoll
        · next polled changes hpolled => rwa [hpolled] at hpoll
  | stats => exact setup_cleanup here.clock session

namespace Registry

/-- How a session fares that has to take on the settings of an errand. -/
def adoption? (here : Surroundings) (errand : Errand) (registry : Registry) : Option (Except Failure Unit) :=
  match OrderedMap.get? registry errand.project with
  | some session =>
      if session.settings.agrees errand.settings then none
      else some (session.adopt (here.source errand.project) errand.settings).2
  | none => none

theorem registry_dispatch (request : Request) (registry : Registry) :
    (registry.dispatch request.here request.command request.project request.args).registry =
      match request.errand? with
      | some errand =>
          (registry.runOnSession request.here errand.command errand.project request.args errand.settings).registry
      | none => registry := by
  unfold dispatch Request.errand?
  obtain ⟨records, outcome⟩ := Settings.load request.args request.here.environment
  cases Command.ofValue? request.command with
  | none => rfl
  | some command =>
      cases command with
      | extract => cases outcome <;> rfl
      | onSession command =>
          cases outcome with
          | error failure => cases request.project <;> rfl
          | ok settings => cases request.project <;> rfl

/-- The session that runs a command serves the settings of the request, unless it has just failed to take them on or
did not even serve its own. -/
theorem serves_sessionFor {here : Surroundings} {errand : Errand} {registry : Registry} {session : Session}
    {ready : Except Failure Unit} (husable : errand.settings.Usable)
    (hown : registry.adoption? here errand = none → ∀ previous,
      OrderedMap.get? registry errand.project = some previous → previous.Serves previous.settings)
    (hadopted : ∀ failure, registry.adoption? here errand ≠ some (.error failure))
    (hsession : registry.sessionFor here errand.project errand.settings = .ok (session, ready)) :
    session.Serves session.settings ∧ session.Serves errand.settings := by
  have hserves : ∀ {session : Session}, session.setup = .ofSettings errand.settings →
      session.Serves session.settings ∧ session.Serves errand.settings := by
    intro session hsetup
    have hsettings : session.settings = errand.settings := congrArg Setup.settings hsetup
    rw [hsettings]
    exact ⟨.of_setup husable hsetup, .of_setup husable hsetup⟩
  unfold sessionFor at hsession
  unfold adoption? at hown hadopted
  cases hprevious : OrderedMap.get? registry errand.project with
  | none =>
      rw [hprevious] at hsession
      simp only at hsession
      cases hcreate : Session.create errand.settings { debug := errand.settings.debug }
          errand.settings.factoryPaths with
      | error failure =>
          rw [hcreate] at hsession
          cases hsession
      | ok created =>
          rw [hcreate] at hsession
          cases hsession
          exact hserves (Session.setup_create hcreate)
  | some previous =>
      rw [hprevious] at hsession hown hadopted
      by_cases hagrees : previous.settings.agrees errand.settings = true
      · simp only [if_pos hagrees] at hsession hown
        cases hsession
        have hserved := hown trivial session rfl
        exact ⟨hserved, hserved.of_agrees hagrees⟩
      · simp only [if_neg hagrees] at hsession hadopted
        unfold Session.applySettings at hsession
        cases hadopt : previous.adopt (here.source errand.project) errand.settings with
        | mk adopted outcome =>
            rw [hadopt] at hsession hadopted
            cases outcome with
            | error failure => exact absurd rfl (hadopted failure)
            | ok _ =>
                cases hsession
                have hsetup := Session.setup_adopt (congrArg Prod.snd hadopt)
                rw [hadopt] at hsetup
                exact hserves ((Session.setup_index ..).trans hsetup)

theorem adoption?_of_sessionFor_error {here : Surroundings} {errand : Errand} {registry : Registry}
    {failure : Failure} (hfor : registry.sessionFor here errand.project errand.settings = .error failure) :
    registry.adoption? here errand = none := by
  unfold sessionFor at hfor
  unfold adoption?
  cases hprevious : OrderedMap.get? registry errand.project with
  | none => rfl
  | some previous =>
      rw [hprevious] at hfor
      by_cases hagrees : previous.settings.agrees errand.settings = true
      · simp only [if_pos hagrees]
      · simp only [if_neg hagrees] at hfor
        cases hfor

/-- A command is run on one session, and leaves it set up as it was. -/
theorem get?_runOnSession {here : Surroundings} {errand : Errand} {args : Value} {registry : Registry}
    {project : RawText} {session : Session}
    (hsession : OrderedMap.get? (registry.runOnSession here errand.command errand.project args
      errand.settings).registry project = some session) :
    (project = errand.project ∧ ∃ found ready,
      registry.sessionFor here errand.project errand.settings = .ok (found, ready) ∧
        session.setup = found.setup) ∨
    OrderedMap.get? registry project = some session ∧ (project = errand.project →
      ∃ failure, registry.sessionFor here errand.project errand.settings = .error failure) := by
  unfold runOnSession at hsession
  cases hfor : registry.sessionFor here errand.project errand.settings with
  | error failure =>
      rw [hfor] at hsession
      exact Or.inr ⟨hsession, fun _ => ⟨failure, rfl⟩⟩
  | ok result =>
      obtain ⟨found, ready⟩ := result
      simp only [hfor, OrderedMap.get?_insert] at hsession
      by_cases hproject : project = errand.project
      · rw [if_pos hproject] at hsession
        refine Or.inl ⟨hproject, found, ready, rfl, ?_⟩
        cases hsession
        cases ready with
        | error failure => rfl
        | ok _ => exact Session.setup_run errand.command here errand.project args found
      · rw [if_neg hproject] at hsession
        exact Or.inr ⟨hsession, fun heq => absurd heq hproject⟩

end Registry

/-! ### Any number of requests -/

/-- The sessions after some requests, and those of them that failed when they last had to take on settings. -/
structure History where
  registry : Registry := .empty
  torn : RawText → Bool := fun _ => false

namespace History

def step (history : History) (request : Request) : History where
  registry := (history.registry.dispatch request.here request.command request.project request.args).registry
  torn :=
    match request.errand? with
    | none => history.torn
    | some errand =>
        match history.registry.adoption? request.here errand with
        | none => history.torn
        | some outcome => fun project => if project = errand.project then !outcome.isOk else history.torn project

/-- Every session that is not torn serves its settings. -/
def Whole (history : History) : Prop :=
  ∀ project session, OrderedMap.get? history.registry project = some session →
    history.torn project = false → session.Serves session.settings

theorem torn_step {history : History} {request : Request} {errand : Errand}
    (herrand : request.errand? = some errand) (project : RawText) :
    (history.step request).torn project =
      match history.registry.adoption? request.here errand with
      | none => history.torn project
      | some outcome => if project = errand.project then !outcome.isOk else history.torn project := by
  simp only [step, herrand]
  cases history.registry.adoption? request.here errand with
  | none => rfl
  | some outcome => rfl

/-- The session that answers a request serves the settings of the request. -/
theorem Whole.serves_sessionFor {history : History} (h : history.Whole) {request : Request} {errand : Errand}
    (herrand : request.errand? = some errand) (hwhole : (history.step request).torn errand.project = false)
    {session : Session} {ready : Except Failure Unit}
    (hsession : history.registry.sessionFor request.here errand.project errand.settings = .ok (session, ready)) :
    session.Serves session.settings ∧ session.Serves errand.settings := by
  rw [torn_step herrand] at hwhole
  refine Registry.serves_sessionFor (Request.usable herrand) (fun hnone previous hprevious => ?_)
    (fun failure hfailed => ?_) hsession
  · rw [hnone] at hwhole
    exact h errand.project previous hprevious hwhole
  · rw [hfailed] at hwhole
    simp [Except.isOk, Except.toBool] at hwhole

theorem Whole.step {history : History} (h : history.Whole) (request : Request) : (history.step request).Whole := by
  intro project session hsession hwhole
  cases herrand : request.errand? with
  | none =>
      simp only [History.step, Registry.registry_dispatch, herrand] at hsession hwhole
      exact h project session hsession hwhole
  | some errand =>
      simp only [History.step, Registry.registry_dispatch, herrand] at hsession
      rcases Registry.get?_runOnSession hsession with ⟨rfl, found, ready, hfor, hsetup⟩ | ⟨hkept, herror⟩
      · have hsettings : session.settings = found.settings := congrArg Setup.settings hsetup
        rw [hsettings]
        exact (h.serves_sessionFor herrand hwhole hfor).1.of_setup_eq hsetup
      · refine h project session hkept ?_
        rw [torn_step herrand] at hwhole
        split at hwhole
        · exact hwhole
        · next outcome hadoption =>
          by_cases hproject : project = errand.project
          · obtain ⟨failure, hfor⟩ := herror hproject
            rw [Registry.adoption?_of_sessionFor_error hfor] at hadoption
            cases hadoption
          · rwa [if_neg hproject] at hwhole

theorem Whole.foldl (requests : List Request) {history : History} (h : history.Whole) :
    (requests.foldl History.step history).Whole := by
  induction requests generalizing history with
  | nil => exact h
  | cons request rest ih => exact ih (h.step request)

theorem whole_empty : ({} : History).Whole := by
  intro project session hsession
  cases hsession

end History

/-- **Sessions serve their settings.** After any requests, every session that did not fail when it last had to take
on settings serves those it has noted, and what answers a request serves the settings of that request. A session
fails to take settings on exactly if the life of definitions is out of range, or if it is being watched and the
globs are not fit to list files by. -/
theorem sessions_serve (requests : List Request) :
    let history := requests.foldl History.step {}
    (∀ project session, OrderedMap.get? history.registry project = some session →
      history.torn project = false → session.Serves session.settings) ∧
    (∀ request errand session ready, request.errand? = some errand →
      (history.step request).torn errand.project = false →
      history.registry.sessionFor request.here errand.project errand.settings = .ok (session, ready) →
      session.Serves errand.settings) ∧
    (∀ request errand session, request.errand? = some errand →
      OrderedMap.get? history.registry errand.project = some session →
      session.settings.agrees errand.settings = false →
      ((history.step request).torn errand.project = false ↔
        fitsSeconds errand.settings.cacheTimeoutMs = true ∧ (session.watch.listeners ≠ [] →
          ∃ files, (request.here.source errand.project).list errand.settings.factoryPaths = .ok files))) := by
  intro history
  have hwhole : history.Whole := History.whole_empty.foldl requests
  refine ⟨hwhole, fun request errand session ready herrand htorn hfor => ?_,
    fun request errand session herrand hsession hagrees => ?_⟩
  · exact (hwhole.serves_sessionFor herrand htorn hfor).2
  · have hadoption : history.registry.adoption? request.here errand =
        some (session.adopt (request.here.source errand.project) errand.settings).2 := by
      rw [Registry.adoption?, hsession]
      simp only [hagrees, Bool.false_eq_true, if_false]
    have hiff := Session.adopt_eq_ok_iff errand.settings (request.here.source errand.project) session
    have htracks : (request.here.source errand.project).tracksChanges = true := rfl
    simp only [(Request.usable herrand).ttl_eq, htracks, true_implies] at hiff
    rw [History.torn_step herrand, hadoption, ← hiff]
    cases (session.adopt (request.here.source errand.project) errand.settings).2 with
    | error failure => simp [Except.isOk, Except.toBool]
    | ok _ => simp [Except.isOk, Except.toBool]

/-- A session that takes on a longer life of definitions, and then other methods to look for. -/
theorem sessions_serve_changed :
    let here : Surroundings := { tree := {}, clock := ⟨reading 1000000, reading 1000000000⟩ }
    let ask (fields : Fields) : Request :=
      { here := here, command := .text "index", project := .text "/project", args := .object fields }
    let history := [ask [], ask [("cache_timeout", .int 600)]].foldl History.step {}
    let next := ask [("cache_timeout", .int 600), ("factory_methods", .list [.text "make"])]
    (∃ session, OrderedMap.get? history.registry "/project" = some session ∧ session.store.ttl = 600000 ∧
      session.Serves session.settings) ∧
    ∃ errand session, next.errand? = some errand ∧
      history.registry.sessionFor here errand.project errand.settings = .ok (session, .ok ()) ∧
      session.services.methods = ["make"] ∧ session.Serves errand.settings := by
  intro here ask history next
  obtain ⟨hserve, hanswer, -⟩ := sessions_serve [ask [], ask [("cache_timeout", .int 600)]]
  have hkept : (OrderedMap.get? history.registry "/project").map (fun session => session.store.ttl) =
      some 600000 := by decide +kernel
  obtain ⟨session, hsession, httl⟩ := Option.map_eq_some_iff.1 hkept
  refine ⟨⟨session, hsession, httl, hserve "/project" session hsession (by decide +kernel)⟩, ?_⟩
  have hasked : next.errand?.map Errand.project = some "/project" := by decide +kernel
  obtain ⟨errand, herrand, hproject⟩ := Option.map_eq_some_iff.1 hasked
  have hmethods : next.errand?.map (fun errand =>
      (history.registry.sessionFor here errand.project errand.settings).toOption.map fun answer =>
        (answer.2.isOk, answer.1.services.methods)) = some (some (true, ["make"])) := by decide +kernel
  rw [herrand, Option.map_some, Option.some.injEq] at hmethods
  cases hfound : history.registry.sessionFor here errand.project errand.settings with
  | error failure =>
      rw [hfound] at hmethods
      cases hmethods
  | ok answer =>
      obtain ⟨found, outcome⟩ := answer
      rw [hfound] at hmethods
      obtain ⟨hok, hmake⟩ := Prod.mk.inj (Option.some.inj hmethods)
      cases outcome with
      | error failure => cases hok
      | ok answered =>
          refine ⟨errand, found, herrand, hfound, hmake, hanswer next errand found (.ok ()) herrand ?_ hfound⟩
          rw [hproject]
          decide +kernel

/-- A session that was asked for a life of definitions that is out of range, and for other methods. It failed, but
notes the new settings, while it goes on to look for the old methods; and the same request, made again, is
answered. -/
theorem half_adopted_settings :
    let here : Surroundings := { tree := {}, clock := ⟨reading 1000000, reading 1000000000⟩ }
    let ask (fields : Fields) : Request :=
      { here := here, command := .text "resolve", project := .text "/project", args := .object fields }
    let other := ask [("cache_timeout", .int (10 ^ 400)), ("factory_methods", .list [.text "make"]),
      ("text", .text "")]
    let before := [ask [("text", .text "")]].foldl History.step {}
    let history := before.step other
    (before.registry.dispatch here other.command other.project other.args).outcome.isOk = false ∧
    (history.registry.dispatch here other.command other.project other.args).outcome.isOk = true ∧
    ∃ session, OrderedMap.get? history.registry "/project" = some session ∧
      session.settings.factoryMethods = ["make"] ∧ ¬ session.Serves session.settings := by
  intro here ask other before history
  have hmethods : (OrderedMap.get? history.registry "/project").map (fun session =>
      (session.settings.factoryMethods, session.services.methods)) = some (["make"], Pattern.defaultMethods) := by
    decide +kernel
  obtain ⟨session, hsession, heq⟩ := Option.map_eq_some_iff.1 hmethods
  obtain ⟨hnoted, hserved⟩ := Prod.mk.inj heq
  refine ⟨by decide +kernel, by decide +kernel, session, hsession, hnoted, fun hserves => ?_⟩
  have hsame := hserves.methods
  rw [hnoted, hserved] at hsame
  revert hsame
  decide

end FactoryIndex
