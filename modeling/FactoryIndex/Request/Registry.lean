import FactoryIndex.Request.Work

/-!
# The registry of sessions

One session is kept per project, under the text by which requests name the project. The settings of a
request are loaded anew each time; a session whose settings are others takes them on before the command
is run. A session is registered as soon as it exists, so it stays even if the command fails.

The reports of a session are handed over with the reply, and a registered session holds none.
-/

namespace FactoryIndex

/-- The sessions by their projects. -/
abbrev Registry := OrderedMap RawText Session

/-- What a request leaves behind, and what it is answered. -/
structure Reply where
  registry : Registry
  log : List LogRecord
  outcome : Except Failure Value

def Session.withoutReports (session : Session) : Session := { session with events := [], log := [] }

namespace Registry

/-- The session of a project with the given settings. The outer failure means that there is none; the
inner one that the session could not take on the settings. -/
def sessionFor (here : Surroundings) (project : RawText) (settings : Settings) (registry : Registry) :
    Except Failure (Session × Except Failure Unit) :=
  match OrderedMap.get? registry project with
  | some session =>
    if session.settings.agrees settings then .ok (session, .ok ())
    else
      let (session, outcome) := session.applySettings (here.source project) here.clock settings
      .ok (session, outcome.map fun _ => ())
  | none =>
    (Session.create settings { debug := settings.debug } settings.factoryPaths).map fun session =>
      (session, .ok ())

/-- Runs a command on the session of a project, and keeps the session. -/
def runOnSession (here : Surroundings) (command : SessionCommand) (project : RawText) (args : Value)
    (settings : Settings) (registry : Registry) : Reply :=
  match registry.sessionFor here project settings with
  | .error failure => ⟨registry, [], .error failure⟩
  | .ok (session, ready) =>
    let (session, outcome) := match ready with
      | .ok () => command.run here project args session
      | .error failure => (session, .error failure)
    ⟨OrderedMap.insert registry project session.withoutReports, session.log, outcome⟩

/-- Runs a command with the settings that were loaded for it. -/
def run (here : Surroundings) (command : Command) (project args : Value) (settings : Settings)
    (registry : Registry) : Reply :=
  match command, project with
  | .extract, _ => ⟨registry, [], extract here.tree settings project args⟩
  | .onSession command, .raw project => registry.runOnSession here command project args settings
  | .onSession _, .list _ | .onSession _, .object _ => ⟨registry, [], .error (.wrongType .key project)⟩
  | .onSession _, _ => ⟨registry, [], .error (.wrongType .path project)⟩

def unknownCommand (command : Value) : Value :=
  .object [
    ("error", .text "UnknownCommand"), ("message", .raw ("Unknown command: " ++ command.shown))]

def dispatch (here : Surroundings) (command project args : Value) (registry : Registry) : Reply :=
  match Command.ofValue? command with
  | none => ⟨registry, [], .ok (unknownCommand command)⟩
  | some command =>
    let loading := Settings.load args here.environment
    match loading.outcome with
    | .error failure => ⟨registry, loading.records, .error failure⟩
    | .ok settings =>
      let reply := registry.run here command project args settings
      { reply with log := loading.records ++ reply.log }

end Registry

end FactoryIndex
