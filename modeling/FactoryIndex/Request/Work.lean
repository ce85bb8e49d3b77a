import FactoryIndex.Request.Basic

/-!
# What commands do

Each command that works with a session takes it as it is, brings the index up to date as far as it needs
to, and answers with a value. A failure ends the command; what it has done to the session before stays
done.
-/

namespace FactoryIndex

/-- The definitions of a single file. Without a file the project itself is taken for one. -/
def extract (tree : Tree) (settings : Settings) (project args : Value) : Except Failure Value :=
  match argument args "file" project with
  | .error failure => .error failure
  | .ok file =>
    match pathInProject project file with
    | .error failure => .error failure
    | .ok path =>
      match tree.read path with
      | .error failure => .error failure
      | .ok text =>
        let name := match args.field? "file" with
          | some (.raw file) => file
          | _ => path.toText
        .ok (Outline.parse settings.blockMode text name).toValue

/-- The text to resolve: the one given, or that of a file of the project. -/
def textToResolve (tree : Tree) (project args : Value) : Except Failure Value :=
  match args with
  | .object fields =>
    match Value.lookup? fields "text" with
    | some value => .ok value
    | none =>
      match pathInProject project ((Value.lookup? fields "file").getD (.text "")) with
      | .error failure => .error failure
      | .ok path => (tree.read path).map fun text => .text (String.ofList text)
  | .raw _ | .list _ => .error (.missingMember args.typeName "get")
  | _ => .error (.wrongType .container args)

def Store.factoriesByName (store : Store) : List Factory :=
  store.allFactories.mergeSort fun a b => decide (a.name ≤ b.name)

namespace Session

def answerIndex (here : Surroundings) (project : RawText) (args : Value) (session : Session) :
    Session × Except Failure Value :=
  match argument args "force" (.bool false) with
  | .error failure => (session, .error failure)
  | .ok force =>
    let (session, _) := session.index (here.source project) here.clock force.truthy
    (session, .ok (.object [
      ("project", .raw project), ("stats", session.store.stats.toValue),
      ("factories", .list (session.store.factoriesByName.map Factory.toValue))]))

def answerResolve (here : Surroundings) (project : RawText) (args : Value) (session : Session) :
    Session × Except Failure Value :=
  let (session, _) := session.index (here.source project) here.clock false
  match textToResolve here.tree (.raw project) args with
  | .error failure => (session, .error failure)
  | .ok text =>
    let (session, references) := session.resolve here.clock text
    (session, .ok (.object [
      ("references", .list (references.map Reference.toValue)),
      ("total_references", .int references.length)]))

def answerChanged (here : Surroundings) (project : RawText) (args : Value) (session : Session) :
    Session × Except Failure Value :=
  let (session, _) := session.index (here.source project) here.clock false
  match argument args "file" (.text ""), argument args "kind" (.text ChangeKind.changed.name) with
  | .ok file, .ok kind =>
    match session.handleChange (here.source project) here.clock file kind with
    | (session, .error failure) => (session, .error failure)
    | (session, .ok reindexed) =>
      (session, .ok (.object [
        ("file", file), ("reindexed", .bool reindexed), ("stats", session.store.stats.toValue)]))
  | .error failure, _ | _, .error failure => (session, .error failure)

/-- Starts to follow the files of the project, unless that has been done. -/
def ensureListening (here : Surroundings) (project : RawText) (session : Session) :
    Session × Except Failure Unit :=
  if session.watch.listeners.isEmpty then session.listen (here.source project) .session
  else (session, .ok ())

/-- Follows all changes since the last time. -/
def answerPoll (here : Surroundings) (project : RawText) (session : Session) :
    Session × Except Failure Value :=
  let (session, _) := session.index (here.source project) here.clock false
  match session.ensureListening here project with
  | (session, .error failure) => (session, .error failure)
  | (session, .ok ()) =>
    match session.poll (here.source project) here.clock with
    | (session, .error failure) => (session, .error failure)
    | (session, .ok changes) =>
      (session, .ok (.object [
        ("changes", .list (changes.map fun (file, kind) =>
          .object [("file", .raw file), ("kind", .text kind.name)])),
        ("stats", session.store.stats.toValue)]))

/-- Removes what has expired and counts the rest. -/
def answerStats (here : Surroundings) (session : Session) : Session × Except Failure Value :=
  let (session, outcome) := session.cleanup here.clock
  (session, outcome.map fun removed =>
    .object (session.store.stats.fields ++ ([("expired_removed", .int removed)] : Fields)))

end Session

def SessionCommand.run (command : SessionCommand) (here : Surroundings) (project : RawText) (args : Value)
    (session : Session) : Session × Except Failure Value :=
  match command with
  | .index => session.answerIndex here project args
  | .resolve => session.answerResolve here project args
  | .changed => session.answerChanged here project args
  | .poll => session.answerPoll here project
  | .stats => session.answerStats here

end FactoryIndex
