import FactoryIndex.CommandLine
import FactoryIndex.Value.Writer
import Std.Time.DateTime.Timestamp

/-!
# The program

Everything that reaches outside: the files below a project and the file a request names are read before
the request is answered, together with the time and the environment. What is answered, and what is logged,
is decided elsewhere.
-/

namespace FactoryIndex

/-- The entry of a directory that a path stands for. -/
def Path.entry (path : Path) : IO.FS.DirEntry := ⟨⟨"."⟩, path.toText.shown⟩

/-- Adds the file under a path. What cannot be read is kept as an entry with nothing behind it. -/
def loadFile (tree : Tree) (path : Path) : IO Tree := do
  try
    let file := path.entry.path
    let bytes ← IO.FS.readBinFile file
    let found ← file.metadata
    return tree.write path (.file bytes.toList (fileReading found.modified.sec found.modified.nsec.toNat))
  catch _ => return tree.write path .dangling

/-- Adds all files below a directory, except for those in directories that are never listed. Links to
directories are not followed. -/
def loadFolder (tree : Tree) (folder : Path) : IO Tree := do
  let mut tree := tree
  let mut waiting := [folder]
  repeat
    let here :: rest := waiting | break
    waiting := rest
    unless ← here.entry.path.isDir do continue
    tree := tree.makeFolders here
    for entry in ← here.entry.path.readDir do
      let path := here.join (.ofText entry.fileName)
      match (← entry.path.symlinkMetadata).type with
      | .dir => unless skippedFolders.contains entry.fileName do waiting := path :: waiting
      | .symlink => unless ← entry.path.isDir do tree ← loadFile tree path
      | _ => tree ← loadFile tree path
  return tree

/-- Adds what lies under a path, be it a file or a directory, whose files are left out. -/
def loadPath (tree : Tree) (path : Path) : IO Tree := do
  if ← path.entry.path.isDir then return tree.makeFolders path
  else if ← path.entry.path.pathExists then loadFile tree path
  else return tree

/-- The files that a request may look at. -/
def loadTree (project args : Value) : IO Tree := do
  let tree ← match project with
    | .raw project => try loadFolder {} (Path.ofText project).named catch _ => pure {}
    | _ => pure {}
  match pathInProject project ((args.field? "file").getD project) with
  | .ok path => loadPath tree path.named
  | .error _ => return tree

def loadEnvironment : IO (OrderedMap RawText RawText) := do
  let mut found := OrderedMap.empty
  for name in Settings.names do
    let variableName := Settings.environmentStart ++ name.toUpper
    if let some value ← IO.getEnv variableName then found := found.insert (.plain variableName) (.plain value)
  return found

def lookAround (project args : Value) : IO Surroundings := do
  let wall ← Std.Time.Timestamp.now
  return {
    tree := ← loadTree project args
    clock := ⟨fineReading (← IO.monoNanosNow), fineReading wall.toNanosecondsSinceUnixEpoch.val⟩
    environment := ← loadEnvironment }

def writeLog (threshold : Level) (records : List LogRecord) : IO Unit := do
  for record in records do
    if threshold.rank ≤ record.level.rank then
      IO.eprintln (record.level.logName ++ " " ++ record.component.name ++ " " ++ record.event)

def writeLine (line : String) : IO Unit := do
  let stdout ← IO.getStdout
  stdout.putStrLn line
  stdout.flush

/-- The complaint about a failure that ends the program. -/
def Complaint.toValue (complaint : Complaint) : Value :=
  .object [("error", .text complaint.kind), ("message", .raw complaint.message)]

/-- Answers requests until there are no more. -/
def converse (threshold : Level) : IO UInt32 := do
  let stdin ← IO.getStdin
  let mut registry : Registry := .empty
  writeLine readyMessage.write
  repeat
    let line ← stdin.getLine
    if line.isEmpty then break
    let request := Text.trim line.toList
    if request.isEmpty then continue
    let fields := (Value.read request).toOption.getD .null
    let here ← lookAround ((fields.field? "project").getD .null) ((fields.field? "args").getD .null)
    match registry.answerLine here request with
    | .error failure =>
      IO.eprintln failure.complaint.toValue.write
      return 1
    | .ok reply =>
      registry := reply.registry
      writeLog threshold reply.log
      match reply.response.line with
      | .error failure =>
        IO.eprintln failure.complaint.toValue.write
        return 1
      | .ok line => writeLine line
  return 0

def runOnce (threshold : Level) (name project : String) (args : Option String) : IO UInt32 := do
  let value := (args.bind fun text => (Value.read text.toList).toOption).getD .null
  let here ← lookAround (.text project) value
  match CommandLine.runCommand here name project args with
  | .error failure =>
    IO.eprintln failure.complaint.toValue.write
    return 1
  | .ok run =>
    writeLog threshold run.log
    match run.outcome with
    | .ok value =>
      writeLine value.write
      return 0
    | .error complaint =>
      IO.eprintln complaint.toValue.write
      return 1

def usage : String :=
  "usage: [--help] [--sidecar] [--command COMMAND] [--project PROJECT] [--args ARGS] [--log-level LOG_LEVEL]"

def start (arguments : List String) : IO UInt32 := do
  match (CommandLine.Options.ofArguments arguments).bind CommandLine.Options.invocation with
  | .error .help =>
    IO.println usage
    return 0
  | .error .misuse =>
    IO.eprintln usage
    return 2
  | .error (.failure failure) =>
    IO.eprintln failure.complaint.toValue.write
    return 1
  | .ok (.conversation, threshold) => converse threshold
  | .ok (.command name project args, threshold) => runOnce threshold name project args

end FactoryIndex

def main (arguments : List String) : IO UInt32 := FactoryIndex.start arguments
